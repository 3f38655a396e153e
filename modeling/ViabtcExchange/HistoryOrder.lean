import ViabtcExchange.Balances
import ViabtcExchange.HistoryRows

/-!
# The order of the history's rows (`me_history.c`)

A thread executes the statement it has taken until the database takes it, and answers afterwards.
The tables whose `id` counts by itself number the rows as they are inserted, and readhistory sorts
by it.

**Theorem (`HistoryTables.inserted_in_order`).** The rows of such a table are inserted in
the order in which they were appended, if there is one thread, or if no thread takes a
statement of the table while another one still has to execute one. With two threads they
need not be (`HistoryTables.inserted_in_other_order`).
-/

namespace ViabtcExchange

/-- The table of a row, as `append_user_order` … `append_user_balance` name it. -/
def SqlRow.key {D : Type} : SqlRow D → DictSqlKey
  | .userBalance userId .. => ⟨.userBalance, userId % historyHashNum⟩
  | .userOrder order => ⟨.userOrder, order.userId % historyHashNum⟩
  | .userDeal userId .. => ⟨.userDeal, userId % historyHashNum⟩
  | .orderDetail order => ⟨.orderDetail, order.id % historyHashNum⟩
  | .orderDeal _ _ orderId .. => ⟨.orderDeal, orderId % historyHashNum⟩

/-- The `id` of a row is `NULL`. -/
def HistoryType.autoId : HistoryType → Bool
  | .userBalance | .userDeal | .orderDeal => true
  | .userOrder | .orderDetail => false

/-- The queue, the threads that have executed their statement and not answered yet, and the rows in
the tables. -/
structure HistoryTables (D : Type) where
  queue : HistoryQueue D
  executed : List ℕ
  inserted : List (SqlRow D)

namespace HistoryTables

variable {D : Type}

def init (historyThread : ℕ) : HistoryTables D := ⟨.init historyThread, [], []⟩

def setJob (t : HistoryTables D) (job : Job (List (SqlRow D))) : HistoryTables D :=
  { t with queue := { t.queue with job := job } }

/-- A thread that is in `on_job`, and has a statement to execute. -/
def Waiting (t : HistoryTables D) (i : ℕ) (sql : List (SqlRow D)) : Prop :=
  t.queue.job.threads[i]? = some (.busy sql) ∧ i ∉ t.executed

/-- The tables after any appends, flushes and turns of the threads. A thread takes a statement only
where `ok` holds. In `on_job`, a statement that fails changes nothing, and is executed again; error
1062 ends the loop too, and is about an `id` that is not `NULL`. -/
inductive Reached (historyThread : ℕ) (ok : HistoryTables D → Prop) :
    List (SqlRow D) → HistoryTables D → Prop
  | init : Reached historyThread ok [] (init historyThread)
  | append {rows : List (SqlRow D)} {t : HistoryTables D} (row : HistoryRow D) :
    Reached historyThread ok rows t →
      Reached historyThread ok (rows ++ (sqlRows row).map Prod.snd)
        { t with queue := t.queue.append row }
  | timer {rows : List (SqlRow D)} {t : HistoryTables D}
      {entries : List (DictSqlKey × List (SqlRow D))} :
    Reached historyThread ok rows t → Iterates t.queue.dictSql entries →
      Reached historyThread ok rows { t with queue := t.queue.onTimer entries }
  | wake {rows : List (SqlRow D)} {t : HistoryTables D} {i : ℕ} {job : Job (List (SqlRow D))} :
    Reached historyThread ok rows t → ok t → t.queue.job.move (.wake i) = some job →
      Reached historyThread ok rows (t.setJob job)
  | insert {rows : List (SqlRow D)} {t : HistoryTables D} {i : ℕ} {sql : List (SqlRow D)} :
    Reached historyThread ok rows t → t.Waiting i sql →
      Reached historyThread ok rows
        { t with executed := i :: t.executed, inserted := t.inserted ++ sql }
  | duplicate {rows : List (SqlRow D)} {t : HistoryTables D} {i : ℕ} {sql : List (SqlRow D)} :
    Reached historyThread ok rows t → t.Waiting i sql →
      (∀ row ∈ sql, row.key.type.autoId = false) →
      Reached historyThread ok rows { t with executed := i :: t.executed }
  | reply {rows : List (SqlRow D)} {t : HistoryTables D} {i : ℕ} {job : Job (List (SqlRow D))} :
    Reached historyThread ok rows t → i ∈ t.executed → t.queue.job.move (.reply i) = some job →
      Reached historyThread ok rows
        { t.setJob job with executed := t.executed.filter (· ≠ i) }

/-- The rows of one table. -/
def part (k : DictSqlKey) (rows : List (SqlRow D)) : List (SqlRow D) :=
  rows.filter (·.key = k)

/-- There is one thread, or none has a statement to execute on the table of the next statement. -/
def Apart (t : HistoryTables D) : Prop :=
  t.queue.job.threads.length = 1 ∨
    ∀ sql ∈ t.queue.job.requests.head?, ∀ i sql', t.Waiting i sql' →
      ∀ row ∈ sql, ∀ row' ∈ sql', row.key ≠ row'.key

/-! ## Where the rows of a table are -/

@[simp] theorem part_append (k : DictSqlKey) (rows rows' : List (SqlRow D)) :
    part k (rows ++ rows') = part k rows ++ part k rows' := List.filter_append ..

theorem part_eq_nil {k : DictSqlKey} {rows : List (SqlRow D)} :
    part k rows = [] ↔ ∀ row ∈ rows, row.key ≠ k := by
  simp [part, List.filter_eq_nil_iff]

/-- What the threads still have to insert into a table is one thread's statement. -/
def Running (k : DictSqlKey) (t : HistoryTables D) (run : List (SqlRow D)) : Prop :=
  run = [] ∧ (∀ i sql, t.Waiting i sql → part k sql = []) ∨
    ∃ i sql, t.Waiting i sql ∧ part k sql = run ∧
      ∀ j sql', t.Waiting j sql' → j ≠ i → part k sql' = []

/-- Every statement of the dictionary has rows of its own table only. -/
def Keyed (q : HistoryQueue D) : Prop :=
  ∀ key val, q.dictSql.find key = some val → ∀ row ∈ val, row.key = key

/-- How the threads, the queue and the dictionary go together. -/
structure Fit (historyThread : ℕ) (t : HistoryTables D) : Prop where
  up : t.queue.job.shutdown = false
  count : t.queue.job.threads.length = historyThread
  dict : Keyed t.queue
  executed : ∀ i ∈ t.executed, ∃ sql, t.queue.job.threads[i]? = some (.busy sql)

/-- The rows appended to a table, in order: those inserted, those being executed, those queued and
those of the dictionary. -/
def Ordered (k : DictSqlKey) (rows : List (SqlRow D)) (t : HistoryTables D) : Prop :=
  ∃ run, t.Running k run ∧
    part k rows = part k t.inserted ++ run ++ part k t.queue.job.requests.flatten ++
      part k ((t.queue.dictSql.find k).getD [])

/-- Each row is appended under the key of its table. -/
theorem key_of_mem_sqlRows {row : HistoryRow D} {kr : DictSqlKey × SqlRow D}
    (h : kr ∈ sqlRows row) :
    kr.2.key = kr.1 := by
  cases row with
  | order order =>
    simp only [sqlRows, List.mem_cons, List.not_mem_nil, or_false] at h
    obtain rfl | rfl := h <;> rfl
  | deal dealId ask askRole bid bidRole t =>
    simp only [sqlRows, List.mem_cons, List.not_mem_nil, or_false] at h
    obtain rfl | rfl | rfl | rfl := h <;> rfl
  | balance userId asset business change balance detail =>
    simp only [sqlRows, List.mem_cons, List.not_mem_nil, or_false] at h
    obtain rfl := h
    rfl

theorem keyed_appendSql {q : HistoryQueue D} (h : Keyed q) (row : SqlRow D) :
    Keyed (q.appendSql row.key row) := by
  intro key val hfind r hr
  simp only [HistoryQueue.appendSql, Dict.find_insert] at hfind
  split_ifs at hfind with hkey
  · obtain rfl := Option.some.inj hfind
    rcases List.mem_append.mp hr with hr | hr
    · cases hold : q.dictSql.find row.key with
      | none =>
        rw [hold] at hr
        cases hr
      | some old =>
        rw [hold] at hr
        rw [h _ _ hold r hr, hkey]
    · rw [List.mem_singleton.mp hr, hkey]
  · exact h key val hfind r hr

/-- `get_sql`, the tuple and `set_sql` add the tuple to its table's rows. -/
theorem part_appendSql (k : DictSqlKey) (q : HistoryQueue D) (row : SqlRow D) :
    part k (((q.appendSql row.key row).dictSql.find k).getD []) =
      part k ((q.dictSql.find k).getD []) ++ part k [row] := by
  simp only [HistoryQueue.appendSql, Dict.find_insert]
  split_ifs with hkey
  · rw [Option.getD_some, part_append, hkey]
  · have hnil : part k [row] = [] :=
      part_eq_nil.mpr fun r hr => List.mem_singleton.mp hr ▸ Ne.symm hkey
    rw [hnil, List.append_nil]

theorem append_spec (k : DictSqlKey) {q : HistoryQueue D} (h : Keyed q) (row : HistoryRow D) :
    Keyed (q.append row) ∧
      part k (((q.append row).dictSql.find k).getD []) =
        part k ((q.dictSql.find k).getD []) ++ part k ((sqlRows row).map Prod.snd) := by
  have hkeys : ∀ kr ∈ sqlRows row, kr.2.key = kr.1 := fun kr => key_of_mem_sqlRows
  unfold HistoryQueue.append
  revert hkeys
  induction sqlRows row generalizing q with
  | nil =>
    intro _
    exact ⟨h, (List.append_nil _).symm⟩
  | cons kr krs ih =>
    intro hkeys
    have hkr : kr.2.key = kr.1 := hkeys kr (List.mem_cons_self ..)
    obtain ⟨hkeyed, hpart⟩ := ih (keyed_appendSql h kr.2) fun kr hmem =>
      hkeys kr (List.mem_cons_of_mem _ hmem)
    rw [List.foldl_cons, ← hkr]
    refine ⟨hkeyed, ?_⟩
    rw [hpart, part_appendSql, List.append_assoc, ← part_append]
    rfl

/-- A flush adds a table's rows in their order, as they are in one statement. -/
theorem part_flush (k : DictSqlKey) {q : HistoryQueue D} (h : Keyed q)
    {entries : List (DictSqlKey × List (SqlRow D))} (hi : Iterates q.dictSql entries) :
    part k (entries.map Prod.snd).flatten = part k ((q.dictSql.find k).getD []) := by
  have hother (rest : List (DictSqlKey × List (SqlRow D))) (hrest : ∀ entry ∈ rest, entry ∈ entries)
      (hne : ∀ entry ∈ rest, entry.1 ≠ k) : part k (rest.map Prod.snd).flatten = [] := by
    refine part_eq_nil.mpr fun row hrow => ?_
    obtain ⟨val, hval, hmem⟩ := List.mem_flatten.mp hrow
    obtain ⟨entry, hentry, rfl⟩ := List.mem_map.mp hval
    rw [h entry.1 entry.2 ((hi.mem_iff _ _).mp (hrest entry hentry)) row hmem]
    exact hne entry hentry
  cases hfind : q.dictSql.find k with
  | none =>
    rw [hother entries (fun _ h => h)]
    · rfl
    · rintro entry hentry rfl
      have := (hi.mem_iff entry.1 entry.2).mp hentry
      rw [hfind] at this
      cases this
  | some val =>
    obtain ⟨front, rear, rfl⟩ := List.append_of_mem ((hi.mem_iff k val).mpr hfind)
    have hnodup := hi.nodup
    rw [List.map_append, List.map_cons, List.nodup_append] at hnodup
    obtain ⟨-, hrear, hdisjoint⟩ := hnodup
    have hfront : part k (front.map Prod.snd).flatten = [] := by
      refine hother front (fun _ h => List.mem_append_left _ h) fun entry hentry => ?_
      exact hdisjoint entry.1 (List.mem_map_of_mem hentry) k (List.mem_cons_self ..)
    have hback : part k (rear.map Prod.snd).flatten = [] := by
      refine hother rear (fun _ h => List.mem_append_right _ (List.mem_cons_of_mem _ h)) ?_
      rintro entry hentry rfl
      have hmem : entry.1 ∈ rear.map Prod.fst := List.mem_map_of_mem hentry
      exact (List.nodup_cons.mp hrear).1 hmem
    rw [List.map_append, List.map_cons, List.flatten_append, List.flatten_cons, part_append,
      part_append, hfront, hback, List.append_nil, List.nil_append]
    rfl

/-! ## Steps -/

section Steps

variable {k : DictSqlKey} {rows : List (SqlRow D)} {t : HistoryTables D} {historyThread : ℕ}

/-- Threads that wait in both are the same. -/
theorem Running.congr {t' : HistoryTables D} {run : List (SqlRow D)} (h : t.Running k run)
    (hwait : ∀ i sql, t'.Waiting i sql ↔ t.Waiting i sql) : t'.Running k run := by
  simp only [Running, hwait]
  exact h

theorem Ordered.append (h : Ordered k rows t) (hfit : Fit historyThread t) (row : HistoryRow D) :
    Ordered k (rows ++ (sqlRows row).map Prod.snd) { t with queue := t.queue.append row } := by
  obtain ⟨run, hrun, hrows⟩ := h
  have hjob : (t.queue.append row).job = t.queue.job := (HistoryQueue.pending_append t.queue row).2
  refine ⟨run, hrun.congr fun i sql => ?_, ?_⟩
  · rw [Waiting, Waiting, hjob]
  · rw [part_append, hrows, hjob, (append_spec k hfit.dict row).2, ← List.append_assoc]

theorem Ordered.timer (h : Ordered k rows t) (hfit : Fit historyThread t)
    {entries : List (DictSqlKey × List (SqlRow D))} (hi : Iterates t.queue.dictSql entries) :
    Ordered k rows { t with queue := t.queue.onTimer entries } := by
  obtain ⟨run, hrun, hrows⟩ := h
  have hjob : (t.queue.onTimer entries).job =
      { t.queue.job with requests := t.queue.job.requests ++ entries.map Prod.snd } :=
    HistoryQueue.addAll_spec entries t.queue.job
  refine ⟨run, hrun.congr fun i sql => ?_, ?_⟩
  · rw [Waiting, Waiting, hjob]
  · have hempty : part k (((t.queue.onTimer entries).dictSql.find k).getD []) = [] := by
      rw [HistoryQueue.onTimer, Dict.find_empty]
      rfl
    rw [hrows, hjob, hempty, List.append_nil, List.flatten_append, part_append,
      part_flush k hfit.dict hi, ← List.append_assoc]

/-- What waits after thread `i` has taken a statement. -/
theorem waiting_taken (hfit : Fit historyThread t) {i : ℕ}
    (hready : t.queue.job.threads[i]? = some .ready) (sql : List (SqlRow D))
    (requests : List (List (SqlRow D))) (j : ℕ) (sql' : List (SqlRow D)) :
    (t.setJob { t.queue.job with
        requests := requests, threads := t.queue.job.threads.set i (.busy sql) }).Waiting j sql' ↔
      j = i ∧ sql' = sql ∨ j ≠ i ∧ t.Waiting j sql' := by
  have hi : i < t.queue.job.threads.length := (List.getElem?_eq_some_iff.mp hready).1
  have hnot : i ∉ t.executed := fun hmem => by
    obtain ⟨sql₀, hbusy⟩ := hfit.executed i hmem
    rw [hready] at hbusy
    cases hbusy
  simp only [Waiting, setJob, List.getElem?_set]
  by_cases hj : i = j
  · subst hj
    simp [hi, hnot, eq_comm]
  · simp [hj, Ne.symm hj]

theorem Ordered.taken (h : Ordered k rows t) (hfit : Fit historyThread t) {i : ℕ}
    (hready : t.queue.job.threads[i]? = some .ready) {sql : List (SqlRow D)}
    {requests : List (List (SqlRow D))} (hrequests : t.queue.job.requests = sql :: requests)
    (hapart : part k sql ≠ [] → ∀ j sql', t.Waiting j sql' → part k sql' = []) :
    Ordered k rows (t.setJob { t.queue.job with
      requests := requests, threads := t.queue.job.threads.set i (.busy sql) }) := by
  obtain ⟨run, hrun, hrows⟩ := h
  have hwaiting := waiting_taken hfit hready sql requests
  have hnot : ∀ sql', ¬t.Waiting i sql' := fun sql' hwait => by
    have := hready.symm.trans hwait.1
    cases this
  by_cases hpart : part k sql = []
  · -- nothing of the table is taken
    refine ⟨run, ?_, ?_⟩
    · obtain ⟨hnil, hnone⟩ | ⟨j, sql', hwait, hrun, hothers⟩ := hrun
      · refine .inl ⟨hnil, fun j sql' hwait => ?_⟩
        obtain ⟨-, rfl⟩ | ⟨-, hwait⟩ := (hwaiting j sql').mp hwait
        · exact hpart
        · exact hnone j sql' hwait
      · have hji : j ≠ i := by
          rintro rfl
          exact hnot sql' hwait
        refine .inr ⟨j, sql', (hwaiting j sql').mpr (.inr ⟨hji, hwait⟩), hrun,
          fun l sql₀ hwait₀ hl => ?_⟩
        obtain ⟨-, rfl⟩ | ⟨-, hwait₀⟩ := (hwaiting l sql₀).mp hwait₀
        · exact hpart
        · exact hothers l sql₀ hwait₀ hl
    · rw [hrows, hrequests, List.flatten_cons, part_append, hpart, List.nil_append]
      rfl
  · -- the statement taken is the only one of the table
    have hnone := hapart hpart
    have hnil : run = [] := by
      obtain ⟨hnil, -⟩ | ⟨j, sql', hwait, hrun, -⟩ := hrun
      · exact hnil
      · rw [← hrun, hnone j sql' hwait]
    refine ⟨part k sql, .inr ⟨i, sql, (hwaiting i sql).mpr (.inl ⟨rfl, rfl⟩), rfl,
      fun j sql' hwait hj => ?_⟩, ?_⟩
    · obtain ⟨rfl, -⟩ | ⟨-, hwait⟩ := (hwaiting j sql').mp hwait
      · exact absurd rfl hj
      · exact hnone j sql' hwait
    · rw [hrows, hrequests, hnil, List.flatten_cons, part_append, List.append_nil,
        ← List.append_assoc]
      rfl

/-- What waits after thread `i` has executed its statement. -/
theorem waiting_executed {i j : ℕ} {sql' inserted : List (SqlRow D)} :
    Waiting { t with executed := i :: t.executed, inserted := inserted } j sql' ↔
      j ≠ i ∧ t.Waiting j sql' := by
  simp only [Waiting, List.mem_cons, not_or]
  tauto

/-- Thread `i` executes its statement, and the table gets what it had to insert there. -/
theorem Ordered.executed (h : Ordered k rows t) {i : ℕ} {sql inserted : List (SqlRow D)}
    (hwait : t.Waiting i sql) (hinserted : part k inserted = part k t.inserted ++ part k sql) :
    Ordered k rows { t with executed := i :: t.executed, inserted := inserted } := by
  obtain ⟨run, hrun, hrows⟩ := h
  obtain ⟨hnil, hnone⟩ | ⟨j, sql', hwait', hrun, hothers⟩ := hrun
  · refine ⟨run, .inl ⟨hnil, fun j sql' h => hnone j sql' (waiting_executed.mp h).2⟩, ?_⟩
    rw [hrows, hinserted, hnone i sql hwait, List.append_nil]
  · by_cases hij : i = j
    · subst hij
      have hsql : sql = sql' := by
        have := hwait.1.symm.trans hwait'.1
        simpa using this
      refine ⟨[], .inl ⟨rfl, fun l sql₀ h => ?_⟩, ?_⟩
      · obtain ⟨hl, hwait₀⟩ := waiting_executed.mp h
        exact hothers l sql₀ hwait₀ hl
      · rw [hrows, hinserted, hsql, hrun, List.append_nil]
    · refine ⟨run, .inr ⟨j, sql', waiting_executed.mpr ⟨Ne.symm hij, hwait'⟩, hrun, fun l sql₀ h => ?_⟩,
        ?_⟩
      · exact hothers l sql₀ (waiting_executed.mp h).2
      · rw [hrows, hinserted, hothers i sql hwait hij, List.append_nil]

/-- A thread that answers waits neither before nor after. -/
theorem waiting_replied {i : ℕ} (hmem : i ∈ t.executed) {job : Job (List (SqlRow D))}
    (hthreads : job.threads = t.queue.job.threads.set i .ready) (j : ℕ) (sql : List (SqlRow D)) :
    Waiting { t.setJob job with executed := t.executed.filter (· ≠ i) } j sql ↔
      t.Waiting j sql := by
  simp only [Waiting, setJob, hthreads, List.getElem?_set, List.mem_filter]
  by_cases hj : i = j
  · subst hj
    by_cases hi : i < t.queue.job.threads.length <;> simp [hi, hmem]
  · simp [hj, Ne.symm hj]

/-- Thread `i` moves, and the threads that have executed their statement stay as they are. -/
theorem executed_set {i : ℕ} {executed : List ℕ} (thread : Thread (List (SqlRow D)))
    (h : ∀ j ∈ executed, j ≠ i ∧ ∃ sql, t.queue.job.threads[j]? = some (.busy sql)) :
    ∀ j ∈ executed, ∃ sql, (t.queue.job.threads.set i thread)[j]? = some (.busy sql) := by
  intro j hj
  obtain ⟨hne, sql, hbusy⟩ := h j hj
  exact ⟨sql, by rw [List.getElem?_set_ne (Ne.symm hne), hbusy]⟩

theorem fit_init (historyThread : ℕ) : Fit historyThread (init historyThread : HistoryTables D) :=
  ⟨rfl, List.length_replicate, fun key val hfind => by simp [init, HistoryQueue.init] at hfind,
    fun i hi => by cases hi⟩

theorem Fit.append (h : Fit historyThread t) (row : HistoryRow D) :
    Fit historyThread { t with queue := t.queue.append row } := by
  have hjob : (t.queue.append row).job = t.queue.job := (HistoryQueue.pending_append t.queue row).2
  refine ⟨?_, ?_, (append_spec ⟨.userBalance, 0⟩ h.dict row).1, ?_⟩
  · rw [hjob]
    exact h.up
  · rw [hjob]
    exact h.count
  · rw [hjob]
    exact h.executed

theorem Fit.timer (h : Fit historyThread t) (entries : List (DictSqlKey × List (SqlRow D))) :
    Fit historyThread { t with queue := t.queue.onTimer entries } := by
  have hjob : (t.queue.onTimer entries).job =
      { t.queue.job with requests := t.queue.job.requests ++ entries.map Prod.snd } :=
    HistoryQueue.addAll_spec entries t.queue.job
  refine ⟨?_, ?_, fun key val hfind => by simp [HistoryQueue.onTimer] at hfind, ?_⟩
  · rw [hjob]
    exact h.up
  · rw [hjob]
    exact h.count
  · rw [hjob]
    exact h.executed

theorem Fit.taken (h : Fit historyThread t) {i : ℕ} (hready : t.queue.job.threads[i]? = some .ready)
    (sql : List (SqlRow D)) (requests : List (List (SqlRow D))) :
    Fit historyThread (t.setJob { t.queue.job with
      requests := requests, threads := t.queue.job.threads.set i (.busy sql) }) := by
  refine ⟨h.up, List.length_set.trans h.count, h.dict, executed_set _ fun j hj => ?_⟩
  obtain ⟨sql', hbusy⟩ := h.executed j hj
  refine ⟨?_, sql', hbusy⟩
  rintro rfl
  rw [hready] at hbusy
  cases hbusy

theorem Fit.executes (h : Fit historyThread t) {i : ℕ} {sql : List (SqlRow D)}
    (hwait : t.Waiting i sql) (inserted : List (SqlRow D)) :
    Fit historyThread { t with executed := i :: t.executed, inserted := inserted } := by
  refine ⟨h.up, h.count, h.dict, fun j hj => ?_⟩
  obtain rfl | hj := List.mem_cons.mp hj
  · exact ⟨sql, hwait.1⟩
  · exact h.executed j hj

theorem Fit.replied (h : Fit historyThread t) {i : ℕ} {job : Job (List (SqlRow D))}
    (hthreads : job.threads = t.queue.job.threads.set i .ready)
    (hup : job.shutdown = t.queue.job.shutdown) :
    Fit historyThread { t.setJob job with executed := t.executed.filter (· ≠ i) } := by
  refine ⟨hup.trans h.up, ?_, h.dict, ?_⟩
  · show job.threads.length = historyThread
    rw [hthreads, List.length_set]
    exact h.count
  · show ∀ j ∈ t.executed.filter (· ≠ i), ∃ sql, job.threads[j]? = some (.busy sql)
    rw [hthreads]
    refine executed_set _ fun j hj => ?_
    obtain ⟨hmem, hne⟩ := List.mem_filter.mp hj
    exact ⟨of_decide_eq_true hne, h.executed j hmem⟩

/-- A thread that takes a statement while the threads are apart is the only one with rows of the
table. -/
theorem Apart.part_eq_nil {i : ℕ} {sql : List (SqlRow D)} {requests : List (List (SqlRow D))}
    (h : t.Apart) (hready : t.queue.job.threads[i]? = some .ready)
    (hrequests : t.queue.job.requests = sql :: requests) (hpart : part k sql ≠ []) :
    ∀ j sql', t.Waiting j sql' → part k sql' = [] := by
  intro j sql' hwait
  rcases h with hone | hapart
  · obtain ⟨hi, -⟩ := List.getElem?_eq_some_iff.mp hready
    obtain ⟨hj, -⟩ := List.getElem?_eq_some_iff.mp hwait.1
    obtain rfl : i = j := by omega
    have := hready.symm.trans hwait.1
    cases this
  · obtain ⟨row, hrow⟩ := List.exists_mem_of_ne_nil _ hpart
    obtain ⟨hmem, hkey⟩ := List.mem_filter.mp hrow
    refine HistoryTables.part_eq_nil.mpr fun row' hrow' => ?_
    rw [← of_decide_eq_true hkey]
    exact (hapart sql (by rw [hrequests]; rfl) j sql' hwait row hmem row' hrow').symm

end Steps

theorem Reached.fit {historyThread : ℕ} {ok : HistoryTables D → Prop} {rows : List (SqlRow D)}
    {t : HistoryTables D} (h : Reached historyThread ok rows t) : Fit historyThread t := by
  induction h with
  | init => exact fit_init historyThread
  | append row _ ih => exact ih.append row
  | timer _ _ ih => exact ih.timer _
  | wake _ _ hmove ih =>
    obtain ⟨hready, ⟨hdown, -⟩ | ⟨sql, requests, -, -, rfl⟩⟩ := Job.move_wake hmove
    · exact absurd (ih.up.symm.trans hdown) (by decide)
    · exact ih.taken hready sql requests
  | insert _ hwait ih => exact ih.executes hwait _
  | duplicate _ hwait _ ih => exact ih.executes hwait _
  | reply _ _ hmove ih =>
    obtain ⟨sql, -, rfl⟩ := Job.move_reply hmove
    exact ih.replied rfl rfl

/-- **Where the rows of a table are, after any run.** -/
theorem Reached.ordered {historyThread : ℕ} {rows : List (SqlRow D)} {t : HistoryTables D}
    {k : DictSqlKey} (hk : k.type.autoId = true) (h : Reached historyThread Apart rows t) :
    Ordered k rows t := by
  induction h with
  | init =>
    refine ⟨[], .inl ⟨rfl, fun i sql hwait => ?_⟩, rfl⟩
    have hmem := List.mem_of_getElem? hwait.1
    cases (List.mem_replicate.mp hmem).2
  | append row hrun ih => exact ih.append hrun.fit row
  | timer hrun hi ih => exact ih.timer hrun.fit hi
  | wake hrun hapart hmove ih =>
    obtain ⟨hready, ⟨hdown, -⟩ | ⟨sql, requests, -, hrequests, rfl⟩⟩ := Job.move_wake hmove
    · exact absurd (hrun.fit.up.symm.trans hdown) (by decide)
    · exact ih.taken hrun.fit hready hrequests (hapart.part_eq_nil hready hrequests)
  | insert _ hwait ih => exact ih.executed hwait (part_append ..)
  | duplicate _ hwait hduplicate ih =>
    refine ih.executed hwait ?_
    have hnil := part_eq_nil.mpr fun row hrow hkey => by
      have := hduplicate row hrow
      rw [hkey, hk] at this
      cases this
    rw [hnil, List.append_nil]
  | reply _ hmem hmove ih =>
    obtain ⟨sql, -, rfl⟩ := Job.move_reply hmove
    obtain ⟨run, hrun, hrows⟩ := ih
    exact ⟨run, hrun.congr (waiting_replied hmem rfl), hrows⟩

/-- The rows of a table that numbers its rows are inserted in the order in which they were appended:
those inserted are the first of those appended. -/
theorem inserted_in_order {historyThread : ℕ} {rows : List (SqlRow D)} {t : HistoryTables D}
    {k : DictSqlKey} (hk : k.type.autoId = true) (h : Reached historyThread Apart rows t) :
    t.inserted.filter (·.key = k) <+: rows.filter (·.key = k) := by
  obtain ⟨run, -, hrows⟩ := h.ordered hk
  rw [List.append_assoc, List.append_assoc] at hrows
  exact ⟨_, hrows.symm⟩

/-- A user's deposits of 1, with the balances after them. -/
def deposit (balance : ℚ) : HistoryRow ℚ :=
  .balance 7 "BTC" "deposit" 1 balance (.update .null)

def depositRow (balance : ℚ) : SqlRow ℚ :=
  .userBalance 7 "BTC" "deposit" 1 balance (.update .null)

/-- The tables with two threads and an empty dictionary. -/
def withThreads (requests : List (List (SqlRow ℚ))) (threads : List (Thread (List (SqlRow ℚ))))
    (executed : List ℕ) (inserted : List (SqlRow ℚ)) : HistoryTables ℚ :=
  ⟨⟨∅, ⟨requests, false, threads, []⟩⟩, executed, inserted⟩

/-- Two deposits are flushed one after the other. -/
theorem reached_deposits (ok : HistoryTables ℚ → Prop) :
    Reached 2 ok [depositRow 1, depositRow 2]
      (withThreads [[depositRow 1], [depositRow 2]] [.ready, .ready] [] []) := by
  have hfirst : Iterates ((HistoryQueue.init 2).append (deposit 1)).dictSql
      [(⟨.userBalance, 7⟩, [depositRow 1])] := rfl
  have hflushed :
      Reached 2 ok [depositRow 1] (withThreads [[depositRow 1]] [.ready, .ready] [] []) :=
    .timer (.append (deposit 1) .init) hfirst
  have hsecond : Iterates ((withThreads [[depositRow 1]] [.ready, .ready] [] []).queue.append
      (deposit 2)).dictSql [(⟨.userBalance, 7⟩, [depositRow 2])] := rfl
  exact .timer (.append (deposit 2) hflushed) hsecond

/-- The second thread takes its statement when the first one has executed its own. -/
theorem inserted_in_order_deposits :
    (withThreads [] [.busy [depositRow 1], .busy [depositRow 2]] [1, 0]
        [depositRow 1, depositRow 2]).inserted.filter (·.key = ⟨.userBalance, 7⟩) <+:
      [depositRow 1, depositRow 2].filter (·.key = ⟨.userBalance, 7⟩) := by
  have hready : Apart (withThreads [[depositRow 1], [depositRow 2]] [.ready, .ready] [] []) := by
    refine .inr fun sql _ i sql' hwait => ?_
    have := List.mem_of_getElem? hwait.1
    simp [withThreads] at this
  have hfirst : Reached 2 Apart [depositRow 1, depositRow 2]
      (withThreads [[depositRow 2]] [.busy [depositRow 1], .ready] [] []) :=
    .wake (reached_deposits Apart) hready (show Job.move _ (.wake 0) = _ from rfl)
  have hinserted : Reached 2 Apart [depositRow 1, depositRow 2]
      (withThreads [[depositRow 2]] [.busy [depositRow 1], .ready] [0] [depositRow 1]) :=
    .insert hfirst ⟨rfl, by decide⟩
  have hexecuted : Apart
      (withThreads [[depositRow 2]] [.busy [depositRow 1], .ready] [0] [depositRow 1]) := by
    refine .inr fun sql _ i sql' hwait => ?_
    obtain ⟨hbusy, hi⟩ := hwait
    match i with
    | 0 => exact absurd (List.mem_singleton.mpr rfl) hi
    | 1 => cases hbusy
    | _ + 2 => cases hbusy
  have hsecond : Reached 2 Apart [depositRow 1, depositRow 2]
      (withThreads [] [.busy [depositRow 1], .busy [depositRow 2]] [0] [depositRow 1]) :=
    .wake hinserted hexecuted (show Job.move _ (.wake 1) = _ from rfl)
  exact inserted_in_order rfl (.insert hsecond (show Waiting _ 1 _ from ⟨rfl, by decide⟩))

/-- Both threads take a statement, and the second one is executed first. -/
theorem inserted_in_other_order :
    Reached 2 (fun _ => True) [depositRow 1, depositRow 2]
        (withThreads [] [.busy [depositRow 1], .busy [depositRow 2]] [0, 1]
          [depositRow 2, depositRow 1]) ∧
      ¬[depositRow 2, depositRow 1].filter (·.key = ⟨.userBalance, 7⟩) <+:
        [depositRow 1, depositRow 2].filter (·.key = ⟨.userBalance, 7⟩) := by
  have hfirst : Reached 2 (fun _ => True) [depositRow 1, depositRow 2]
      (withThreads [[depositRow 2]] [.busy [depositRow 1], .ready] [] []) :=
    .wake (reached_deposits _) trivial (show Job.move _ (.wake 0) = _ from rfl)
  have hsecond : Reached 2 (fun _ => True) [depositRow 1, depositRow 2]
      (withThreads [] [.busy [depositRow 1], .busy [depositRow 2]] [] []) :=
    .wake hfirst trivial (show Job.move _ (.wake 1) = _ from rfl)
  have hovertaken : Reached 2 (fun _ => True) [depositRow 1, depositRow 2]
      (withThreads [] [.busy [depositRow 1], .busy [depositRow 2]] [1] [depositRow 2]) :=
    .insert hsecond ⟨rfl, by decide⟩
  refine ⟨.insert hovertaken ⟨rfl, by decide⟩, fun hprefix => ?_⟩
  simp [depositRow, SqlRow.key, historyHashNum] at hprefix

end HistoryTables

end ViabtcExchange
