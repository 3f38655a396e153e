import ViabtcExchange.HistoryRows
import ViabtcExchange.Operlog

/-!
# Shutdown (`fini_operlog`, `fini_history`)

When the engine is told to end it flushes the operation log and the history once more, sleeps for
100 ms and releases the jobs. How many statements the threads take while it sleeps is up to the
scheduler and to MySQL.

A thread that finds the shutdown flag set leaves its loop, and what is still in the queue is
dropped. **Theorem (`shutdown_executes`).** Everything appended is executed just when the threads
take as many statements during the sleep as the queue holds after the last flush.
-/

namespace ViabtcExchange

section Operlog

variable {δ : Type} (localtime : ℤ → Tm)

/-- `fini_operlog` at the time `now`; `sleep` and `join` are what the worker does during the sleep
and during the release. -/
def Operlog.fini (o : Operlog δ) (now : ℤ) (sleep join : List Job.Move) : Option (Operlog δ) :=
  ((o.onTimer localtime now).job.fini sleep join).map fun job =>
    { o.onTimer localtime now with job := job }

/-- The entries of the statements `on_job` has returned from. -/
def Operlog.executed (o : Operlog δ) : List (OperLog δ) := o.job.replies.flatMap Sql.logs

theorem Operlog.fini_executed {start : ℕ} {s : System δ} {now : ℤ} {sleep join : List Job.Move}
    {o : Operlog δ} (h : System.Queued start s)
    (hfini : s.operlog.fini localtime now sleep join = some o) :
    (∀ log ∈ s.logs, log ∈ o.executed) ↔
      (s.operlog.onTimer localtime now).job.requests.length ≤ Job.wakes sleep := by
  obtain ⟨job, hjob, rfl⟩ := Option.map_eq_some_iff.mp hfini
  set j := (s.operlog.onTimer localtime now).job with hj
  have hdown : j.shutdown = false := (System.onTimer_job localtime s.operlog now).2.2.1.trans h.up
  obtain ⟨-, hperm⟩ := Job.fini_spec hdown hjob
  -- what has been executed and what is dropped make up the entries
  have hlogs : (job.replies.flatMap Sql.logs ++
      (j.requests.drop (Job.wakes sleep)).flatMap Sql.logs).Perm s.logs := by
    have hall : s.logs = j.all.flatMap Sql.logs := by
      have hflush := System.onTimer_logs localtime s.operlog s.db now
      rw [show s.logs = (⟨s.operlog, s.db, false⟩ : System δ).logs from rfl, ← hflush, System.logs,
        System.onTimer_list, List.append_nil]
    rw [hall, ← List.flatMap_append]
    exact hperm.flatMap_right _
  have hnodup : s.logs.Nodup := List.Nodup.of_map _ h.ids.nodup
  constructor
  · intro hexec
    by_contra hlt
    have hlast := List.getLast?_drop (l := j.requests) (i := Job.wakes sleep)
    rw [if_neg hlt] at hlast
    cases hreq : j.requests.getLast? with
    | none =>
      rw [List.getLast?_eq_none_iff] at hreq
      simp [hreq] at hlt
    | some sql =>
      -- the last statement of the queue is dropped, and it is an `INSERT`
      rw [hreq] at hlast
      have hsql : sql ∈ j.requests.drop (Job.wakes sleep) := List.mem_of_getLast? hlast
      have hfilled := System.onTimer_filled localtime h.filled now sql hreq
      obtain ⟨log, hlog⟩ := List.exists_mem_of_ne_nil _ hfilled
      have hdropped : log ∈ (j.requests.drop (Job.wakes sleep)).flatMap Sql.logs :=
        List.mem_flatMap.mpr ⟨sql, hsql, hlog⟩
      have hmem : log ∈ s.logs := hlogs.mem_iff.mp (List.mem_append_right _ hdropped)
      exact (List.nodup_append'.mp (hlogs.nodup_iff.mpr hnodup)).2.2 (hexec log hmem) hdropped
  · intro hle log hlog
    rw [List.drop_eq_nil_of_le hle, List.flatMap_nil, List.append_nil] at hlogs
    exact hlogs.mem_iff.mpr hlog

end Operlog

section History

variable {D : Type}

/-- `fini_history`. -/
def HistoryQueue.fini (q : HistoryQueue D) (entries : List (DictSqlKey × List (SqlRow D)))
    (sleep join : List Job.Move) : Option (HistoryQueue D) :=
  ((q.onTimer entries).job.fini sleep join).map fun job => { q.onTimer entries with job := job }

/-- The tuples of the statements `on_job` has returned from. -/
def HistoryQueue.executed (q : HistoryQueue D) : List (SqlRow D) := q.job.replies.flatten

theorem HistoryQueue.fini_executed {rows : List (SqlRow D)} {q q' : HistoryQueue D}
    {entries : List (DictSqlKey × List (SqlRow D))} {sleep join : List Job.Move}
    (h : Kept rows q) (hi : Iterates q.dictSql entries)
    (hfini : q.fini entries sleep join = some q') :
    rows.Subperm q'.executed ↔ (q.onTimer entries).job.requests.length ≤ Job.wakes sleep := by
  obtain ⟨job, hjob, rfl⟩ := Option.map_eq_some_iff.mp hfini
  have hkept := h.timer hi
  set j := (q.onTimer entries).job with hj
  obtain ⟨-, hperm⟩ := Job.fini_spec hkept.up hjob
  have hrows : (job.replies.flatten ++ (j.requests.drop (Job.wakes sleep)).flatten).Perm rows := by
    have hall : (rows : Multiset (SqlRow D)) = (j.all.flatten : List (SqlRow D)) := by
      have hempty : (q.onTimer entries).pending = 0 := rfl
      rw [hkept.rows_eq, hempty, add_zero]
      rfl
    rw [← List.flatten_append]
    exact hperm.flatten.trans (Multiset.coe_eq_coe.mp hall).symm
  have hlength := hrows.length_eq
  rw [List.length_append] at hlength
  constructor
  · intro hsub
    by_contra hlt
    have hle : rows.length ≤ job.replies.flatten.length := hsub.length_le
    have hnil : (j.requests.drop (Job.wakes sleep)).flatten = [] :=
      List.length_eq_zero_iff.mp (by omega)
    obtain ⟨sql, hsql⟩ := List.exists_mem_of_ne_nil (j.requests.drop (Job.wakes sleep))
      fun hnone => hlt (List.drop_eq_nil_iff.mp hnone)
    exact hkept.queue sql (List.mem_of_mem_drop hsql) (List.flatten_eq_nil_iff.mp hnil sql hsql)
  · intro hle
    rw [List.drop_eq_nil_of_le hle, List.flatten_nil, List.append_nil] at hrows
    exact hrows.symm.subperm

end History

section Shutdown

variable {δ D : Type} (localtime : ℤ → Tm)

/-- **When a shutdown loses nothing.** What has been appended to the operation log has been
executed when `fini_operlog` returns just when the worker takes, during the sleep, all that is in
the queue after the last flush; and so for `fini_history`, for any number of threads. -/
theorem shutdown_executes :
    (∀ {start : ℕ} {db : Db δ} {s : System δ} {now : ℤ} {sleep join : List Job.Move}
      {o : Operlog δ}, System.Steps localtime (System.boot start db) s →
        s.operlog.fini localtime now sleep join = some o →
          ((∀ log ∈ s.logs, log ∈ o.executed) ↔
            (s.operlog.onTimer localtime now).job.requests.length ≤ Job.wakes sleep)) ∧
      ∀ {historyThread : ℕ} {rows : List (SqlRow D)} {q q' : HistoryQueue D}
        {entries : List (DictSqlKey × List (SqlRow D))} {sleep join : List Job.Move},
          HistoryQueue.Run historyThread rows q → Iterates q.dictSql entries →
            q.fini entries sleep join = some q' →
              (rows.Subperm q'.executed ↔
                (q.onTimer entries).job.requests.length ≤ Job.wakes sleep) := by
  constructor
  · intro start db s now sleep join o hs hfini
    exact Operlog.fini_executed localtime ((System.queued_boot start db).steps localtime hs) hfini
  · intro historyThread rows q q' entries sleep join hrun hi hfini
    exact HistoryQueue.fini_executed hrun.kept hi hfini

end Shutdown

/-! ## A slow statement -/

section Slow

/-- The table is still being created when the process is told to end. -/
def slowOperlog : Operlog String :=
  ⟨[⟨2, 0, "b"⟩], 2, operlogTable ⟨117, 3, 6⟩,
    ⟨[.insert (operlogTable ⟨117, 3, 6⟩) [.tuple ⟨1, 0, "a"⟩]], false,
      [.busy (.createTable (operlogTable ⟨117, 3, 6⟩))], []⟩⟩

theorem slowOperlog_steps :
    System.Steps (fun _ => ⟨117, 3, 6⟩) (System.boot 0 ∅) ⟨slowOperlog, ∅, false⟩ :=
  (((Relation.ReflTransGen.refl.tail (.append 0 "a")).tail (.timer 0)).tail (.wake rfl)).tail
    (.append 0 "b")

/-- It is created after the sleep, and the worker finds the flag. -/
def slowFini : Operlog String :=
  { slowOperlog.onTimer (fun _ => ⟨117, 3, 6⟩) 0 with
    job :=
      ⟨[.insert (operlogTable ⟨117, 3, 6⟩) [.tuple ⟨1, 0, "a"⟩],
        .insert (operlogTable ⟨117, 3, 6⟩) [.tuple ⟨2, 0, "b"⟩]], true, [.gone],
        [.createTable (operlogTable ⟨117, 3, 6⟩)]⟩ }

theorem slowOperlog_fini :
    slowOperlog.fini (fun _ => ⟨117, 3, 6⟩) 0 [] [.reply 0, .wake 0] = some slowFini := rfl

/-- **A shutdown loses accepted requests** when a statement takes longer than the sleep. -/
theorem shutdown_loses :
    ¬ ∀ (start : ℕ) (db : Db String) (s : System String) (now : ℤ) (sleep join : List Job.Move)
      (o : Operlog String), System.Steps (fun _ => ⟨117, 3, 6⟩) (System.boot start db) s →
        s.operlog.fini (fun _ => ⟨117, 3, 6⟩) now sleep join = some o →
          ∀ log ∈ s.logs, log ∈ o.executed := fun hall => by
  have hlog : (⟨1, 0, "a"⟩ : OperLog String) ∈
      (⟨slowOperlog, ∅, false⟩ : System String).logs := by decide
  exact absurd (hall 0 ∅ _ 0 [] _ _ slowOperlog_steps slowOperlog_fini _ hlog) (by decide)

def depositQueue : HistoryQueue ℚ :=
  (HistoryQueue.init 1).append (.balance 1 "BTC" "deposit" 1 1 (.update .null))

def depositEntries : List (DictSqlKey × List (SqlRow ℚ)) :=
  [(⟨.userBalance, 1⟩, [.userBalance 1 "BTC" "deposit" 1 1 (.update .null)])]

def depositFini : HistoryQueue ℚ := ⟨∅, ⟨[], true, [.gone], depositEntries.map Prod.snd⟩⟩

theorem depositQueue_fini :
    depositQueue.fini depositEntries [.wake 0] [.reply 0, .wake 0] = some depositFini := rfl

/-- The operation log loses its two entries; the history loses nothing, its only statement is
taken during the sleep. -/
theorem shutdown_executes_slow :
    ((∀ log ∈ (⟨slowOperlog, ∅, false⟩ : System String).logs, log ∈ slowFini.executed) ↔
      (slowOperlog.onTimer (fun _ => ⟨117, 3, 6⟩) 0).job.requests.length ≤ Job.wakes []) ∧
      ([SqlRow.userBalance 1 "BTC" "deposit" (1 : ℚ) 1 (.update .null)].Subperm
          depositFini.executed ↔
        (depositQueue.onTimer depositEntries).job.requests.length ≤ Job.wakes [.wake 0]) :=
  ⟨(shutdown_executes (δ := String) (D := ℚ) (fun _ => ⟨117, 3, 6⟩)).1 slowOperlog_steps
      slowOperlog_fini,
    (shutdown_executes (δ := String) (D := ℚ) (fun _ => ⟨117, 3, 6⟩)).2
      (.append (.balance 1 "BTC" "deposit" 1 1 (.update .null)) .init) rfl depositQueue_fini⟩

end Slow

end ViabtcExchange
