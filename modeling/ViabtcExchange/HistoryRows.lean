import ViabtcExchange.Job
import ViabtcExchange.Slice

/-!
# The rows of the history (`me_history.c`)

The rows of one kind and one hash are collected in one statement of `dict_sql`; a timer hands the
statements to the job, whose threads execute them. The dictionary is flushed in the order of its
iterator, any order of its entries.

**Theorem (`HistoryQueue.Run.kept`).** The rows appended are the rows of the statements the job
has been given, and those in the dictionary: none is lost and none is doubled.
-/

namespace ViabtcExchange

/-- `HISTORY_USER_BALANCE` … `HISTORY_ORDER_DEAL`. -/
inductive HistoryType
  | userBalance
  | userOrder
  | userDeal
  | orderDetail
  | orderDeal
deriving DecidableEq, Repr

structure DictSqlKey where
  type : HistoryType
  hash : ℕ
deriving DecidableEq, Repr

/-- A tuple behind `VALUES`, without its times. -/
inductive SqlRow (D : Type)
  | userBalance (userId : ℕ) (asset business : String) (change balance : D) (detail : Detail D)
  | userOrder (order : Order D)
  | userDeal (userId : ℕ) (market : String) (dealId orderId dealOrderId : ℕ) (side : OrderSide)
      (role : MarketRole) (price amount deal fee dealFee : D)
  | orderDetail (order : Order D)
  | orderDeal (userId dealId orderId dealOrderId : ℕ) (role : MarketRole)
      (price amount deal fee dealFee : D)

section Rows

variable {D : Type}

/-- `HISTORY_HASH_NUM`. -/
def historyHashNum : ℕ := 100

def appendOrderDeal (dealId : ℕ) (own other : Order D) (role : MarketRole)
    (price amount deal fee dealFee : D) : DictSqlKey × SqlRow D :=
  (⟨.orderDeal, own.id % historyHashNum⟩,
    .orderDeal own.userId dealId own.id other.id role price amount deal fee dealFee)

def appendUserDeal (market : String) (dealId : ℕ) (own other : Order D) (role : MarketRole)
    (price amount deal fee dealFee : D) : DictSqlKey × SqlRow D :=
  (⟨.userDeal, own.userId % historyHashNum⟩,
    .userDeal own.userId market dealId own.id other.id own.side role price amount deal fee dealFee)

/-- The tuples an `append_*_history` function makes, each under its key. -/
def sqlRows : HistoryRow D → List (DictSqlKey × SqlRow D)
  | .order order =>
    [(⟨.userOrder, order.userId % historyHashNum⟩, .userOrder order),
      (⟨.orderDetail, order.id % historyHashNum⟩, .orderDetail order)]
  | .deal dealId ask askRole bid bidRole t =>
    [appendOrderDeal dealId ask bid askRole t.price t.amount t.deal t.askFee t.bidFee,
      appendOrderDeal dealId bid ask bidRole t.price t.amount t.deal t.bidFee t.askFee,
      appendUserDeal ask.market dealId ask bid askRole t.price t.amount t.deal t.askFee t.bidFee,
      appendUserDeal ask.market dealId bid ask bidRole t.price t.amount t.deal t.bidFee t.askFee]
  | .balance userId asset business change balance detail =>
    [(⟨.userBalance, userId % historyHashNum⟩,
      .userBalance userId asset business change balance detail)]

end Rows

/-- The variables of `me_history.c`. A statement is the list of its tuples. -/
structure HistoryQueue (D : Type) where
  dictSql : Dict DictSqlKey (List (SqlRow D))
  job : Job (List (SqlRow D))

namespace HistoryQueue

variable {D : Type}

def init (historyThread : ℕ) : HistoryQueue D := ⟨∅, .create historyThread⟩

/-- `get_sql`, the tuple, `set_sql`. -/
def appendSql (q : HistoryQueue D) (key : DictSqlKey) (row : SqlRow D) : HistoryQueue D :=
  { q with dictSql := q.dictSql.insert key ((q.dictSql.find key).getD [] ++ [row]) }

def append (q : HistoryQueue D) (row : HistoryRow D) : HistoryQueue D :=
  (sqlRows row).foldl (fun q kr => q.appendSql kr.1 kr.2) q

def onTimer (q : HistoryQueue D) (entries : List (DictSqlKey × List (SqlRow D))) :
    HistoryQueue D :=
  ⟨∅, entries.foldl (fun job entry => job.add entry.2) q.job⟩

/-- The queue after the start of `historyThread` threads, with the tuples appended to it. -/
inductive Run (historyThread : ℕ) : List (SqlRow D) → HistoryQueue D → Prop
  | init : Run historyThread [] (init historyThread)
  | append {rows : List (SqlRow D)} {q : HistoryQueue D} (row : HistoryRow D) :
    Run historyThread rows q → Run historyThread (rows ++ (sqlRows row).map Prod.snd) (q.append row)
  | timer {rows : List (SqlRow D)} {q : HistoryQueue D}
      {entries : List (DictSqlKey × List (SqlRow D))} :
    Run historyThread rows q → Iterates q.dictSql entries → Run historyThread rows (q.onTimer entries)
  | move {rows : List (SqlRow D)} {q : HistoryQueue D} {m : Job.Move}
      {job : Job (List (SqlRow D))} :
    Run historyThread rows q → q.job.move m = some job →
      Run historyThread rows { q with job := job }

/-! ## No row is lost -/

/-- The tuples in the dictionary. -/
def pending (q : HistoryQueue D) : Multiset (SqlRow D) :=
  q.dictSql.entries.bind fun entry => (entry.2 : Multiset (SqlRow D))

/-- The tuples of the statements the job has been given. -/
def handed (q : HistoryQueue D) : List (SqlRow D) := q.job.all.flatten

theorem pending_appendSql (q : HistoryQueue D) (key : DictSqlKey) (row : SqlRow D) :
    (q.appendSql key row).pending = q.pending + {row} := by
  refine Dict.pool_insert q.dictSql (f := id) ?_
  rw [Option.map_id]
  rfl

theorem pending_append (q : HistoryQueue D) (row : HistoryRow D) :
    (q.append row).pending = q.pending + ((sqlRows row).map Prod.snd : List (SqlRow D)) ∧
      (q.append row).job = q.job := by
  unfold append
  induction sqlRows row generalizing q with
  | nil => simp
  | cons kr rows ih =>
    obtain ⟨hp, hj⟩ := ih (q.appendSql kr.1 kr.2)
    rw [List.foldl_cons]
    refine ⟨?_, hj⟩
    rw [hp, pending_appendSql, add_assoc, List.map_cons, ← Multiset.cons_coe,
      Multiset.singleton_add]

/-- What a flush adds to a job. -/
theorem addAll_spec {ρ κ : Type} (entries : List (κ × ρ)) (j : Job ρ) :
    entries.foldl (fun j entry => j.add entry.2) j =
      { j with requests := j.requests ++ entries.map Prod.snd } := by
  induction entries generalizing j with
  | nil => simp
  | cons entry entries ih =>
    rw [List.foldl_cons, ih]
    simp [Job.add]

theorem iterates_pending {q : HistoryQueue D} {entries : List (DictSqlKey × List (SqlRow D))}
    (h : Iterates q.dictSql entries) :
    q.pending = ((entries.map Prod.snd).flatten : List (SqlRow D)) := by
  unfold pending
  rw [h, Multiset.coe_bind]
  congr 1
  rw [List.flatMap_map, List.flatMap_def]

theorem handed_onTimer (q : HistoryQueue D) (entries : List (DictSqlKey × List (SqlRow D))) :
    (q.onTimer entries).handed = q.handed ++ (entries.map Prod.snd).flatten := by
  unfold handed onTimer
  rw [addAll_spec]
  simp [Job.all]

/-- What holds of the queue after any run: no row is lost, no statement is empty. -/
structure Kept (rows : List (SqlRow D)) (q : HistoryQueue D) : Prop where
  up : q.job.shutdown = false
  rows_eq : (rows : Multiset (SqlRow D)) = q.handed + q.pending
  dict : ∀ key val, q.dictSql.find key = some val → val ≠ []
  queue : ∀ sql ∈ q.job.requests, sql ≠ []

theorem kept_init (historyThread : ℕ) : Kept [] (init historyThread : HistoryQueue D) where
  up := rfl
  rows_eq := by
    have hempty : (init historyThread : HistoryQueue D).pending = 0 := rfl
    rw [hempty]
    simp [handed, init]
  dict := fun key val h => by simp [init] at h
  queue := fun sql h => by simp [init, Job.create] at h

section Steps

variable {rows : List (SqlRow D)} {q : HistoryQueue D}

theorem filled_append (hdict : ∀ key val, q.dictSql.find key = some val → val ≠ [])
    (row : HistoryRow D) : ∀ key val, (q.append row).dictSql.find key = some val → val ≠ [] := by
  unfold append
  induction sqlRows row generalizing q with
  | nil => exact hdict
  | cons kr krs ih =>
    refine ih fun key val hfind => ?_
    simp only [appendSql, Dict.find_insert] at hfind
    split_ifs at hfind
    · cases hfind
      simp
    · exact hdict key val hfind

theorem Kept.append (h : Kept rows q) (row : HistoryRow D) :
    Kept (rows ++ (sqlRows row).map Prod.snd) (q.append row) := by
  obtain ⟨hp, hj⟩ := pending_append q row
  refine ⟨hj ▸ h.up, ?_, filled_append h.dict row, hj ▸ h.queue⟩
  rw [handed, hj, hp, ← Multiset.coe_add, h.rows_eq, add_assoc]
  rfl

theorem Kept.timer (h : Kept rows q) {entries : List (DictSqlKey × List (SqlRow D))}
    (hi : Iterates q.dictSql entries) : Kept rows (q.onTimer entries) := by
  have hval : ∀ entry ∈ entries, entry.2 ≠ [] := fun entry hentry => by
    refine h.dict entry.1 entry.2 (Finmap.mem_lookup_iff.mpr ?_)
    rw [hi]
    exact Multiset.mem_coe.mpr (List.mem_map.mpr ⟨entry, hentry, rfl⟩)
  refine ⟨?_, ?_, fun key val hfind => by simp [onTimer] at hfind, fun sql hsql => ?_⟩
  · rw [onTimer, addAll_spec]
    exact h.up
  · have hempty : (q.onTimer entries).pending = 0 := rfl
    rw [handed_onTimer, hempty, add_zero, h.rows_eq, iterates_pending hi, Multiset.coe_add]
  · rw [onTimer, addAll_spec] at hsql
    rcases List.mem_append.mp hsql with hsql | hsql
    · exact h.queue sql hsql
    · obtain ⟨entry, hentry, rfl⟩ := List.mem_map.mp hsql
      exact hval entry hentry

theorem Kept.move (h : Kept rows q) {m : Job.Move} {job : Job (List (SqlRow D))}
    (hm : q.job.move m = some job) : Kept rows { q with job := job } := by
  refine ⟨(Job.threads_move hm).2.trans h.up, ?_, h.dict, fun sql hsql => h.queue sql ?_⟩
  · rw [h.rows_eq]
    congr 1
    exact Multiset.coe_eq_coe.mpr (Job.all_move hm).symm.flatten
  · cases m with
    | wake i =>
      obtain ⟨-, ⟨-, rfl⟩ | ⟨request, requests, -, hreq, rfl⟩⟩ := Job.move_wake hm
      · exact hsql
      · rw [hreq]
        exact List.mem_cons_of_mem _ hsql
    | reply i =>
      obtain ⟨_, -, rfl⟩ := Job.move_reply hm
      exact hsql

end Steps

/-- **No row is lost or doubled on its way to the threads.** -/
theorem Run.kept {historyThread : ℕ} {rows : List (SqlRow D)} {q : HistoryQueue D}
    (h : Run historyThread rows q) : Kept rows q := by
  induction h with
  | init => exact kept_init historyThread
  | append row _ ih => exact ih.append row
  | timer _ hi ih => exact ih.timer hi
  | move _ hm ih => exact ih.move hm

end HistoryQueue

end ViabtcExchange
