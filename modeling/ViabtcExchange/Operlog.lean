import ViabtcExchange.Lib.Dict
import ViabtcExchange.Lib.Table
import ViabtcExchange.Job

/-!
# The operation log (`me_operlog.c`)

An accepted request is appended to a list in memory under the next operation id. A timer turns the
list into one `INSERT` into the table of the day, preceded by a `CREATE TABLE` when the day is a
new one, and queues it for the only worker. The worker repeats a statement until MySQL answers
that it is done, or with error 1062, that a key is taken.

**The database.** A statement is carried out whole or not at all. An answer can be lost: `error`
may be answered to a statement that was carried out.

**The system** (`System.Step`). The main thread, the worker and MySQL, interleaved in any way, up
to a crash at any point. What the worker had sent before the crash may still be carried out.

**Theorem (`System.gapless_prefix`).** The ids in the tables are the ids from the start on up to
some `n`, each of them once, and `n` never decreases.
-/

namespace ViabtcExchange

/-- `struct operlog`. -/
structure OperLog (δ : Type) where
  id : ℕ
  createTime : ℚ
  detail : δ
deriving DecidableEq, Repr

/-- Of `struct tm`, what the names of the tables are made of. -/
structure Tm where
  tmYear : ℕ
  tmMon : ℕ
  tmMday : ℕ
deriving DecidableEq, Repr

/-- `%0*d`. -/
def padded (width n : ℕ) : String := String.ofList (List.leftpad width '0' (toString n).toList)

def operlogTable (t : Tm) : String :=
  "operlog_" ++ padded 4 (1900 + t.tmYear) ++ padded 2 (1 + t.tmMon) ++ padded 2 t.tmMday

/-- The text behind `VALUES`: tuples, and commas. -/
inductive Piece (δ : Type)
  | tuple (log : OperLog δ)
  | comma
deriving DecidableEq, Repr

inductive Sql (δ : Type)
  | createTable (table : String)
  | insert (table : String) (values : List (Piece δ))
deriving DecidableEq, Repr

/-- The variables of `me_operlog.c`, and `table_last` of `flush_log`. -/
structure Operlog (δ : Type) where
  list : List (OperLog δ)
  operlogIdStart : ℕ
  tableLast : String
  job : Job (Sql δ)

section Operlog

variable {δ : Type} (localtime : ℤ → Tm)

def initOperlog (operlogIdStart : ℕ) : Operlog δ := ⟨[], operlogIdStart, "", .create 1⟩

namespace Operlog

def append (o : Operlog δ) (createTime : ℚ) (detail : δ) : Operlog δ :=
  { o with
    operlogIdStart := o.operlogIdStart + 1
    list := o.list ++ [⟨o.operlogIdStart + 1, createTime, detail⟩] }

/-- The loop of `flush_log`: a comma is written while the list still has more than the entry
that is about to be deleted. -/
def flushValues : List (OperLog δ) → List (Piece δ)
  | [] => []
  | log :: list =>
    .tuple log ::
      (if (log :: list).length > 1 then .comma :: flushValues list else flushValues list)

def flushLog (o : Operlog δ) (now : ℤ) : Operlog δ :=
  let table := operlogTable (localtime now)
  let o :=
    if o.tableLast ≠ table then
      { o with job := o.job.add (.createTable table), tableLast := table }
    else o
  { o with list := [], job := o.job.add (.insert table (flushValues o.list)) }

def onTimer (o : Operlog δ) (now : ℤ) : Operlog δ :=
  if o.list.length > 0 then o.flushLog localtime now else o

end Operlog

end Operlog

/-! ## The database -/

/-- The operlog tables: under the id of an operation its time and detail. -/
abbrev Db (δ : Type) := Dict String (Table (ℚ × δ))

section Db

variable {δ : Type}

/-- How MySQL reads the text behind `VALUES`. -/
def readValues : List (Piece δ) → Option (List (OperLog δ))
  | [.tuple log] => some [log]
  | .tuple log :: .comma :: values => (readValues values).map (log :: ·)
  | _ => none

def OperLog.row (log : OperLog δ) : ℕ × ℚ × δ := (log.id, log.createTime, log.detail)

namespace Sql

def table : Sql δ → String
  | .createTable table => table
  | .insert table _ => table

/-- The entries a statement is to store. -/
def logs : Sql δ → List (OperLog δ)
  | .createTable _ => []
  | .insert _ values => (readValues values).getD []

end Sql

theorem readValues_flushValues : ∀ {list : List (OperLog δ)}, list ≠ [] →
    readValues (Operlog.flushValues list) = some list
  | [], h => absurd rfl h
  | [log], _ => rfl
  | log :: log' :: list, _ => by
    have ih := @readValues_flushValues (log' :: list) (by simp)
    rw [Operlog.flushValues, if_pos (by simp), readValues, ih]
    rfl

theorem readValues_ne_nil : ∀ {values : List (Piece δ)} {logs : List (OperLog δ)},
    readValues values = some logs → logs ≠ []
  | [], _, h => by cases h
  | [.tuple log], logs, h => by
    cases h
    simp
  | [.comma], _, h => by cases h
  | .tuple _ :: .tuple _ :: _, _, h => by cases h
  | .comma :: _ :: _, _, h => by cases h
  | .tuple log :: .comma :: values, logs, h => by
    obtain ⟨logs', -, rfl⟩ := Option.map_eq_some_iff.mp h
    simp

namespace Db

/-- What a statement does when it is carried out; `none` where it is refused. -/
def execute (db : Db δ) : Sql δ → Option (Db δ)
  | .createTable table => some (if table ∈ db then db else db.insert table .empty)
  | .insert table values =>
    match db.find table, readValues values with
    | some t, some logs => (t.insertAll (logs.map OperLog.row)).map (db.insert table)
    | _, _ => none

/-- A key of the statement is taken. -/
def Duplicate (db : Db δ) : Sql δ → Prop
  | .createTable _ => False
  | .insert table values =>
    ∃ t logs, db.find table = some t ∧ readValues values = some logs ∧
      t.insertAll (logs.map OperLog.row) = none

/-- `mysql_real_query` returns zero, an error other than 1062, or error 1062. -/
inductive Answer
  | ok
  | error
  | duplicate
deriving DecidableEq, Repr

/-- What MySQL may do with a statement it is sent. -/
inductive Query (sql : Sql δ) : Db δ → Answer → Db δ → Prop
  | ok {db db' : Db δ} : db.execute sql = some db' → Query sql db .ok db'
  | lost {db db' : Db δ} : db.execute sql = some db' → Query sql db .error db'
  | duplicate {db : Db δ} : db.Duplicate sql → Query sql db .duplicate db
  | error {db : Db δ} : Query sql db .error db

def Stored (db : Db δ) (table : String) (row : ℕ × ℚ × δ) : Prop :=
  ∃ t, db.find table = some t ∧ row ∈ t.rows

/-- The ids in the tables are `first + 1 … n`, and each of them is in one table, once. -/
structure Gapless (db : Db δ) (first n : ℕ) : Prop where
  ids : ∀ id, (∃ table row, db.Stored table row ∧ row.1 = id) ↔ first < id ∧ id ≤ n
  once : ∀ {table table' row row'}, db.Stored table row → db.Stored table' row' → row.1 = row'.1 →
    table = table' ∧ row = row'

/-! ## What a statement does -/

theorem row_unique {t : Table (ℚ × δ)} {row row' : ℕ × ℚ × δ} (h : row ∈ t.rows)
    (h' : row' ∈ t.rows) (hid : row.1 = row'.1) : row = row' :=
  have hnodup : (t.rows.map Prod.fst).Nodup :=
    List.pairwise_map.mpr (t.sorted.imp fun hlt => hlt.ne)
  List.inj_on_of_nodup_map hnodup h h' hid

/-- The rows after a statement that is carried out. -/
theorem stored_execute {db db' : Db δ} {sql : Sql δ} (h : db.execute sql = some db')
    {table : String} {row : ℕ × ℚ × δ} :
    db'.Stored table row ↔
      db.Stored table row ∨ table = sql.table ∧ ∃ log ∈ sql.logs, log.row = row := by
  cases sql with
  | createTable name =>
    simp only [execute, Option.some.injEq] at h
    subst h
    simp only [Sql.logs, List.not_mem_nil, false_and, exists_false, and_false, or_false]
    split_ifs with hmem
    · rfl
    · unfold Stored
      rw [Dict.find_insert]
      split_ifs with hname
      · subst hname
        simp [Dict.find_eq_none.mpr hmem, Table.empty]
      · rfl
  | insert name values =>
    simp only [execute] at h
    split at h
    · rename_i t logs hfind hread
      obtain ⟨t', hinsert, rfl⟩ := Option.map_eq_some_iff.mp h
      simp only [Sql.logs, Sql.table, hread, Option.getD_some]
      unfold Stored
      rw [Dict.find_insert]
      split_ifs with hname
      · subst hname
        simp only [Option.some.injEq, exists_eq_left', true_and, hfind,
          Table.mem_insertAll hinsert, List.mem_map]
        exact or_comm
      · simp [hname]
    · cases h

/-- The ids of consecutive entries. -/
def Consecutive (n : ℕ) (logs : List (OperLog δ)) : Prop :=
  logs.map OperLog.id = List.range' (n + 1) logs.length

theorem Consecutive.mem {n id : ℕ} {logs : List (OperLog δ)} (h : Consecutive n logs) :
    (∃ log ∈ logs, log.id = id) ↔ n < id ∧ id ≤ n + logs.length := by
  rw [← List.mem_map, h, List.mem_range'_1]
  omega

theorem Consecutive.append {n : ℕ} {logs logs' : List (OperLog δ)} :
    Consecutive n (logs ++ logs') ↔ Consecutive n logs ∧ Consecutive (n + logs.length) logs' := by
  unfold Consecutive
  rw [List.map_append, List.length_append, ← List.range'_append_1, Nat.add_right_comm]
  constructor
  · exact fun h => List.append_inj h (by simp)
  · rintro ⟨h, h'⟩
    rw [h, h']

theorem Consecutive.nodup {n : ℕ} {logs : List (OperLog δ)} (h : Consecutive n logs) :
    (logs.map OperLog.id).Nodup :=
  h ▸ List.nodup_range'

/-- A statement that stores the next ids leaves no gap. -/
theorem Gapless.execute {db db' : Db δ} {first n : ℕ} {sql : Sql δ} (hg : db.Gapless first n)
    (hle : first ≤ n) (hids : Consecutive n sql.logs) (h : db.execute sql = some db') :
    db'.Gapless first (n + sql.logs.length) where
  ids := fun id => by
    have hold := hg.ids id
    have hnew := @Consecutive.mem _ _ id _ hids
    constructor
    · rintro ⟨table, row, hst, rfl⟩
      rcases (stored_execute h).mp hst with hst | ⟨-, log, hlog, rfl⟩
      · have := hold.mp ⟨table, row, hst, rfl⟩
        omega
      · have := hnew.mp ⟨log, hlog, rfl⟩
        omega
    · intro hid
      by_cases hidn : id ≤ n
      · obtain ⟨table, row, hst, rfl⟩ := hold.mpr ⟨hid.1, hidn⟩
        exact ⟨table, row, (stored_execute h).mpr (Or.inl hst), rfl⟩
      · obtain ⟨log, hlog, rfl⟩ := hnew.mpr ⟨by omega, hid.2⟩
        exact ⟨sql.table, log.row, (stored_execute h).mpr (Or.inr ⟨rfl, log, hlog, rfl⟩), rfl⟩
  once := fun {table table' row row'} hst hst' hid => by
    -- an old row and a new one have different ids, and so have two new ones
    have hcross : ∀ {table row log}, db.Stored table row → log ∈ sql.logs → row.1 ≠ log.id := by
      intro table row log hst hlog hid
      have hold := (hg.ids row.1).mp ⟨table, row, hst, rfl⟩
      have hnew := hids.mem.mp ⟨log, hlog, rfl⟩
      omega
    rcases (stored_execute h).mp hst with hst | ⟨rfl, log, hlog, rfl⟩ <;>
      rcases (stored_execute h).mp hst' with hst' | ⟨rfl, log', hlog', rfl⟩
    · exact hg.once hst hst' hid
    · exact absurd hid (hcross hst hlog')
    · exact absurd hid.symm (hcross hst' hlog)
    · exact ⟨rfl, congrArg OperLog.row (List.inj_on_of_nodup_map hids.nodup hlog hlog' hid)⟩

/-- A statement that stores the next ids meets no taken key. -/
theorem Gapless.not_duplicate {db : Db δ} {first n : ℕ} {sql : Sql δ} (hg : db.Gapless first n)
    (hids : Consecutive n sql.logs) : ¬ db.Duplicate sql := by
  cases sql with
  | createTable name => exact id
  | insert name values =>
    rintro ⟨t, logs, hfind, hread, hnone⟩
    rw [Sql.logs, hread, Option.getD_some] at hids
    obtain ⟨t', ht'⟩ := @Table.exists_insertAll _ (logs.map OperLog.row) t
      (fun r hr r' hr' heq => by
        obtain ⟨log, hlog, rfl⟩ := List.mem_map.mp hr
        have hold := (hg.ids r'.1).mp ⟨name, r', ⟨t, hfind, hr'⟩, rfl⟩
        have hnew := hids.mem.mp ⟨log, hlog, heq.symm⟩
        omega)
      (List.pairwise_map.mpr (List.pairwise_map.mp hids.nodup))
    rw [ht'] at hnone
    cases hnone

/-- Afterwards the whole statement is stored, and nothing else is new. -/
structure Carried (sql : Sql δ) (db db' : Db δ) (first n : ℕ) : Prop where
  gapless : db'.Gapless first n
  stored : ∀ log ∈ sql.logs, db'.Stored sql.table log.row
  rows : ∀ table row, db'.Stored table row →
    db.Stored table row ∨ ∃ log ∈ sql.logs, log.row = row

theorem Gapless.carried {db db' : Db δ} {first n : ℕ} {sql : Sql δ} (hg : db.Gapless first n)
    (hle : first ≤ n) (hids : Consecutive n sql.logs) (h : db.execute sql = some db') :
    Carried sql db db' first (n + sql.logs.length) where
  gapless := hg.execute hle hids h
  stored := fun log hlog => (stored_execute h).mpr (Or.inr ⟨rfl, log, hlog, rfl⟩)
  rows := fun _ _ hst => ((stored_execute h).mp hst).imp_right fun ⟨_, log, hlog, hrow⟩ =>
    ⟨log, hlog, hrow⟩

/-- A statement is not carried out a second time. -/
theorem execute_again {db : Db δ} {sql : Sql δ} (hne : sql.logs ≠ [])
    (hst : ∀ log ∈ sql.logs, db.Stored sql.table log.row) : db.execute sql = none := by
  cases sql with
  | createTable name => exact absurd rfl hne
  | insert name values =>
    cases hread : readValues values with
    | none => simp [Sql.logs, hread] at hne
    | some logs =>
      cases logs with
      | nil => simp [Sql.logs, hread] at hne
      | cons log logs =>
        obtain ⟨t, hfind, hrow⟩ := hst log (by simp [Sql.logs, hread])
        have hfind : db.find name = some t := hfind
        simp [execute, hfind, hread, Table.insertAll_taken hrow]

end Db

end Db

/-! ## The system -/

/-- The process, the database, and whether the process is still there. -/
structure System (δ : Type) where
  operlog : Operlog δ
  db : Db δ
  crashed : Bool

namespace System

variable {δ : Type} (localtime : ℤ → Tm)

inductive Step : System δ → System δ → Prop
  | append {o : Operlog δ} {db : Db δ} (createTime : ℚ) (detail : δ) :
    Step ⟨o, db, false⟩ ⟨o.append createTime detail, db, false⟩
  | timer {o : Operlog δ} {db : Db δ} (now : ℤ) :
    Step ⟨o, db, false⟩ ⟨o.onTimer localtime now, db, false⟩
  | wake {o : Operlog δ} {db : Db δ} {job : Job (Sql δ)} :
    o.job.move (.wake 0) = some job → Step ⟨o, db, false⟩ ⟨{ o with job := job }, db, false⟩
  -- the loop of `on_job` goes round again
  | retry {o : Operlog δ} {db db' : Db δ} {sql : Sql δ} :
    o.job.threads = [.busy sql] → Db.Query sql db .error db' →
      Step ⟨o, db, false⟩ ⟨o, db', false⟩
  | done {o : Operlog δ} {db db' : Db δ} {sql : Sql δ} {answer : Db.Answer} {job : Job (Sql δ)} :
    o.job.threads = [.busy sql] → Db.Query sql db answer db' → answer ≠ .error →
      o.job.move (.reply 0) = some job → Step ⟨o, db, false⟩ ⟨{ o with job := job }, db', false⟩
  | crash {o : Operlog δ} {db : Db δ} : Step ⟨o, db, false⟩ ⟨o, db, true⟩
  | late {o : Operlog δ} {db db' : Db δ} {sql : Sql δ} {answer : Db.Answer} :
    o.job.threads = [.busy sql] → Db.Query sql db answer db' →
      Step ⟨o, db, true⟩ ⟨o, db', true⟩

/-- Any number of steps. -/
abbrev Steps : System δ → System δ → Prop := Relation.ReflTransGen (Step localtime)

def boot (operlogIdStart : ℕ) (db : Db δ) : System δ := ⟨initOperlog operlogIdStart, db, false⟩

/-! ## What is kept -/

/-- Every entry appended since the start: in a statement, or still in the list. -/
def logs (s : System δ) : List (OperLog δ) :=
  s.operlog.job.all.flatMap Sql.logs ++ s.operlog.list

/-- The entries of the statements that have been answered. -/
def answered (s : System δ) : List (OperLog δ) := s.operlog.job.replies.flatMap Sql.logs

/-- After a start at `start` the entries have the next ids in order, and the queue ends with an
`INSERT`. -/
structure Queued (start : ℕ) (s : System δ) : Prop where
  worker : s.operlog.job.threads.length = 1
  up : s.operlog.job.shutdown = false
  ids : Db.Consecutive start s.logs
  count : s.operlog.operlogIdStart = start + s.logs.length
  filled : ∀ sql ∈ s.operlog.job.requests.getLast?, sql.logs ≠ []

/-- The ids `first + 1 … n` are stored: those of the statements that have been answered, and
perhaps those of the one the worker is at. -/
structure InOrder (first start n : ℕ) (s : System δ) : Prop extends Queued start s where
  begins : first ≤ start
  gapless : s.db.Gapless first n
  stored : n = start + s.answered.length ∨
    ∃ sql, s.operlog.job.threads = [.busy sql] ∧ n = start + s.answered.length + sql.logs.length ∧
      ∀ log ∈ sql.logs, s.db.Stored sql.table log.row
  rows : ∀ table row, s.db.Stored table row → start < row.1 → ∃ log ∈ s.logs, log.row = row

section Steps

variable {first start n : ℕ} {s s' : System δ}

theorem queued_boot (start : ℕ) (db : Db δ) : Queued start (boot start db) where
  worker := rfl
  up := rfl
  ids := by simp [Db.Consecutive, logs, boot, initOperlog]
  count := by simp [logs, boot, initOperlog]
  filled := by simp [boot, initOperlog, Job.create]

theorem inOrder_boot {db : Db δ} (hle : first ≤ start) (hdb : db.Gapless first start) :
    InOrder first start start (boot start db) where
  toQueued := queued_boot start db
  begins := hle
  gapless := hdb
  stored := Or.inl (by simp [answered, boot, initOperlog, Job.create])
  rows := fun table row hst hlt => by
    have := ((hdb.ids row.1).mp ⟨table, row, hst, rfl⟩).2
    omega

theorem append_logs (o : Operlog δ) (db : Db δ) (createTime : ℚ) (detail : δ) :
    (⟨o.append createTime detail, db, false⟩ : System δ).logs =
      (⟨o, db, false⟩ : System δ).logs ++ [⟨o.operlogIdStart + 1, createTime, detail⟩] := by
  simp [logs, Operlog.append]

/-- A flush moves the list into a statement. -/
theorem onTimer_logs (o : Operlog δ) (db : Db δ) (now : ℤ) :
    (⟨o.onTimer localtime now, db, false⟩ : System δ).logs = (⟨o, db, false⟩ : System δ).logs := by
  unfold Operlog.onTimer
  split_ifs with hlen
  · have hread := readValues_flushValues (List.length_pos_iff.mp hlen)
    unfold Operlog.flushLog
    by_cases htable : o.tableLast ≠ operlogTable (localtime now)
    · simp [logs, htable, Sql.logs, hread]
    · simp [logs, htable, Sql.logs, hread]
  · rfl

theorem onTimer_list (o : Operlog δ) (now : ℤ) : (o.onTimer localtime now).list = [] := by
  unfold Operlog.onTimer
  split_ifs with hlen
  · rfl
  · exact List.length_eq_zero_iff.mp (Nat.eq_zero_of_not_pos hlen)

theorem onTimer_job (o : Operlog δ) (now : ℤ) :
    (o.onTimer localtime now).job.threads = o.job.threads ∧
      (o.onTimer localtime now).job.replies = o.job.replies ∧
        (o.onTimer localtime now).job.shutdown = o.job.shutdown ∧
          (o.onTimer localtime now).operlogIdStart = o.operlogIdStart := by
  unfold Operlog.onTimer
  split_ifs with hlen
  · unfold Operlog.flushLog
    by_cases htable : o.tableLast ≠ operlogTable (localtime now)
    · simp [htable, Job.add]
    · simp [htable, Job.add]
  · exact ⟨rfl, rfl, rfl, rfl⟩

/-- What a flush queues last is an `INSERT`. -/
theorem onTimer_filled {o : Operlog δ} (h : ∀ sql ∈ o.job.requests.getLast?, sql.logs ≠ [])
    (now : ℤ) : ∀ sql ∈ (o.onTimer localtime now).job.requests.getLast?, sql.logs ≠ [] := by
  unfold Operlog.onTimer
  split_ifs with hlen
  · have hread := readValues_flushValues (List.length_pos_iff.mp hlen)
    intro sql hsql
    obtain rfl : Sql.insert _ (Operlog.flushValues o.list) = sql := by
      unfold Operlog.flushLog at hsql
      by_cases htable : o.tableLast ≠ operlogTable (localtime now)
      · simpa [htable, Job.add] using hsql
      · simpa [htable, Job.add] using hsql
    rw [Sql.logs, hread]
    exact List.length_pos_iff.mp hlen
  · exact h

theorem mem_logs_of_running {sql : Sql δ} {log : OperLog δ}
    (hbusy : s.operlog.job.threads = [.busy sql]) (hlog : log ∈ sql.logs) : log ∈ s.logs := by
  have hsql : sql ∈ s.operlog.job.all := by simp [Job.all, hbusy, Thread.running]
  exact List.mem_append_left _ (List.mem_flatMap.mpr ⟨sql, hsql, hlog⟩)

/-- What the worker is at comes behind what has been answered. -/
theorem InOrder.running (h : InOrder first start n s) {sql : Sql δ}
    (hbusy : s.operlog.job.threads = [.busy sql]) :
    Db.Consecutive (start + s.answered.length) sql.logs := by
  have hids := h.ids
  simp only [logs, Job.all, hbusy, Thread.running, List.flatMap_append, List.flatMap_cons,
    List.flatMap_nil, List.append_nil, List.append_assoc] at hids
  have hrest := (Db.Consecutive.append.mp hids).2
  exact (Db.Consecutive.append.mp hrest).1

/-- Whatever MySQL answers, either it has done nothing or the whole statement is stored. -/
theorem InOrder.query (h : InOrder first start n s) {sql : Sql δ} {answer : Db.Answer} {db' : Db δ}
    (hbusy : s.operlog.job.threads = [.busy sql]) (hq : Db.Query sql s.db answer db') :
    answer = .error ∧ db' = s.db ∨
      n ≤ start + s.answered.length + sql.logs.length ∧
        Db.Carried sql s.db db' first (start + s.answered.length + sql.logs.length) := by
  have hids := h.running hbusy
  have hbegins := h.begins
  have hfresh : n = start + s.answered.length → s.db.execute sql = some db' →
      n ≤ start + s.answered.length + sql.logs.length ∧
        Db.Carried sql s.db db' first (start + s.answered.length + sql.logs.length) := by
    intro hn hexec
    rw [← hn] at hids ⊢
    exact ⟨Nat.le_add_right _ _, h.gapless.carried (by omega) hids hexec⟩
  have hsame : ∀ {sql'}, s.operlog.job.threads = [.busy sql'] → sql' = sql := by
    intro sql' hbusy'
    rw [hbusy] at hbusy'
    simpa using hbusy'.symm
  have hexecute : s.db.execute sql = some db' →
      n ≤ start + s.answered.length + sql.logs.length ∧
        Db.Carried sql s.db db' first (start + s.answered.length + sql.logs.length) := by
    intro hexec
    rcases h.stored with hn | ⟨sql', hbusy', hn, hst⟩
    · exact hfresh hn hexec
    · obtain rfl := hsame hbusy'
      by_cases hnil : sql'.logs = []
      · refine hfresh ?_ hexec
        rw [hn, hnil]
        rfl
      · rw [Db.execute_again hnil hst] at hexec
        cases hexec
  cases hq with
  | ok hexec => exact Or.inr (hexecute hexec)
  | lost hexec => exact Or.inr (hexecute hexec)
  | error => exact Or.inl ⟨rfl, rfl⟩
  | duplicate hdup =>
    refine Or.inr ?_
    rcases h.stored with hn | ⟨sql', hbusy', hn, hst⟩
    · rw [← hn] at hids
      exact absurd hdup (h.gapless.not_duplicate hids)
    · obtain rfl := hsame hbusy'
      rw [← hn]
      exact ⟨le_rfl, h.gapless, hst, fun _ _ => Or.inl⟩

/-- What MySQL does while the worker waits for it. -/
theorem InOrder.db (h : InOrder first start n s) {sql : Sql δ} {answer : Db.Answer} {db' : Db δ}
    (hbusy : s.operlog.job.threads = [.busy sql]) (hq : Db.Query sql s.db answer db')
    (crashed : Bool) : ∃ n', n ≤ n' ∧ InOrder first start n' ⟨s.operlog, db', crashed⟩ := by
  rcases h.query hbusy hq with ⟨-, rfl⟩ | ⟨hle, hc⟩
  · exact ⟨n, le_rfl, { h with }⟩
  · refine ⟨_, hle,
      { h with gapless := hc.gapless, stored := ?_, rows := fun table row hst hlt => ?_ }⟩
    · exact Or.inr ⟨sql, hbusy, rfl, hc.stored⟩
    · rcases hc.rows table row hst with hst | ⟨log, hlog, hrow⟩
      · exact h.rows table row hst hlt
      · exact ⟨log, mem_logs_of_running hbusy hlog, hrow⟩

theorem move_logs {o : Operlog δ} {job : Job (Sql δ)} {m : Job.Move}
    (hone : o.job.threads.length = 1) (hjob : o.job.move m = some job) (db db' : Db δ)
    (crashed : Bool) : (⟨{ o with job := job }, db', crashed⟩ : System δ).logs =
      (⟨o, db, crashed⟩ : System δ).logs :=
  congrArg (fun all => all.flatMap Sql.logs ++ o.list) (Job.all_move_one hone hjob)

theorem Queued.move {o : Operlog δ} {db db' : Db δ} {job : Job (Sql δ)} {m : Job.Move}
    (h : Queued start ⟨o, db, false⟩) (hjob : o.job.move m = some job) :
    Queued start ⟨{ o with job := job }, db', false⟩ := by
  have hlogs := move_logs h.worker hjob db db' false
  obtain ⟨hthreads, hdown⟩ := Job.threads_move hjob
  refine ⟨hthreads.trans h.worker, hdown.trans h.up, hlogs ▸ h.ids, hlogs ▸ h.count, ?_⟩
  intro sql hsql
  have hfilled := h.filled
  cases m with
  | wake i =>
    obtain ⟨-, ⟨-, rfl⟩ | ⟨request, requests, -, hreq, rfl⟩⟩ := Job.move_wake hjob
    · exact hfilled sql hsql
    · refine hfilled sql ?_
      have hlast : requests.getLast? = some sql := hsql
      simp [hreq, List.getLast?_cons, hlast]
  | reply i =>
    obtain ⟨_, -, rfl⟩ := Job.move_reply hjob
    exact hfilled sql hsql

/-- **A step keeps the entries in order.** -/
theorem Queued.step (h : Queued start s) (hs : Step localtime s s') : Queued start s' := by
  cases hs with
  | @append o db createTime detail =>
    have hlogs := append_logs o db createTime detail
    have hcount : o.operlogIdStart = start + (⟨o, db, false⟩ : System δ).logs.length := h.count
    refine ⟨h.worker, h.up, ?_, ?_, h.filled⟩
    · rw [hlogs, Db.Consecutive.append]
      exact ⟨h.ids, by simp [Db.Consecutive, hcount]⟩
    · rw [hlogs, List.length_append]
      change o.operlogIdStart + 1 = _
      rw [hcount]
      rfl
  | @timer o db now =>
    have hlogs := onTimer_logs localtime o db now
    obtain ⟨hthreads, -, hdown, hcount⟩ := onTimer_job localtime o now
    exact ⟨(congrArg List.length hthreads).trans h.worker, hdown.trans h.up, hlogs ▸ h.ids,
      hlogs ▸ hcount.trans h.count, onTimer_filled localtime h.filled now⟩
  | wake hjob => exact h.move hjob
  | retry => exact { h with }
  | done _ _ _ hjob => exact h.move hjob
  | crash => exact { h with }
  | late => exact { h with }

theorem Queued.steps (h : Queued start s) (hs : Steps localtime s s') : Queued start s' := by
  induction hs with
  | refl => exact h
  | tail _ hstep ih => exact ih.step localtime hstep

/-- **A step never loses a stored id.** -/
theorem InOrder.step (h : InOrder first start n s) (hs : Step localtime s s') :
    ∃ n', n ≤ n' ∧ InOrder first start n' s' := by
  have hqueued := h.toQueued.step localtime hs
  cases hs with
  | @append o db createTime detail =>
    refine ⟨n, le_rfl, ⟨hqueued, h.begins, h.gapless, h.stored, fun table row hst hlt => ?_⟩⟩
    obtain ⟨log, hlog, hrow⟩ := h.rows table row hst hlt
    rw [append_logs]
    exact ⟨log, List.mem_append_left _ hlog, hrow⟩
  | @timer o db now =>
    obtain ⟨hthreads, hreplies, -, -⟩ := onTimer_job localtime o now
    refine ⟨n, le_rfl, ⟨hqueued, h.begins, h.gapless, ?_, ?_⟩⟩
    · simp only [answered, hreplies, hthreads]
      exact h.stored
    · rw [onTimer_logs]
      exact h.rows
  | @wake o db job hjob =>
    obtain ⟨hready, hcases⟩ := Job.move_wake hjob
    have hreplies : job.replies = o.job.replies := by
      obtain ⟨-, rfl⟩ | ⟨_, _, -, -, rfl⟩ := hcases <;> rfl
    refine ⟨n, le_rfl, ⟨hqueued, h.begins, h.gapless, Or.inl ?_, ?_⟩⟩
    · rcases h.stored with hn | ⟨sql, hbusy, -, -⟩
      · simpa [answered, hreplies] using hn
      · have hbusy : o.job.threads = [.busy sql] := hbusy
        rw [hbusy] at hready
        cases hready
    · rw [move_logs h.worker hjob db db]
      exact h.rows
  | retry hbusy hq => exact h.db hbusy hq false
  | @done o db db' sql answer job hbusy hq hanswer hjob =>
    rcases h.query hbusy hq with ⟨hanswer', -⟩ | ⟨hle, hc⟩
    · exact absurd hanswer' hanswer
    · refine ⟨_, hle, ⟨hqueued, h.begins, hc.gapless, Or.inl ?_, fun table row hst hlt => ?_⟩⟩
      · obtain ⟨sql', hsql', rfl⟩ := Job.move_reply hjob
        obtain rfl : sql' = sql := by
          rw [hbusy] at hsql'
          simpa using hsql'.symm
        simp [answered, Nat.add_assoc]
      · rw [move_logs h.worker hjob db db']
        rcases hc.rows table row hst with hst | ⟨log, hlog, hrow⟩
        · exact h.rows table row hst hlt
        · exact ⟨log, mem_logs_of_running hbusy hlog, hrow⟩
  | crash => exact ⟨n, le_rfl, { h with }⟩
  | late hbusy hq => exact h.db hbusy hq true

theorem InOrder.steps (h : InOrder first start n s) (hs : Steps localtime s s') :
    ∃ n', n ≤ n' ∧ InOrder first start n' s' := by
  induction hs with
  | refl => exact ⟨n, le_rfl, h⟩
  | tail _ hstep ih =>
    obtain ⟨n₁, hle₁, h₁⟩ := ih
    obtain ⟨n₂, hle₂, h₂⟩ := h₁.step localtime hstep
    exact ⟨n₂, hle₁.trans hle₂, h₂⟩

end Steps

/-- **The stored operation log is a gapless prefix**, and it never gets shorter. -/
theorem gapless_prefix {first start : ℕ} {db : Db δ} {s s' : System δ} (hle : first ≤ start)
    (hdb : db.Gapless first start) (hs : Steps localtime (boot start db) s)
    (hs' : Steps localtime s s') :
    ∃ n n', start ≤ n ∧ n ≤ n' ∧ s.db.Gapless first n ∧ s'.db.Gapless first n' := by
  obtain ⟨n, hn, h⟩ := (inOrder_boot hle hdb).steps localtime hs
  obtain ⟨n', hn', h'⟩ := h.steps localtime hs'
  exact ⟨n, n', hn, hn', h.gapless, h'.gapless⟩

theorem gapless_empty (n : ℕ) : (∅ : Db δ).Gapless n n where
  ids := fun id => by
    constructor
    · rintro ⟨table, row, ⟨t, ht, -⟩, -⟩
      simp at ht
    · omega
  once := fun {table table' row row'} ⟨t, ht, _⟩ => by simp at ht

/-- An `INSERT` is carried out, its answer is lost, and it is answered with 1062 when it is
repeated. -/
theorem gapless_prefix_retried : ∃ s s' : System String,
    Steps (fun _ => ⟨117, 3, 6⟩) (boot 0 ∅) s ∧ Steps (fun _ => ⟨117, 3, 6⟩) s s' ∧
      s.db.Stored "operlog_20170406" (1, 0, "a") ∧ s'.operlog.job.requests = [] ∧
        ∃ n n', 0 ≤ n ∧ n ≤ n' ∧ s.db.Gapless 0 n ∧ s'.db.Gapless 0 n' := by
  let day := operlogTable ⟨117, 3, 6⟩
  have hday : day = "operlog_20170406" := by decide
  let sql : Sql String := .insert day [.tuple ⟨1, 0, "a"⟩]
  let db₁ : Db String := Finmap.insert day .empty ∅
  let t : Table (ℚ × String) := ⟨[(1, 0, "a")], List.pairwise_singleton _ _⟩
  let db₂ : Db String := db₁.insert day t
  have hcreate : (∅ : Db String).execute (.createTable day) = some db₁ := by
    rw [Db.execute, if_neg (Finmap.notMem_empty)]
  have hinsert : db₁.execute sql = some db₂ := by
    simp only [sql, Db.execute, db₁, Dict.find_insert, if_true, readValues]
    rfl
  have hstored : db₂.Stored day (1, 0, "a") := ⟨t, by simp [db₂, Dict.find_insert], by simp [t]⟩
  have hdup : db₂.Duplicate sql := by
    refine ⟨t, [⟨1, 0, "a"⟩], by simp [db₂, Dict.find_insert], rfl, ?_⟩
    exact Table.insertAll_taken (by simp [t, OperLog.row])
  have hrun : Steps (fun _ => ⟨117, 3, 6⟩) (boot 0 (∅ : Db String))
      ⟨⟨[], 1, day, ⟨[], false, [.busy sql], [.createTable day]⟩⟩, db₂, false⟩ :=
    ((((((Relation.ReflTransGen.refl.tail (.append 0 "a")).tail (.timer 0)).tail
      (.wake rfl)).tail (.done rfl (.ok hcreate) (by simp) rfl)).tail (.wake rfl)).tail
      (.retry rfl (.lost hinsert)))
  have hrun' : Steps (fun _ => ⟨117, 3, 6⟩)
      ⟨⟨[], 1, day, ⟨[], false, [.busy sql], [.createTable day]⟩⟩, db₂, false⟩
      ⟨⟨[], 1, day, ⟨[], false, [.ready], [.createTable day, sql]⟩⟩, db₂, false⟩ :=
    .single (.done rfl (.duplicate hdup) (by simp) rfl)
  exact ⟨_, _, hrun, hrun', hday ▸ hstored, rfl,
    gapless_prefix _ le_rfl (gapless_empty 0) hrun hrun'⟩

end System

end ViabtcExchange
