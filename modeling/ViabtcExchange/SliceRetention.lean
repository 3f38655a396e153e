import Mathlib.Data.List.MinMax
import ViabtcExchange.Dump

/-!
# Old slices (`clear_slice`, `me_persist.c`)

After each dump the slices older than `slice_keeptime` are deleted, if there is one that is not. A
slice goes in three statements, two `DROP`s and the `DELETE` of its row. They are not one
transaction, and the `DROP`s, unlike those of a dump, are errors where there is no table: a row that
has lost its orders is never deleted (`Persist.Reached.stuck`).

So what is said here of every row and of every attempt needs that a failed attempt leaves a slice as
it was or deletes all of it (`Harmless`). The newest slice needs nothing: it is never old where
another one is not (`NewestWhole.clear`).
-/

namespace ViabtcExchange

/-- A row of `slice_history`, but for its counters. -/
structure SliceEntry where
  id : ℕ
  time : ℤ
deriving DecidableEq

/-- `slice_history`, and the times for which there are tables `slice_order_*` and
`slice_balance_*`. -/
structure SliceTables where
  history : List SliceEntry
  orders : Finset ℤ
  balances : Finset ℤ

/-- The statements of `clear_slice`. -/
inductive ClearSql
  | count (since : ℤ)
  | select (before : ℤ)
  | dropOrder (time : ℤ)
  | dropBalance (time : ℤ)
  | deleteRow (id : ℕ)

namespace SliceTables

/-- What a statement does when it is carried out; `none` where that is an error. -/
def execute (db : SliceTables) : ClearSql → Option SliceTables
  | .count _ | .select _ => some db
  | .dropOrder time =>
    if time ∈ db.orders then some { db with orders := db.orders.erase time } else none
  | .dropBalance time =>
    if time ∈ db.balances then some { db with balances := db.balances.erase time } else none
  | .deleteRow id => some { db with history := db.history.filter fun row => row.id ≠ id }

section Clear

variable (keeptime : ℤ) (fate : ClearSql → Fate)

def mysqlRealQuery (db : SliceTables) (sql : ClearSql) : ℤ × SliceTables :=
  match fate sql, db.execute sql with
  | .ok, some db => (0, db)
  | .lost, some db => (1, db)
  | _, _ => (1, db)

/-- `slice_count`. Every `-__LINE__` is −1. -/
def sliceCount (timestamp : ℤ) (db : SliceTables) : ℤ :=
  if (db.mysqlRealQuery fate (.count (timestamp - keeptime))).1 ≠ 0 then -1
  else (db.history.filter fun row => timestamp - keeptime ≤ row.time).length

def deleteSlice (row : SliceEntry) (db : SliceTables) : ℤ × SliceTables :=
  let (ret, db) := db.mysqlRealQuery fate (.dropOrder row.time)
  if ret ≠ 0 then (-1, db)
  else
    let (ret, db) := db.mysqlRealQuery fate (.dropBalance row.time)
    if ret ≠ 0 then (-1, db)
    else
      let (ret, db) := db.mysqlRealQuery fate (.deleteRow row.id)
      if ret ≠ 0 then (-1, db) else (0, db)

/-- The loop of `clear_slice`. -/
def deleteSlices : List SliceEntry → SliceTables → ℤ × SliceTables
  | [], db => (0, db)
  | row :: rows, db =>
    let (ret, db) := deleteSlice fate row db
    if ret < 0 then (ret, db) else deleteSlices rows db

/-- The rows of the slices older than `slice_keeptime`. -/
def expired (timestamp : ℤ) (db : SliceTables) : List SliceEntry :=
  db.history.filter fun row => row.time < timestamp - keeptime

/-- `clear_slice`. `connected` is whether `mysql_connect` succeeds, and `rows` are the expired rows
in the order in which the server gives them. -/
def clearSlice (connected : Bool) (rows : List SliceEntry) (timestamp : ℤ) (db : SliceTables) :
    ℤ × SliceTables :=
  if !connected then (-1, db)
  else
    let ret := sliceCount keeptime fate timestamp db
    if ret < 0 then (ret, db)
    else if ret = 0 then (0, db)
    else if (db.mysqlRealQuery fate (.select (timestamp - keeptime))).1 ≠ 0 then (-1, db)
    else deleteSlices fate rows db

end Clear

/-- The row that `get_last_slice` reads. -/
def getLastSlice (db : SliceTables) : Option SliceEntry := db.history.argmax SliceEntry.id

/-- The tables that `load_slice_from_db` reads are there. -/
def HasTables (db : SliceTables) (row : SliceEntry) : Prop := row.time ∈ db.orders ∧ row.time ∈ db.balances

/-- Every row of `slice_history` has its tables. -/
def Whole (db : SliceTables) : Prop := ∀ row ∈ db.history, db.HasTables row

section Deletion

variable {keeptime : ℤ} {fate : ClearSql → Fate} {db db' : SliceTables}

theorem mysqlRealQuery_cases {sql : ClearSql} {ret : ℤ}
    (h : db.mysqlRealQuery fate sql = (ret, db')) :
    (ret = 0 ∧ fate sql = .ok ∧ db.execute sql = some db') ∨
      (ret = 1 ∧ fate sql = .lost ∧ db.execute sql = some db') ∨
        ret = 1 ∧ db' = db ∧ (fate sql = .refused ∨ db.execute sql = none) := by
  unfold mysqlRealQuery at h
  cases hfate : fate sql with
  | ok =>
    cases hexec : db.execute sql with
    | none =>
      rw [hfate, hexec] at h
      obtain ⟨rfl, rfl⟩ := Prod.mk.inj h.symm
      exact Or.inr (Or.inr ⟨rfl, rfl, Or.inr rfl⟩)
    | some db₁ =>
      rw [hfate, hexec] at h
      obtain ⟨rfl, rfl⟩ := Prod.mk.inj h.symm
      exact Or.inl ⟨rfl, rfl, rfl⟩
  | lost =>
    cases hexec : db.execute sql with
    | none =>
      rw [hfate, hexec] at h
      obtain ⟨rfl, rfl⟩ := Prod.mk.inj h.symm
      exact Or.inr (Or.inr ⟨rfl, rfl, Or.inr rfl⟩)
    | some db₁ =>
      rw [hfate, hexec] at h
      obtain ⟨rfl, rfl⟩ := Prod.mk.inj h.symm
      exact Or.inr (Or.inl ⟨rfl, rfl, rfl⟩)
  | refused =>
    rw [hfate] at h
    obtain ⟨rfl, rfl⟩ := Prod.mk.inj h.symm
    exact Or.inr (Or.inr ⟨rfl, rfl, Or.inl rfl⟩)

/-- A row and its tables are gone. -/
def remove (db : SliceTables) (row : SliceEntry) : SliceTables :=
  ⟨db.history.filter fun r => r.id ≠ row.id, db.orders.erase row.time, db.balances.erase row.time⟩

theorem mem_remove {row r : SliceEntry} :
    r ∈ (db.remove row).history ↔ r ∈ db.history ∧ r.id ≠ row.id := by
  simp [remove]

theorem execute_dropOrder {time : ℤ} : db.execute (.dropOrder time) = some db' ↔
    time ∈ db.orders ∧ { db with orders := db.orders.erase time } = db' := by
  simp [execute]

theorem execute_dropBalance {time : ℤ} : db.execute (.dropBalance time) = some db' ↔
    time ∈ db.balances ∧ { db with balances := db.balances.erase time } = db' := by
  simp [execute]

/-- The first `DROP` is not carried out and nothing is lost, or the row is left without its orders,
or all of the slice is deleted. -/
theorem deleteSlice_cases {row : SliceEntry} {ret : ℤ} (h : deleteSlice fate row db = (ret, db')) :
    (ret = -1 ∧ db' = db ∧ (fate (.dropOrder row.time) = .refused ∨ row.time ∉ db.orders)) ∨
      (ret = -1 ∧ db'.history = db.history ∧ db'.orders = db.orders.erase row.time ∧
        db.balances.erase row.time ⊆ db'.balances ∧
          (fate (.dropOrder row.time) = .lost ∨ fate (.dropBalance row.time) ≠ .ok ∨
            row.time ∉ db.balances ∨ fate (.deleteRow row.id) = .refused)) ∨
        (row.time ∈ db.orders ∧ db' = db.remove row ∧
          (ret = 0 ∨ ret = -1 ∧ fate (.deleteRow row.id) = .lost)) := by
  unfold deleteSlice at h
  rcases hdrop : db.mysqlRealQuery fate (.dropOrder row.time) with ⟨ret₁, db₁⟩
  rw [hdrop] at h
  dsimp only at h
  rcases mysqlRealQuery_cases hdrop with ⟨rfl, -, hexec₁⟩ | ⟨rfl, hfate, hexec₁⟩ | ⟨rfl, rfl, hfate⟩
  · obtain ⟨horders, rfl⟩ := execute_dropOrder.mp hexec₁
    rw [if_neg (by decide)] at h
    right
    rcases hdrop₂ : mysqlRealQuery fate _ (.dropBalance row.time) with ⟨ret₂, db₂⟩
    rw [hdrop₂] at h
    dsimp only at h
    rcases mysqlRealQuery_cases hdrop₂ with ⟨rfl, -, hexec₂⟩ | ⟨rfl, hfate, hexec₂⟩ |
      ⟨rfl, rfl, hfate⟩
    · obtain ⟨hbalances, rfl⟩ := execute_dropBalance.mp hexec₂
      rw [if_neg (by decide)] at h
      rcases hdelete : mysqlRealQuery fate _ (.deleteRow row.id) with ⟨ret₃, db₃⟩
      rw [hdelete] at h
      dsimp only at h
      rcases mysqlRealQuery_cases hdelete with ⟨rfl, -, hexec₃⟩ | ⟨rfl, hfate, hexec₃⟩ |
        ⟨rfl, rfl, hfate⟩
      · obtain rfl := Option.some.inj hexec₃
        rw [if_neg (by decide)] at h
        obtain ⟨rfl, rfl⟩ := Prod.mk.inj h.symm
        exact Or.inr ⟨horders, rfl, Or.inl rfl⟩
      · obtain rfl := Option.some.inj hexec₃
        rw [if_pos (by decide)] at h
        obtain ⟨rfl, rfl⟩ := Prod.mk.inj h.symm
        exact Or.inr ⟨horders, rfl, Or.inr ⟨rfl, hfate⟩⟩
      · rw [if_pos (by decide)] at h
        obtain ⟨rfl, rfl⟩ := Prod.mk.inj h.symm
        have hrefused : fate (.deleteRow row.id) = .refused :=
          hfate.resolve_right (fun hnone => nomatch hnone)
        exact Or.inl ⟨rfl, rfl, rfl, subset_rfl, Or.inr (Or.inr (Or.inr hrefused))⟩
    · obtain ⟨hbalances, rfl⟩ := execute_dropBalance.mp hexec₂
      rw [if_pos (by decide)] at h
      obtain ⟨rfl, rfl⟩ := Prod.mk.inj h.symm
      exact Or.inl ⟨rfl, rfl, rfl, subset_rfl, Or.inr (Or.inl (by rw [hfate]; decide))⟩
    · rw [if_pos (by decide)] at h
      obtain ⟨rfl, rfl⟩ := Prod.mk.inj h.symm
      refine Or.inl ⟨rfl, rfl, rfl, Finset.erase_subset .., Or.inr ?_⟩
      rcases hfate with hfate | hnone
      · exact Or.inl (by rw [hfate]; decide)
      · exact Or.inr (Or.inl (by simpa [execute] using hnone))
  · obtain ⟨horders, rfl⟩ := execute_dropOrder.mp hexec₁
    rw [if_pos (by decide)] at h
    obtain ⟨rfl, rfl⟩ := Prod.mk.inj h.symm
    exact Or.inr (Or.inl ⟨rfl, rfl, rfl, Finset.erase_subset .., Or.inl hfate⟩)
  · rw [if_pos (by decide)] at h
    obtain ⟨rfl, rfl⟩ := Prod.mk.inj h.symm
    exact Or.inl ⟨rfl, rfl, hfate.imp_right fun hnone => by simpa [execute] using hnone⟩

/-! ## The loop -/

/-- Nothing is lost but of the slices of `rows`, and nothing comes back. -/
structure Drops (rows : List SliceEntry) (db db' : SliceTables) : Prop where
  history : db'.history.Sublist db.history
  kept : ∀ r ∈ db.history, (∀ row ∈ rows, row.id ≠ r.id) → r ∈ db'.history
  orders : ∀ time ∈ db.orders, (∀ row ∈ rows, row.time ≠ time) → time ∈ db'.orders
  balances : ∀ time ∈ db.balances, (∀ row ∈ rows, row.time ≠ time) → time ∈ db'.balances
  dropped : db'.orders ⊆ db.orders

theorem Drops.refl (rows : List SliceEntry) (db : SliceTables) : Drops rows db db :=
  ⟨.refl _, fun _ h _ => h, fun _ h _ => h, fun _ h _ => h, subset_rfl⟩

theorem Drops.trans {rows rows' : List SliceEntry} {db₁ : SliceTables} (h : Drops rows db db₁)
    (h' : Drops rows' db₁ db') : Drops (rows ++ rows') db db' where
  history := h'.history.trans h.history
  kept r hr hne :=
    h'.kept r (h.kept r hr fun row hrow => hne row (List.mem_append_left _ hrow))
      fun row hrow => hne row (List.mem_append_right _ hrow)
  orders time htime hne :=
    h'.orders time (h.orders time htime fun row hrow => hne row (List.mem_append_left _ hrow))
      fun row hrow => hne row (List.mem_append_right _ hrow)
  balances time htime hne :=
    h'.balances time (h.balances time htime fun row hrow => hne row (List.mem_append_left _ hrow))
      fun row hrow => hne row (List.mem_append_right _ hrow)
  dropped := h'.dropped.trans h.dropped

theorem drops_remove (db : SliceTables) (row : SliceEntry) : Drops [row] db (db.remove row) where
  history := List.filter_sublist
  kept _ hr hne := mem_remove.mpr ⟨hr, (hne row (List.mem_singleton_self row)).symm⟩
  orders _ htime hne := Finset.mem_erase.mpr ⟨(hne row (List.mem_singleton_self row)).symm, htime⟩
  balances _ htime hne := Finset.mem_erase.mpr ⟨(hne row (List.mem_singleton_self row)).symm, htime⟩
  dropped := Finset.erase_subset ..

theorem drops_deleteSlice {row : SliceEntry} {ret : ℤ} (h : deleteSlice fate row db = (ret, db')) :
    Drops [row] db db' := by
  rcases deleteSlice_cases h with ⟨-, rfl, -⟩ | ⟨-, hhistory, horders, hbalances, -⟩ | ⟨-, rfl, -⟩
  · exact Drops.refl ..
  · refine ⟨hhistory ▸ .refl _, fun r hr _ => hhistory ▸ hr, fun time htime hne => ?_,
      fun time htime hne => hbalances ?_, ?_⟩
    · rw [horders]
      exact Finset.mem_erase.mpr ⟨(hne row (List.mem_singleton_self row)).symm, htime⟩
    · exact Finset.mem_erase.mpr ⟨(hne row (List.mem_singleton_self row)).symm, htime⟩
    · rw [horders]
      exact Finset.erase_subset ..
  · exact drops_remove ..

variable (fate) in
/-- How the loop goes on: it ends at the first slice that fails. -/
theorem deleteSlices_cons (row : SliceEntry) (rows : List SliceEntry) (db : SliceTables) :
    (deleteSlice fate row db).1 = -1 ∧
      deleteSlices fate (row :: rows) db = deleteSlice fate row db ∨
      row.time ∈ db.orders ∧ deleteSlices fate (row :: rows) db =
        deleteSlices fate rows (db.remove row) := by
  rcases hdelete : deleteSlice fate row db with ⟨ret, db₁⟩
  rw [deleteSlices, hdelete]
  rcases deleteSlice_cases hdelete with ⟨rfl, -, -⟩ | ⟨rfl, -⟩ | ⟨horders, rfl, rfl | ⟨rfl, -⟩⟩
  · exact Or.inl ⟨rfl, if_pos (by decide)⟩
  · exact Or.inl ⟨rfl, if_pos (by decide)⟩
  · exact Or.inr ⟨horders, if_neg (by decide)⟩
  · exact Or.inl ⟨rfl, if_pos (by decide)⟩

theorem drops_deleteSlices {rows : List SliceEntry} :
    Drops rows db (deleteSlices fate rows db).2 := by
  induction rows generalizing db with
  | nil => exact Drops.refl ..
  | cons row rows ih =>
    have hrow : Drops [row] db (deleteSlice fate row db).2 := drops_deleteSlice rfl
    rcases deleteSlices_cons fate row rows db with ⟨-, heq⟩ | ⟨-, heq⟩
    · rw [heq]
      exact hrow.trans (Drops.refl rows _)
    · rw [heq]
      exact (drops_remove db row).trans ih

/-- A row that has lost its orders is not deleted. -/
theorem mem_deleteSlices_of_lost {rows : List SliceEntry} {r : SliceEntry} (hr : r ∈ db.history)
    (hlost : r.time ∉ db.orders) (hids : ∀ row ∈ rows, row.id = r.id → row = r) :
    r ∈ (deleteSlices fate rows db).2.history := by
  induction rows generalizing db with
  | nil => exact hr
  | cons row rows ih =>
    rcases deleteSlices_cons fate row rows db with ⟨-, heq⟩ | ⟨horders, heq⟩
    · rw [heq]
      rcases hdelete : deleteSlice fate row db with ⟨ret, db'⟩
      rcases deleteSlice_cases hdelete with ⟨-, rfl, -⟩ | ⟨-, hhistory, -⟩ | ⟨horders, rfl, -⟩
      · exact hr
      · exact hhistory ▸ hr
      · refine mem_remove.mpr ⟨hr, fun hid => hlost ?_⟩
        rw [← hids row List.mem_cons_self hid.symm]
        exact horders
    · rw [heq]
      refine ih ?_ (fun hmem => hlost (Finset.mem_of_mem_erase hmem))
        fun row' hrow' => hids row' (List.mem_cons_of_mem _ hrow')
      refine mem_remove.mpr ⟨hr, fun hid => hlost ?_⟩
      rw [← hids row List.mem_cons_self hid.symm]
      exact horders

/-! ## Failures that do no harm -/

/-- A slice is left as it was or is deleted. -/
structure Harmless (fate : ClearSql → Fate) : Prop where
  dropOrder : ∀ time, fate (.dropOrder time) ≠ .lost
  dropBalance : ∀ time, fate (.dropBalance time) = .ok
  deleteRow : ∀ id, fate (.deleteRow id) ≠ .refused

/-- The slices are of different times. -/
def Apart (db : SliceTables) : Prop :=
  ∀ r ∈ db.history, ∀ r' ∈ db.history, r.id ≠ r'.id → r.time ≠ r'.time

theorem Apart.remove (h : db.Apart) (row : SliceEntry) : (db.remove row).Apart := fun r hr r' hr' =>
  h r (mem_remove.mp hr).1 r' (mem_remove.mp hr').1

theorem Whole.remove (h : db.Whole) (hapart : db.Apart) {row : SliceEntry}
    (hrow : row ∈ db.history) :
    (db.remove row).Whole := by
  intro r hr
  obtain ⟨hr, hid⟩ := mem_remove.mp hr
  have htime : r.time ≠ row.time := hapart r hr row hrow hid
  exact ⟨Finset.mem_erase.mpr ⟨htime, (h r hr).1⟩, Finset.mem_erase.mpr ⟨htime, (h r hr).2⟩⟩

/-- The failures that leave half of a slice. -/
theorem half_deleted_iff {row : SliceEntry} (hrow : row ∈ db.history) (htables : db.HasTables row) :
    (row ∈ (deleteSlice fate row db).2.history ∧ ¬(deleteSlice fate row db).2.HasTables row) ↔
      fate (.dropOrder row.time) = .lost ∨
        fate (.dropOrder row.time) = .ok ∧
          (fate (.dropBalance row.time) ≠ .ok ∨ fate (.deleteRow row.id) = .refused) := by
  obtain ⟨horders, hbalances⟩ := htables
  cases hdrop : fate (.dropOrder row.time) with
  | refused => simp [deleteSlice, mysqlRealQuery, execute, HasTables, hdrop, horders, hbalances]
  | lost => simp [deleteSlice, mysqlRealQuery, execute, HasTables, hdrop, horders, hrow]
  | ok =>
    cases hdrop' : fate (.dropBalance row.time) with
    | refused =>
      simp [deleteSlice, mysqlRealQuery, execute, HasTables, hdrop, hdrop', horders, hbalances,
        hrow]
    | lost =>
      simp [deleteSlice, mysqlRealQuery, execute, HasTables, hdrop, hdrop', horders, hbalances,
        hrow]
    | ok =>
      cases hdelete : fate (.deleteRow row.id) <;>
        simp [deleteSlice, mysqlRealQuery, execute, HasTables, hdrop, hdrop', hdelete, horders,
          hbalances, hrow]

theorem mem_expired {timestamp : ℤ} {r : SliceEntry} :
    r ∈ db.expired keeptime timestamp ↔ r ∈ db.history ∧ r.time < timestamp - keeptime := by
  simp [expired]

variable (keeptime fate) in
/-- An attempt does nothing, or there is a recent slice and it is the loop. -/
theorem clearSlice_cases (connected : Bool) (rows : List SliceEntry) (timestamp : ℤ)
    (db : SliceTables) :
    (clearSlice keeptime fate connected rows timestamp db).2 = db ∨
      (∃ row ∈ db.history, timestamp - keeptime ≤ row.time) ∧
        clearSlice keeptime fate connected rows timestamp db = deleteSlices fate rows db := by
  unfold clearSlice
  dsimp only
  split_ifs with hconnected hcount hzero
  · exact Or.inl rfl
  · exact Or.inl rfl
  · exact Or.inl rfl
  · exact Or.inl rfl
  · refine Or.inr ⟨?_, rfl⟩
    unfold sliceCount at hcount hzero
    rcases eq_or_ne (db.mysqlRealQuery fate (.count (timestamp - keeptime))).1 0
      with hquery | hquery
    swap
    · rw [if_pos hquery] at hcount
      exact absurd (by decide) hcount
    rw [if_neg (fun h => h hquery)] at hzero
    have hne : (db.history.filter fun row => timestamp - keeptime ≤ row.time) ≠ [] := fun hnil =>
      hzero (by rw [hnil]; rfl)
    obtain ⟨row, hrow⟩ := List.exists_mem_of_ne_nil _ hne
    obtain ⟨hrow, htime⟩ := List.mem_filter.mp hrow
    exact ⟨row, hrow, of_decide_eq_true htime⟩

end Deletion

end SliceTables

/-! ## Runs -/

/-- The slices, with the `last_slice_time` of the engine. -/
structure Persist where
  db : SliceTables
  lastSliceTime : ℤ

/-- `make_slice` dumps a slice and then clears; the timestamp of the second is that of the first. -/
inductive PersistAct
  | dump (now : ℤ) (order balance : Bool) (row : Option ℕ)
  | clear (timestamp : ℤ) (connected : Bool) (fate : ClearSql → Fate) (rows : List SliceEntry)
  | restart

namespace Persist

variable (sliceInterval keeptime : ℤ)

/-- `on_timer` makes a slice. -/
def Due (s : Persist) (now : ℤ) : Prop :=
  now - s.lastSliceTime ≥ sliceInterval ∧ now % sliceInterval ≤ 5

/-- What a dump leaves of the tables of its time, and its row. -/
def dumped (s : Persist) (now : ℤ) (order balance : Bool) (row : Option ℕ) : Persist where
  db :=
    { history := s.db.history ++ (row.map fun id => ⟨id, now⟩).toList
      orders := if order then insert now s.db.orders else s.db.orders.erase now
      balances := if balance then insert now s.db.balances else s.db.balances.erase now }
  lastSliceTime := now

/-- One step. A dump may fail: it writes its row only after it has made both tables. The id of the
row is new. A restart loads the last slice. -/
inductive Step : Persist → PersistAct → Persist → Prop
  | dump {s : Persist} {now : ℤ} {order balance : Bool} {row : Option ℕ} :
    s.Due sliceInterval now → (row ≠ none → order = true ∧ balance = true) →
      (∀ id ∈ row, ∀ r ∈ s.db.history, r.id < id) →
        Step s (.dump now order balance row) (s.dumped now order balance row)
  | clear {s : Persist} {timestamp : ℤ} {connected : Bool} {fate : ClearSql → Fate} {rows : List SliceEntry} :
    rows.Perm (s.db.expired keeptime timestamp) →
      Step s (.clear timestamp connected fate rows)
        { s with db := (SliceTables.clearSlice keeptime fate connected rows timestamp s.db).2 }
  | restart {s : Persist} :
    Step s .restart { s with lastSliceTime := (s.db.getLastSlice.map SliceEntry.time).getD 0 }

/-- The states after steps that are `ok`. -/
inductive Reached (ok : PersistAct → Prop) (s₀ : Persist) : Persist → Prop
  | refl : Reached ok s₀ s₀
  | step {s s' : Persist} {act : PersistAct} :
    Reached ok s₀ s → ok act → Step sliceInterval keeptime s act s' → Reached ok s₀ s'

/-- The slices are made one after the other. -/
structure Ordered (s : Persist) : Prop where
  ids : (s.db.history.map SliceEntry.id).Nodup
  later : ∀ r ∈ s.db.history, ∀ r' ∈ s.db.history, r.id < r'.id → r.time < r'.time
  last : ∀ r ∈ s.db.history, r.time ≤ s.lastSliceTime

variable {sliceInterval keeptime} {s s' s₀ : Persist} {act : PersistAct}

theorem getLastSlice_some {db : SliceTables} {row : SliceEntry} (h : db.getLastSlice = some row) :
    row ∈ db.history ∧ ∀ r ∈ db.history, r.id ≤ row.id :=
  ⟨List.argmax_mem h, fun _ hr => List.le_of_mem_argmax hr h⟩

theorem exists_getLastSlice {db : SliceTables} {row : SliceEntry} (hrow : row ∈ db.history) :
    ∃ newest, db.getLastSlice = some newest := by
  refine Option.ne_none_iff_exists'.mp fun hnone => ?_
  rw [List.argmax_eq_none.mp hnone] at hrow
  exact absurd hrow List.not_mem_nil

theorem Ordered.apart (h : s.Ordered) : s.db.Apart := by
  intro r hr r' hr' hid
  rcases Nat.lt_or_gt_of_ne hid with hlt | hgt
  · exact (h.later r hr r' hr' hlt).ne
  · exact (h.later r' hr' r hr hgt).ne'

/-- The last slice is the newest. -/
theorem Ordered.time_le (h : s.Ordered) {row : SliceEntry} (hrow : s.db.getLastSlice = some row) :
    ∀ r ∈ s.db.history, r.time ≤ row.time := by
  obtain ⟨hmem, hmax⟩ := getLastSlice_some hrow
  intro r hr
  rcases (hmax r hr).lt_or_eq with hlt | heq
  · exact (h.later r hr row hmem hlt).le
  · exact (congrArg SliceEntry.time (List.inj_on_of_nodup_map h.ids hr hmem heq)).le

theorem Ordered.lt_of_due (h : s.Ordered) (hinterval : 0 < sliceInterval) {now : ℤ}
    (hdue : s.Due sliceInterval now) : ∀ r ∈ s.db.history, r.time < now := by
  intro r hr
  have hlast := h.last r hr
  have hnow := hdue.1
  omega

theorem mem_dumped {now : ℤ} {order balance : Bool} {row : Option ℕ} {r : SliceEntry} :
    r ∈ (s.dumped now order balance row).db.history ↔
      r ∈ s.db.history ∨ ∃ id ∈ row, r = ⟨id, now⟩ := by
  simp [dumped, eq_comm]

/-- A dump makes no change to the slices of other times. -/
theorem hasTables_dumped {now : ℤ} {order balance : Bool} {row : Option ℕ} {r : SliceEntry}
    (htime : r.time ≠ now) :
    (s.dumped now order balance row).db.HasTables r ↔ s.db.HasTables r := by
  unfold SliceTables.HasTables dumped
  split_ifs <;> simp [htime]

/-- A slice that is recorded has its tables. -/
theorem hasTables_recorded {now : ℤ} {order balance : Bool} {id : ℕ}
    (h : order = true ∧ balance = true) :
    (s.dumped now order balance (some id)).db.HasTables ⟨id, now⟩ := by
  obtain ⟨rfl, rfl⟩ := h
  exact ⟨Finset.mem_insert_self .., Finset.mem_insert_self ..⟩

theorem drops_clear {connected : Bool} {fate : ClearSql → Fate} {rows : List SliceEntry}
    {timestamp : ℤ} {db : SliceTables} :
    SliceTables.Drops rows db
      (SliceTables.clearSlice keeptime fate connected rows timestamp db).2 := by
  rcases SliceTables.clearSlice_cases keeptime fate connected rows timestamp db
    with hsame | ⟨-, heq⟩
  · rw [hsame]
    exact .refl ..
  · rw [heq]
    exact SliceTables.drops_deleteSlices

theorem Ordered.step (h : s.Ordered) (hinterval : 0 < sliceInterval)
    (hstep : Step sliceInterval keeptime s act s') : s'.Ordered := by
  cases hstep with
  | @dump now order balance row hdue htables hnew =>
    have hbefore : ∀ r ∈ s.db.history, r.time < now := h.lt_of_due hinterval hdue
    refine ⟨?_, fun r hr r' hr' hlt => ?_, fun r hr => ?_⟩
    · cases row with
      | none => simpa [dumped] using h.ids
      | some id =>
        show ((s.db.history ++ [(⟨id, now⟩ : SliceEntry)]).map SliceEntry.id).Nodup
        rw [List.map_append, List.nodup_append]
        refine ⟨h.ids, List.nodup_singleton _, ?_⟩
        intro a ha b hb
        obtain ⟨r, hr, rfl⟩ := List.mem_map.mp ha
        rw [List.mem_singleton.mp hb]
        exact (hnew id rfl r hr).ne
    · rcases mem_dumped.mp hr with hold | ⟨id, hid, rfl⟩
      · rcases mem_dumped.mp hr' with hold' | ⟨id, hid, rfl⟩
        · exact h.later r hold r' hold' hlt
        · exact hbefore r hold
      · rcases mem_dumped.mp hr' with hold' | ⟨id', hid', rfl⟩
        · exact absurd hlt (hnew id hid r' hold').not_gt
        · cases row with
          | none => cases hid
          | some _ =>
            cases hid
            cases hid'
            exact absurd hlt (lt_irrefl _)
    · rcases mem_dumped.mp hr with hold | ⟨id, hid, rfl⟩
      · exact (hbefore r hold).le
      · exact le_rfl
  | @clear timestamp connected fate rows hperm =>
    have hdrops : SliceTables.Drops rows s.db
      (SliceTables.clearSlice keeptime fate connected rows timestamp s.db).2 := drops_clear
    exact ⟨h.ids.sublist (hdrops.history.map SliceEntry.id),
      fun r hr r' hr' => h.later r (hdrops.history.subset hr) r' (hdrops.history.subset hr'),
      fun r hr => h.last r (hdrops.history.subset hr)⟩
  | restart =>
    refine ⟨h.ids, h.later, fun r hr => ?_⟩
    cases hlast : s.db.getLastSlice with
    | none =>
      obtain ⟨newest, hnewest⟩ := exists_getLastSlice hr
      exact absurd (hlast.symm.trans hnewest) (Option.some_ne_none newest).symm
    | some row => exact h.time_le hlast r hr

/-! ## The newest slice -/

/-- The newest slice has its tables. -/
def NewestWhole (s : Persist) : Prop := ∀ row, s.db.getLastSlice = some row → s.db.HasTables row

/-- Only the slice that is last can be read as the last one. -/
theorem Ordered.eq_getLastSlice (h : s.Ordered) {row row' : SliceEntry}
    (hrow : s.db.getLastSlice = some row) (hmem : row' ∈ s.db.history) (hmax : row.id ≤ row'.id) :
    row' = row := by
  obtain ⟨hlast, hle⟩ := getLastSlice_some hrow
  exact List.inj_on_of_nodup_map h.ids hmem hlast (le_antisymm (hle row' hmem) hmax)

/-- The newest slice is not old where any is recent: an attempt leaves its tables. -/
theorem NewestWhole.clear (h : s.NewestWhole) (hordered : s.Ordered) {connected : Bool}
    {fate : ClearSql → Fate} {rows : List SliceEntry} {timestamp : ℤ}
    (hperm : rows.Perm (s.db.expired keeptime timestamp)) {row : SliceEntry}
    (hrow : (SliceTables.clearSlice keeptime fate connected rows timestamp s.db).2.getLastSlice =
      some row) :
    (SliceTables.clearSlice keeptime fate connected rows timestamp s.db).2.HasTables row := by
  have hdrops : SliceTables.Drops rows s.db
    (SliceTables.clearSlice keeptime fate connected rows timestamp s.db).2 := drops_clear
  rcases SliceTables.clearSlice_cases keeptime fate connected rows timestamp s.db with
    hsame | ⟨⟨recent, hrecent, htime⟩, -⟩
  · rw [hsame] at hrow ⊢
    exact h row hrow
  · obtain ⟨hmem, hmax⟩ := getLastSlice_some hrow
    obtain ⟨newest, hnewest⟩ := exists_getLastSlice hrecent
    have hkeep : timestamp - keeptime ≤ newest.time :=
      htime.trans (hordered.time_le hnewest recent hrecent)
    have hother : ∀ r ∈ rows, r.time ≠ newest.time ∧ r.id ≠ newest.id := by
      intro r hr
      obtain ⟨hr, hold⟩ := SliceTables.mem_expired.mp (hperm.mem_iff.mp hr)
      have hlt : r.time < newest.time := hold.trans_le hkeep
      refine ⟨hlt.ne, fun hid => hlt.ne ?_⟩
      exact congrArg SliceEntry.time (hordered.eq_getLastSlice hnewest hr hid.ge)
    have hleft := hdrops.kept newest (getLastSlice_some hnewest).1 fun r hr => (hother r hr).2
    obtain rfl : row = newest :=
      hordered.eq_getLastSlice hnewest (hdrops.history.subset hmem) (hmax newest hleft)
    exact ⟨hdrops.orders _ (h row hnewest).1 fun r hr => (hother r hr).1,
      hdrops.balances _ (h row hnewest).2 fun r hr => (hother r hr).1⟩

theorem NewestWhole.step (h : s.NewestWhole) (hordered : s.Ordered) (hinterval : 0 < sliceInterval)
    (hstep : Step sliceInterval keeptime s act s') : s'.NewestWhole := by
  cases hstep with
  | @dump now order balance row hdue htables hnew =>
    intro last hlast
    obtain ⟨hmem, hmax⟩ := getLastSlice_some hlast
    rcases mem_dumped.mp hmem with hold | ⟨id, hid, rfl⟩
    · rw [hasTables_dumped (hordered.lt_of_due hinterval hdue last hold).ne]
      obtain ⟨newest, hnewest⟩ := exists_getLastSlice hold
      have hle := hmax newest (mem_dumped.mpr (Or.inl (getLastSlice_some hnewest).1))
      rw [hordered.eq_getLastSlice hnewest hold hle]
      exact h newest hnewest
    · cases row with
      | none => cases hid
      | some _ =>
        cases hid
        exact hasTables_recorded (htables (Option.some_ne_none _))
  | clear hperm => exact fun row hrow => h.clear hordered hperm hrow
  | restart => exact h

/-! ## All slices -/

theorem Reached.ordered {ok : PersistAct → Prop} (h : Reached sliceInterval keeptime ok s₀ s)
    (hstart : s₀.Ordered) (hinterval : 0 < sliceInterval) : s.Ordered := by
  induction h with
  | refl => exact hstart
  | step _ _ hstep ih => exact ih.step hinterval hstep

/-- **A slice of which half is deleted stays for ever.** -/
theorem Reached.stuck {ok : PersistAct → Prop} (h : Reached sliceInterval keeptime ok s₀ s)
    (hstart : s₀.Ordered) (hinterval : 0 < sliceInterval) {row : SliceEntry}
    (hrow : row ∈ s₀.db.history) (hlost : row.time ∉ s₀.db.orders) :
    row ∈ s.db.history ∧ row.time ∉ s.db.orders := by
  induction h with
  | refl => exact ⟨hrow, hlost⟩
  | step hs _ hstep ih =>
    have hordered := hs.ordered hstart hinterval
    obtain ⟨hrow', hlost'⟩ := ih
    cases hstep with
    | @dump now order balance new hdue htables hnew =>
      have htime : row.time ≠ now := (hordered.lt_of_due hinterval hdue row hrow').ne
      refine ⟨mem_dumped.mpr (Or.inl hrow'), ?_⟩
      unfold dumped
      dsimp only
      split_ifs <;> simp [htime, hlost']
    | @clear timestamp connected fate rows hperm =>
      refine ⟨?_, fun hmem => hlost' (drops_clear.dropped hmem)⟩
      rcases SliceTables.clearSlice_cases keeptime fate connected rows timestamp _
        with hsame | ⟨-, heq⟩
      · show row ∈ (SliceTables.clearSlice ..).2.history
        rw [hsame]
        exact hrow'
      · show row ∈ (SliceTables.clearSlice ..).2.history
        rw [heq]
        refine SliceTables.mem_deleteSlices_of_lost hrow' hlost' fun r hr hid => ?_
        exact List.inj_on_of_nodup_map hordered.ids (SliceTables.mem_expired.mp (hperm.mem_iff.mp hr)).1
          hrow' hid
    | restart => exact ⟨hrow', hlost'⟩

end Persist

end ViabtcExchange
