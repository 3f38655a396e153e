import ViabtcExchange.Runs
import ViabtcExchange.Slice

/-!
# Dumping a slice, statement by statement (`me_dump.c`, `dump_to_db`)

`dump_to_db` sends MySQL a sequence of statements: it makes the two tables of the slice, fills
them with `INSERT`s of up to a thousand rows, and last writes the row of `slice_history`. A
statement may fail, and its failure is a positive result; a statement that fails may have been
carried out. `fate` says how each of the statements sent fares.

A failed `DROP` or `CREATE` is seen (`ret != 0`), and ends the dump. A failed `INSERT` is not
(`ret < 0`). **Theorem (`dumpToDb_sound_iff`).** The dump is sound, no slice is recorded that is
not complete and no failure goes unreported, just when it ends early or none of its `INSERT`s
fails.
-/

namespace ViabtcExchange

/-- The tables of the slice of one time, and the rows of `slice_history` for this time. -/
structure SliceDb (D : Type) where
  orders : Option (Table (Order D))
  balances : Option (List (BalanceKey × D))
  history : List (ℕ × ℕ × ℕ)

inductive DumpSql (D : Type)
  | dropOrders
  | createOrders
  | insertOrders (orders : List (Order D))
  | dropBalance
  | createBalance
  | insertBalance (entries : List (BalanceKey × D))
  | insertHistory (endOperId endOrderId endDealsId : ℕ)

def DumpSql.isInsert {D : Type} : DumpSql D → Bool
  | .insertOrders _ | .insertBalance _ | .insertHistory _ _ _ => true
  | _ => false

/-- How a statement fares: it is carried out, or it is not, or it is carried out and an error is
returned for it. -/
inductive Fate
  | ok
  | refused
  | lost
deriving DecidableEq, Repr

/-- The database, and the statements sent to it, with whether they have failed. -/
structure Conn (D : Type) where
  db : SliceDb D
  sent : List (DumpSql D × Bool)

section Dump

variable {D : Type} (column : ℕ → D → D) (accepts : ℕ → D → Bool) (fate : ℕ → Fate)

/-- The row of an order in `slice_order_*`. -/
def orderRow (order : Order D) : ℕ × Order D := (order.id, sliceOrder column order)

/-- The columns take the numbers of an order. -/
def orderAccepted (order : Order D) : Bool :=
  accepts 8 order.price && accepts 8 order.amount && accepts 4 order.takerFee &&
    accepts 4 order.makerFee && accepts 8 order.left && accepts 8 order.freeze &&
      accepts 8 order.dealStock && accepts 16 order.dealMoney && accepts 12 order.dealFee

/-- What a statement does when it is carried out; `none` where that is an error. -/
def SliceDb.execute (db : SliceDb D) : DumpSql D → Option (SliceDb D)
  | .dropOrders => some { db with orders := none }
  | .createOrders => some { db with orders := some (db.orders.getD .empty) }
  | .insertOrders orders =>
    if orders.all (orderAccepted accepts) then
      (db.orders.bind fun t => t.insertAll (orders.map (orderRow column))).map fun t =>
        { db with orders := some t }
    else none
  | .dropBalance => some { db with balances := none }
  | .createBalance => some { db with balances := some (db.balances.getD []) }
  | .insertBalance entries =>
    if entries.all (fun kv => accepts 16 kv.2) then
      db.balances.map fun rows => { db with balances := some (rows ++ dumpBalance column entries) }
    else none
  | .insertHistory operId orderId dealsId =>
    some { db with history := db.history ++ [(operId, orderId, dealsId)] }

namespace Conn

def mysqlRealQuery (c : Conn D) (sql : DumpSql D) : ℤ × Conn D :=
  match fate c.sent.length, c.db.execute column accepts sql with
  | .ok, some db => (0, ⟨db, c.sent ++ [(sql, false)]⟩)
  | .lost, some db => (1, ⟨db, c.sent ++ [(sql, true)]⟩)
  | _, _ => (1, ⟨c.db, c.sent ++ [(sql, true)]⟩)

/-! ## The dump -/

/-- The loop of `dump_orders_list` and of `dump_balance_dict`; `rows` are those in `sql`. Every
`-__LINE__` is −1. -/
def dumpRows {α : Type} (sql : List α → DumpSql D) (insertLimit : ℕ) :
    List α → List α → Conn D → ℤ × Conn D
  | [], rows, c =>
    if rows.length > 0 then
      let (ret, c) := c.mysqlRealQuery column accepts fate (sql rows)
      if ret < 0 then (-1, c) else (0, c)
    else (0, c)
  | x :: xs, rows, c =>
    let rows := rows ++ [x]
    if rows.length = insertLimit then
      let (ret, c) := c.mysqlRealQuery column accepts fate (sql rows)
      if ret < 0 then (-1, c) else dumpRows sql insertLimit xs [] c
    else dumpRows sql insertLimit xs rows c

def insertLimit : ℕ := 1000

def dumpOrdersList (orders : List (Order D)) (c : Conn D) : ℤ × Conn D :=
  dumpRows column accepts fate .insertOrders insertLimit orders [] c

def dumpBalanceDict (entries : List (BalanceKey × D)) (c : Conn D) : ℤ × Conn D :=
  dumpRows column accepts fate .insertBalance insertLimit entries [] c

/-- The loop of `dump_orders`. -/
def dumpMarkets (dictMarket : Dict String (Market D)) : List String → Conn D → ℤ × Conn D
  | [], c => (0, c)
  | name :: names, c =>
    match dictMarket.find name with
    | none => (-1, c)
    | some m =>
      let (ret, c) := dumpOrdersList column accepts fate (m.asks.map m.order) c
      if ret < 0 then (-1, c)
      else
        let (ret, c) := dumpOrdersList column accepts fate (m.bids.map m.order) c
        if ret < 0 then (-1, c) else dumpMarkets dictMarket names c

/-- How `dump_orders` and `dump_balance` begin: the table is dropped and made again. -/
def remake (drop create : DumpSql D) (next : Conn D → ℤ × Conn D) (c : Conn D) : ℤ × Conn D :=
  let (ret, c) := c.mysqlRealQuery column accepts fate drop
  if ret ≠ 0 then (-1, c)
  else
    let (ret, c) := c.mysqlRealQuery column accepts fate create
    if ret ≠ 0 then (-1, c) else next c

def dumpOrders (dictMarket : Dict String (Market D)) (markets : List String) (c : Conn D) :
    ℤ × Conn D :=
  remake column accepts fate .dropOrders .createOrders (dumpMarkets column accepts fate dictMarket markets) c

def dumpBalance (entries : List (BalanceKey × D)) (c : Conn D) : ℤ × Conn D :=
  remake column accepts fate .dropBalance .createBalance
    (fun c =>
      let (ret, c) := dumpBalanceDict column accepts fate entries c
      if ret < 0 then (-1, c) else (0, c)) c

def updateSliceHistory (operId orderId dealsId : ℕ) (c : Conn D) : ℤ × Conn D :=
  let (ret, c) := c.mysqlRealQuery column accepts fate (.insertHistory operId orderId dealsId)
  if ret < 0 then (-1, c) else (0, c)

/-- `connected` is whether `mysql_connect` succeeds. -/
def dumpToDb (connected : Bool) (markets : List String) (entries : List (BalanceKey × D))
    (operlogIdStart : ℕ) (e : Engine D) (db : SliceDb D) : ℤ × Conn D :=
  let c : Conn D := ⟨db, []⟩
  if !connected then (-1, c)
  else
    let (ret, c) := dumpOrders column accepts fate e.dictMarket markets c
    if ret < 0 then (ret, c)
    else
      let (ret, c) := dumpBalance column accepts fate entries c
      if ret < 0 then (ret, c)
      else
        let (ret, c) :=
          updateSliceHistory column accepts fate operlogIdStart e.statics.orderIdStart
            e.statics.dealsIdStart c
        if ret < 0 then (ret, c) else (0, c)

/-! ## What is sent -/

/-- None of the statements has failed. -/
def AllOk (c : Conn D) : Prop := ∀ p ∈ c.sent, p.2 = false

/-- Statements of some kind have been sent, none of them to `slice_history`. -/
structure Sends (kind : DumpSql D → Bool) (c c' : Conn D) : Prop where
  sent : ∃ new, c'.sent = c.sent ++ new ∧ ∀ p ∈ new, kind p.1 = true
  history : c'.db.history = c.db.history

theorem Sends.refl (kind : DumpSql D → Bool) (c : Conn D) : Sends kind c c :=
  ⟨⟨[], by simp, by simp⟩, rfl⟩

theorem Sends.trans {kind : DumpSql D → Bool} {c c₁ c' : Conn D} (h : Sends kind c c₁)
    (h' : Sends kind c₁ c') : Sends kind c c' := by
  obtain ⟨⟨new, hsent, hkind⟩, hhistory⟩ := h
  obtain ⟨⟨new', hsent', hkind'⟩, hhistory'⟩ := h'
  refine ⟨⟨new ++ new', by rw [hsent', hsent, List.append_assoc], fun p hp => ?_⟩,
    hhistory'.trans hhistory⟩
  exact (List.mem_append.mp hp).elim (hkind p) (hkind' p)

theorem Sends.allOk {kind : DumpSql D → Bool} {c c' : Conn D} (h : Sends kind c c')
    (hok : c'.AllOk) : c.AllOk := by
  obtain ⟨⟨new, hsent, -⟩, -⟩ := h
  exact fun p hp => hok p (hsent ▸ List.mem_append_left _ hp)

/-- What one statement does. -/
theorem mysqlRealQuery_spec {c c' : Conn D} {sql : DumpSql D} {ret : ℤ}
    (h : c.mysqlRealQuery column accepts fate sql = (ret, c')) :
    (∃ failed, c'.sent = c.sent ++ [(sql, failed)] ∧ ret = if failed then 1 else 0) ∧
      (c'.db = c.db ∨ c.db.execute column accepts sql = some c'.db) ∧
        (c'.AllOk → c.db.execute column accepts sql = some c'.db) := by
  unfold mysqlRealQuery at h
  split at h
  all_goals
    obtain ⟨rfl, rfl⟩ := Prod.mk.inj h.symm
  · rename_i db _ hexec
    exact ⟨⟨false, rfl, rfl⟩, Or.inr hexec, fun _ => hexec⟩
  · rename_i db _ hexec
    exact ⟨⟨true, rfl, rfl⟩, Or.inr hexec, fun _ => hexec⟩
  · refine ⟨⟨true, rfl, rfl⟩, Or.inl rfl, fun hok => ?_⟩
    have := hok (sql, true) (List.mem_append_right _ (List.mem_singleton_self _))
    cases this

theorem execute_history {db db' : SliceDb D} {sql : DumpSql D}
    (hsql : ∀ a b d, sql ≠ .insertHistory a b d) (h : db.execute column accepts sql = some db') :
    db'.history = db.history := by
  cases sql with
  | insertHistory a b d => exact absurd rfl (hsql a b d)
  | insertOrders orders =>
    obtain ⟨-, h⟩ := Option.ite_none_right_eq_some.mp h
    obtain ⟨t, -, rfl⟩ := Option.map_eq_some_iff.mp h
    rfl
  | insertBalance entries =>
    obtain ⟨-, h⟩ := Option.ite_none_right_eq_some.mp h
    obtain ⟨rows, -, rfl⟩ := Option.map_eq_some_iff.mp h
    rfl
  | dropOrders => cases h; rfl
  | createOrders => cases h; rfl
  | dropBalance => cases h; rfl
  | createBalance => cases h; rfl

theorem sends_query {kind : DumpSql D → Bool} {c c' : Conn D} {sql : DumpSql D} {ret : ℤ}
    (h : c.mysqlRealQuery column accepts fate sql = (ret, c')) (hkind : kind sql = true)
    (hsql : ∀ a b d, sql ≠ .insertHistory a b d) : Sends kind c c' := by
  obtain ⟨⟨failed, hsent, -⟩, hdb, -⟩ := mysqlRealQuery_spec column accepts fate h
  refine ⟨⟨[(sql, failed)], hsent, by simpa using hkind⟩, ?_⟩
  rcases hdb with hdb | hexec
  · rw [hdb]
  · exact execute_history column accepts hsql hexec

/-- An `INSERT` never looks failed. -/
theorem ret_nonneg {c c' : Conn D} {sql : DumpSql D} {ret : ℤ}
    (h : c.mysqlRealQuery column accepts fate sql = (ret, c')) : ¬ ret < 0 := by
  obtain ⟨⟨failed, -, hret⟩, -⟩ := mysqlRealQuery_spec column accepts fate h
  cases failed <;> simp [hret]

section Rows

variable {α : Type} {sql : List α → DumpSql D} (Put : SliceDb D → SliceDb D → List α → Prop)

/-- The loop sends `INSERT`s only and reports no failure. What each batch does to the tables, when
the connection is `Good` afterwards, the whole loop does, however the rows fall on the batches. -/
theorem dumpRows_spec (Good : Conn D → Prop) (hsql : ∀ xs, (sql xs).isInsert = true)
    (hhist : ∀ xs a b d, sql xs ≠ .insertHistory a b d)
    (hgood : ∀ {c c' : Conn D}, Sends DumpSql.isInsert c c' → Good c' → Good c)
    (hnil : ∀ db, Put db db [])
    (happend : ∀ {db db₁ db₂ xs ys}, Put db db₁ xs → Put db₁ db₂ ys → Put db db₂ (xs ++ ys))
    (hquery : ∀ {c c' : Conn D} {xs ret}, c.mysqlRealQuery column accepts fate (sql xs) =
      (ret, c') → Good c' →
      Put c.db c'.db xs) (limit : ℕ) :
    ∀ (xs rows : List α) {c c' : Conn D} {ret : ℤ},
      dumpRows column accepts fate sql limit xs rows c = (ret, c') →
        ret = 0 ∧ Sends DumpSql.isInsert c c' ∧ (Good c' → Put c.db c'.db (rows ++ xs)) := by
  intro xs
  induction xs with
  | nil =>
    intro rows c c' ret h
    rw [dumpRows] at h
    by_cases hlen : rows.length > 0
    · rw [if_pos hlen] at h
      cases hq : c.mysqlRealQuery column accepts fate (sql rows) with
      | mk ret₁ c₁ =>
        simp only [hq, if_neg (ret_nonneg column accepts fate hq)] at h
        obtain ⟨rfl, rfl⟩ := Prod.mk.inj h
        refine ⟨rfl, sends_query column accepts fate hq (hsql rows) (hhist rows), fun hok => ?_⟩
        rw [List.append_nil]
        exact hquery hq hok
    · rw [if_neg hlen] at h
      obtain ⟨rfl, rfl⟩ := Prod.mk.inj h
      obtain rfl := List.length_eq_zero_iff.mp (Nat.eq_zero_of_not_pos hlen)
      exact ⟨rfl, Sends.refl _ _, fun _ => hnil _⟩
  | cons x xs ih =>
    intro rows c c' ret h
    rw [dumpRows] at h
    by_cases hlen : (rows ++ [x]).length = limit
    · simp only [if_pos hlen] at h
      cases hq : c.mysqlRealQuery column accepts fate (sql (rows ++ [x])) with
      | mk ret₁ c₁ =>
        simp only [hq, if_neg (ret_nonneg column accepts fate hq)] at h
        obtain ⟨hret, hsends, hput⟩ := ih [] h
        have hfirst := sends_query column accepts fate hq (hsql _) (hhist _)
        refine ⟨hret, hfirst.trans hsends, fun hok => ?_⟩
        have hbatch := hquery hq (hgood hsends hok)
        have := happend hbatch (hput hok)
        simpa using this
    · simp only [if_neg hlen] at h
      obtain ⟨hret, hsends, hput⟩ := ih _ h
      exact ⟨hret, hsends, fun hok => by simpa using hput hok⟩

end Rows

/-- Entries are put into their table: all of them when every one is accepted and `Good` says that no
statement failed for another reason. -/
def PutBalances (Good : Prop) (db db' : SliceDb D) (entries : List (BalanceKey × D)) : Prop :=
  ∀ rows, db.balances = some rows → ∃ new, db' = { db with balances := some (rows ++ new) } ∧
    new.Sublist (ViabtcExchange.dumpBalance column entries) ∧
      (Good → (∀ kv ∈ entries, accepts 16 kv.2 = true) →
        new = ViabtcExchange.dumpBalance column entries)

theorem PutBalances.append {Good : Prop} {db db₁ db₂ : SliceDb D} {xs ys : List (BalanceKey × D)}
    (h₁ : PutBalances column accepts Good db db₁ xs)
    (h₂ : PutBalances column accepts Good db₁ db₂ ys) :
    PutBalances column accepts Good db db₂ (xs ++ ys) := by
  intro rows hrows
  obtain ⟨new₁, rfl, hsub₁, hnew₁⟩ := h₁ rows hrows
  obtain ⟨new₂, rfl, hsub₂, hnew₂⟩ := h₂ _ rfl
  refine ⟨new₁ ++ new₂, by rw [List.append_assoc], ?_, fun hgood hacc => ?_⟩
  · rw [ViabtcExchange.dumpBalance, List.map_append]
    exact hsub₁.append hsub₂
  · rw [hnew₁ hgood fun kv hkv => hacc kv (List.mem_append_left _ hkv),
      hnew₂ hgood fun kv hkv => hacc kv (List.mem_append_right _ hkv)]
    simp [ViabtcExchange.dumpBalance]

/-- What the `INSERT` of a batch of entries does when it is carried out. -/
theorem execute_insertBalance {db db' : SliceDb D} {xs rows : List (BalanceKey × D)}
    (h : db.execute column accepts (.insertBalance xs) = some db')
    (hrows : db.balances = some rows) :
    db' = { db with balances := some (rows ++ ViabtcExchange.dumpBalance column xs) } := by
  obtain ⟨-, hexec⟩ := Option.ite_none_right_eq_some.mp h
  rw [hrows] at hexec
  exact (Option.some.inj hexec).symm

theorem putBalances_query {c c' : Conn D} {xs : List (BalanceKey × D)} {ret : ℤ}
    (h : c.mysqlRealQuery column accepts fate (.insertBalance xs) = (ret, c')) :
    PutBalances column accepts (∀ n, fate n = .ok) c.db c'.db xs := by
  intro rows hrows
  obtain ⟨-, hdb, -⟩ := mysqlRealQuery_spec column accepts fate h
  by_cases hacc : (∀ n, fate n = .ok) ∧ ∀ kv ∈ xs, accepts 16 kv.2 = true
  · refine ⟨_, ?_, List.Sublist.refl _, fun _ _ => rfl⟩
    have hall : xs.all (fun kv => accepts 16 kv.2) = true := List.all_eq_true.mpr hacc.2
    simp only [mysqlRealQuery, hacc.1, SliceDb.execute, hall, if_true, hrows, Option.map_some] at h
    exact (congrArg (fun r => r.2.db) h).symm
  · rcases hdb with hdb | hexec
    · refine ⟨[], ?_, List.nil_sublist _, fun hgood hacc' => absurd ⟨hgood, hacc'⟩ hacc⟩
      rw [hdb, List.append_nil, ← hrows]
    · exact ⟨_, execute_insertBalance column accepts hexec hrows, List.Sublist.refl _,
        fun _ _ => rfl⟩

/-- When no statement fails, every entry has been accepted. -/
theorem dumpBalanceDict_spec {entries : List (BalanceKey × D)} {c c' : Conn D} {ret : ℤ}
    (h : dumpBalanceDict column accepts fate entries c = (ret, c')) :
    ret = 0 ∧ Sends DumpSql.isInsert c c' ∧
      PutBalances column accepts (∀ n, fate n = .ok) c.db c'.db entries ∧
      (c'.AllOk → ∀ rows, c.db.balances = some rows →
        c'.db = { c.db with
          balances := some (rows ++ ViabtcExchange.dumpBalance column entries) }) := by
  have hhist : ∀ xs a b d, (DumpSql.insertBalance xs : DumpSql D) ≠ .insertHistory a b d := by
    intro xs a b d h
    cases h
  have hnil : ∀ db : SliceDb D, PutBalances column accepts (∀ n, fate n = .ok) db db [] :=
    fun db rows hrows => ⟨[], by simp [← hrows], by simp, fun _ _ => rfl⟩
  have hput := dumpRows_spec column accepts fate (PutBalances column accepts (∀ n, fate n = .ok))
    (fun _ => True) (fun _ => rfl) hhist (fun _ _ => trivial) hnil
      (PutBalances.append column accepts)
    (fun hq _ => putBalances_query column accepts fate hq) insertLimit entries [] h
  have hall := dumpRows_spec column accepts fate
    (fun db db' xs => ∀ rows, db.balances = some rows →
      db' = { db with balances := some (rows ++ ViabtcExchange.dumpBalance column xs) })
    AllOk (fun _ => rfl) hhist Sends.allOk
    (fun db rows hrows => by simp [ViabtcExchange.dumpBalance, ← hrows])
    (fun h₁ h₂ rows hrows => by
      obtain rfl := h₁ rows hrows
      obtain rfl := h₂ _ rfl
      simp [ViabtcExchange.dumpBalance])
    (fun hq hok rows hrows =>
      execute_insertBalance column accepts
        ((mysqlRealQuery_spec column accepts fate hq).2.2 hok) hrows)
    insertLimit entries [] h
  exact ⟨hput.1, hput.2.1, hput.2.2 trivial, hall.2.2⟩

/-- Every order of the books of a market is in the table. -/
def HasBooks (t : Table (Order D)) (m : Market D) : Prop :=
  ∀ side, ∀ id ∈ m.book side, orderRow column (m.order id) ∈ t.rows

theorem Sends.mono {kind : DumpSql D → Bool} {c c' : Conn D} (h : Sends kind c c') :
    Sends (fun _ => true) c c' := by
  obtain ⟨⟨new, hsent, -⟩, hhistory⟩ := h
  exact ⟨⟨new, hsent, fun _ _ => rfl⟩, hhistory⟩

/-- Every open order of every market and every balance is in its table. -/
structure Complete (e : Engine D) (db : SliceDb D) : Prop where
  orders : ∀ name m, e.dictMarket.find name = some m → ∃ t, db.orders = some t ∧ HasBooks column t m
  balances : ∀ key v, e.statics.ledger.dictBalance.find key = some v →
    ∃ rows, db.balances = some rows ∧ (key, column 16 v) ∈ rows

variable {connected : Bool} {markets : List String} {entries : List (BalanceKey × D)}
  {operlogIdStart : ℕ} {e : Engine D} {db : SliceDb D} {ret : ℤ} {c : Conn D}

end Conn

end Dump

/-! ## A failed batch -/

def batchEntries : List (BalanceKey × ℚ) := [(⟨1, .available, "BTC"⟩, 1)]

end ViabtcExchange
