import ViabtcExchange.Lib.Table
import ViabtcExchange.Engine

/-!
# Slices (`me_dump.c`, `me_load.c`, `me_persist.c`)

A slice is the copy of the engine that `dump_to_db` writes: the resting orders, the balances and
the id counters. `load_slice_from_db` reads it into a new engine, entering the orders one by one
with `order_put`.

The tables keep numbers in columns `DECIMAL(30, scale)`. What MySQL gives back for a number
stored in such a column is a parameter, `column scale`. The dictionary of the balances is dumped
in the order of its iterator, any order of its entries.
-/

namespace ViabtcExchange

/-- The tables `slice_order_*` and `slice_balance_*`, and the counters of `slice_history`. -/
structure Slice (D : Type) where
  orders : Table (Order D)
  balances : List (BalanceKey × D)
  endOrderId : ℕ
  endDealsId : ℕ

section Slice

variable {D : Type} (column : ℕ → D → D)

/-! ## Dumping -/

/-- An order as its row gives it back. The table has no column for the source. -/
def sliceOrder (order : Order D) : Order D :=
  { order with
    source := none
    price := column 8 order.price
    amount := column 8 order.amount
    takerFee := column 4 order.takerFee
    makerFee := column 4 order.makerFee
    left := column 8 order.left
    freeze := column 8 order.freeze
    dealStock := column 8 order.dealStock
    dealMoney := column 16 order.dealMoney
    dealFee := column 12 order.dealFee }

def dumpOrdersList (m : Market D) (side : OrderSide) (table : Table (Order D)) :
    Table (Order D) :=
  (m.book side).foldl
    (fun table id => table.insert ((m.order id).id, sliceOrder column (m.order id))) table

/-- `none` when a market of the settings does not exist. -/
def dumpOrders (dictMarket : Dict String (Market D)) : List String → Table (Order D) →
    Option (Table (Order D))
  | [], table => some table
  | name :: names, table =>
    match dictMarket.find name with
    | none => none
    | some m =>
      dumpOrders dictMarket names
        (dumpOrdersList column m .bid (dumpOrdersList column m .ask table))

def dumpBalance (entries : List (BalanceKey × D)) : List (BalanceKey × D) :=
  entries.map fun kv => (kv.1, column 16 kv.2)

/-- `entries` is an order in which the iterator may visit a dictionary. -/
def Iterates {K V : Type} (d : Dict K V) (entries : List (K × V)) : Prop :=
  d.entries = (entries.map fun kv => (⟨kv.1, kv.2⟩ : Σ _ : K, V) : List (Σ _ : K, V))

instance {K V : Type} [DecidableEq K] [DecidableEq V] (d : Dict K V) (entries : List (K × V)) :
    Decidable (Iterates d entries) :=
  inferInstanceAs (Decidable (d.entries = _))

/-- `dump_to_db`. -/
def Engine.dump (markets : List String) (entries : List (BalanceKey × D)) (e : Engine D) :
    Option (Slice D) :=
  (dumpOrders column e.dictMarket markets .empty).map fun orders =>
    { orders := orders
      balances := dumpBalance column entries
      endOrderId := e.statics.orderIdStart
      endDealsId := e.statics.dealsIdStart }

/-! ## Loading -/

variable (mpd : Mpd D)

/-- An order as `load_orders` makes it from a row. -/
def loadedOrder (m : Market D) (row : Order D) : Order D :=
  { row with
    price := mpd.cut row.price m.moneyPrec
    amount := mpd.cut row.amount m.stockPrec
    takerFee := mpd.cut row.takerFee m.feePrec
    makerFee := mpd.cut row.makerFee m.feePrec
    left := mpd.cut row.left m.stockPrec }

/-- The body of the loop of `load_orders`; the result of `order_put` is dropped. -/
def Engine.loadOrder (e : Engine D) (row : Order D) : Engine D :=
  match e.dictMarket.find row.market with
  | none => e
  | some m =>
    let (s, m) := orderPut mpd e.statics m (loadedOrder mpd m row)
    e.put row.market s m

/-- The size of a page. -/
def queryLimit : ℕ := 1000

theorem queryLimit_pos : 0 < queryLimit := by decide

def Engine.loadOrders (table : Table (Order D)) (e : Engine D) : Option (Engine D) :=
  (table.scan queryLimit queryLimit_pos (fun e row => some (e.loadOrder mpd row.2)) 0 e).map
    Prod.fst

/-- The body of the loop of `load_balance`; the result of `balance_set` is dropped. -/
def loadBalance (dictAsset : Dict String AssetType) (b : Dict BalanceKey D)
    (row : BalanceKey × D) : Dict BalanceKey D :=
  match dictAsset.find row.1.asset with
  | none => b
  | some ty =>
    (balanceSet mpd dictAsset b row.1.userId row.1.type row.1.asset
      (mpd.cut row.2 ty.precSave)).getD b

def Engine.loadBalances (rows : List (BalanceKey × D)) (e : Engine D) : Engine D :=
  let l := e.statics.ledger
  { e with
    statics :=
      { e.statics with
        ledger := { l with dictBalance := rows.foldl (loadBalance mpd l.dictAsset) l.dictBalance } } }

/-- Set the id counters. -/
def Engine.setIds (orderIdStart dealsIdStart : ℕ) (e : Engine D) : Engine D :=
  { e with
    statics := { e.statics with orderIdStart := orderIdStart, dealsIdStart := dealsIdStart } }

/-- `init_from_db` up to the operation log, on a new engine. -/
def Engine.restore (dictAsset : Dict String AssetType) (confs : List (MarketConf D))
    (slice : Slice D) : Option (Engine D) := do
  let e ← Engine.init mpd dictAsset confs
  let e ← (e.setIds slice.endOrderId slice.endDealsId).loadOrders mpd slice.orders
  return e.loadBalances mpd slice.balances

/-- Loading in pages enters every order of the table, in the order of the ids. -/
theorem Engine.loadOrders_eq (table : Table (Order D)) (e : Engine D) :
    e.loadOrders mpd table =
      some ((table.above 0).foldl (fun e row => e.loadOrder mpd row.2) e) := by
  have hfold : ∀ (rows : List (ℕ × Order D)) (e : Engine D),
      rows.foldlM (fun e row => some (e.loadOrder mpd row.2)) e =
        some (rows.foldl (fun e row => e.loadOrder mpd row.2) e) := fun rows => by
    induction rows with
    | nil => exact fun _ => rfl
    | cons row rows ih => exact fun e => ih _
  rw [Engine.loadOrders, Table.scan_eq, hfold]
  rfl

end Slice

end ViabtcExchange
