import ViabtcExchange.Balance

/-!
# Orders, trades and the state they live in (`me_market.h`, `me_history.c`, `me_message.c`)

An order is a record on a heap, and its id is the pointer to it: a market's dictionary, its two
sides and its user lists hold ids, and `Market.order` says what an id points to. Times of orders
are left out, no decision reads them.

`Statics` gathers the file-scope variables the matching engine works on. `history` and
`messages` are the rows and messages handed to the history workers and to Kafka, in order;
`trades` records the terms of every trade executed, for the theorems only.
-/

namespace ViabtcExchange

inductive OrderType
  | limit
  | market
deriving DecidableEq, Repr

inductive OrderSide
  | ask
  | bid
deriving DecidableEq, Repr

inductive MarketRole
  | maker
  | taker
deriving DecidableEq, Repr

inductive OrderEvent
  | put
  | update
  | finish
deriving DecidableEq, Repr

structure Order (D : Type) where
  id : ℕ
  type : OrderType
  side : OrderSide
  userId : ℕ
  market : String
  /-- `NULL` in an order loaded from a slice. -/
  source : Option String
  price : D
  amount : D
  takerFee : D
  makerFee : D
  left : D
  freeze : D
  dealStock : D
  dealMoney : D
  dealFee : D
deriving DecidableEq, Repr

/-- The locals `price`, `amount`, `deal`, `ask_fee` and `bid_fee` of an `execute_*` loop. -/
structure Terms (D : Type) where
  price : D
  amount : D
  deal : D
  askFee : D
  bidFee : D
deriving DecidableEq, Repr

/-- One trade: its terms and the assets its two fees are taken in. -/
structure Trade (D : Type) where
  terms : Terms D
  askFeeAsset : String
  bidFeeAsset : String
deriving DecidableEq, Repr

/-- A JSON value. -/
inductive Json
  | null
  | bool (b : Bool)
  | integer (n : ℤ)
  | real (x : ℚ)
  | string (s : String)
  | array (vs : List Json)
  | object (kvs : List (String × Json))

/-- The `detail` column of a balance history row. -/
inductive Detail (D : Type)
  | trade (market : String) (orderId : ℕ) (price amount : D) (feeRate : Option D)
  | update (detail : Json)

/-- What the `append_*_history` functions are handed. -/
inductive HistoryRow (D : Type)
  | order (order : Order D)
  | deal (dealId : ℕ) (ask : Order D) (askRole : MarketRole) (bid : Order D)
      (bidRole : MarketRole) (terms : Terms D)
  | balance (userId : ℕ) (asset business : String) (change balance : D) (detail : Detail D)

/-- What the `push_*_message` functions are handed. -/
inductive Message (D : Type)
  | balance (userId : ℕ) (asset business : String) (change : D)
  | order (event : OrderEvent) (order : Order D) (stock money : String)
  | deal (market : String) (ask bid : Order D) (terms : Terms D) (side : OrderSide) (dealId : ℕ)
      (stock money : String)

structure Market (D : Type) where
  name : String
  stock : String
  money : String
  stockPrec : ℕ
  moneyPrec : ℕ
  feePrec : ℕ
  minAmount : D
  /-- The heap. -/
  order : ℕ → Order D
  orders : Finset ℕ
  users : Dict ℕ (List ℕ)
  asks : List ℕ
  bids : List ℕ

structure Statics (D : Type) where
  ledger : Ledger D
  orderIdStart : ℕ
  dealsIdStart : ℕ
  trades : List (Trade D)
  history : List (HistoryRow D)
  messages : List (Message D)

namespace Market

variable {D : Type}

/-- Write the order an id points to. -/
def setOrder (m : Market D) (id : ℕ) (order : Order D) : Market D :=
  { m with order := Function.update m.order id order }

/-- `dict_add` of an order. -/
def addOrder (m : Market D) (order : Order D) : Market D :=
  { m.setOrder order.id order with orders := insert order.id m.orders }

def setUsers (m : Market D) (users : Dict ℕ (List ℕ)) : Market D := { m with users := users }

/-- The resting orders of one side, in the order of the skiplist. -/
def book (m : Market D) : OrderSide → List ℕ
  | .ask => m.asks
  | .bid => m.bids

def setBook (m : Market D) (side : OrderSide) (ids : List ℕ) : Market D :=
  match side with
  | .ask => { m with asks := ids }
  | .bid => { m with bids := ids }

/-- The asset an order of a side gives away. -/
def giveAsset (m : Market D) : OrderSide → String
  | .ask => m.stock
  | .bid => m.money

section Simp

variable (m : Market D) (side s : OrderSide) (ids : List ℕ) (i : ℕ) (o : Order D)

@[simp] theorem setBook_name : (m.setBook side ids).name = m.name := by cases side <;> rfl
@[simp] theorem setBook_order : (m.setBook side ids).order = m.order := by cases side <;> rfl
@[simp] theorem setBook_orders : (m.setBook side ids).orders = m.orders := by cases side <;> rfl
@[simp] theorem setBook_users : (m.setBook side ids).users = m.users := by cases side <;> rfl
@[simp] theorem setBook_giveAsset : (m.setBook side ids).giveAsset s = m.giveAsset s := by
  cases side <;> rfl

theorem book_setBook : (m.setBook side ids).book s = if s = side then ids else m.book s := by
  cases side <;> cases s <;> rfl

@[simp] theorem setOrder_name : (m.setOrder i o).name = m.name := rfl
@[simp] theorem setOrder_order : (m.setOrder i o).order = Function.update m.order i o := rfl
@[simp] theorem setOrder_orders : (m.setOrder i o).orders = m.orders := rfl
@[simp] theorem setOrder_users : (m.setOrder i o).users = m.users := rfl
@[simp] theorem setOrder_giveAsset : (m.setOrder i o).giveAsset s = m.giveAsset s := rfl
@[simp] theorem setOrder_book : (m.setOrder i o).book s = m.book s := rfl

@[simp] theorem addOrder_name : (m.addOrder o).name = m.name := rfl
@[simp] theorem addOrder_order : (m.addOrder o).order = Function.update m.order o.id o := rfl
@[simp] theorem addOrder_orders : (m.addOrder o).orders = insert o.id m.orders := rfl
@[simp] theorem addOrder_users : (m.addOrder o).users = m.users := rfl
@[simp] theorem addOrder_giveAsset : (m.addOrder o).giveAsset s = m.giveAsset s := rfl
@[simp] theorem addOrder_book : (m.addOrder o).book s = m.book s := rfl

@[simp] theorem setUsers_name (users : Dict ℕ (List ℕ)) : (m.setUsers users).name = m.name := rfl
@[simp] theorem setUsers_order (users : Dict ℕ (List ℕ)) : (m.setUsers users).order = m.order := rfl
@[simp] theorem setUsers_orders (users : Dict ℕ (List ℕ)) :
    (m.setUsers users).orders = m.orders := rfl
@[simp] theorem setUsers_users (users : Dict ℕ (List ℕ)) : (m.setUsers users).users = users := rfl
@[simp] theorem setUsers_giveAsset (users : Dict ℕ (List ℕ)) :
    (m.setUsers users).giveAsset s = m.giveAsset s := rfl
@[simp] theorem setUsers_book (users : Dict ℕ (List ℕ)) :
    (m.setUsers users).book s = m.book s := rfl

end Simp

end Market

def OrderSide.opposite : OrderSide → OrderSide
  | .ask => .bid
  | .bid => .ask

namespace Statics

variable {D : Type} (mpd : Mpd D)

/-- A balance call whose result is dropped. -/
def call (s : Statics D) (c : BalanceCall D) : Statics D :=
  { s with ledger := s.ledger.call mpd c }

/-- Append a history row, in a real run. -/
def append (real : Bool) (s : Statics D) (row : HistoryRow D) : Statics D :=
  if real then { s with history := s.history ++ [row] } else s

/-- Push a message, in a real run. -/
def push (real : Bool) (s : Statics D) (msg : Message D) : Statics D :=
  if real then { s with messages := s.messages ++ [msg] } else s

/-- `append_user_balance_history`: the row carries the total balance of the moment. -/
def appendUserBalanceHistory (real : Bool) (s : Statics D) (userId : ℕ) (asset business : String)
    (change : D) (detail : Detail D) : Statics D :=
  s.append real (.balance userId asset business change
    (balanceTotal mpd s.ledger.dictBalance userId asset) detail)

def appendBalanceTradeAdd (real : Bool) (s : Statics D) (order : Order D) (asset : String)
    (change price amount : D) : Statics D :=
  s.appendUserBalanceHistory mpd real order.userId asset "trade" change
    (.trade order.market order.id price amount none)

def appendBalanceTradeSub (real : Bool) (s : Statics D) (order : Order D) (asset : String)
    (change price amount : D) : Statics D :=
  s.appendUserBalanceHistory mpd real order.userId asset "trade" (mpd.negate change)
    (.trade order.market order.id price amount none)

def appendBalanceTradeFee (real : Bool) (s : Statics D) (order : Order D) (asset : String)
    (change price amount feeRate : D) : Statics D :=
  s.appendUserBalanceHistory mpd real order.userId asset "trade" (mpd.negate change)
    (.trade order.market order.id price amount (some feeRate))

end Statics

end ViabtcExchange
