import ViabtcExchange.Lib.Chain
import ViabtcExchange.Order

/-!
# Markets and matching (`me_market.c`)

The four `execute_*` functions run one loop over the opposite side of the book (`executeLoop`).
They differ in the price check, the size of a trade, the asset of the bid fee and what a trade
takes off the taker's `left`; `Matching` lists the differences.

The loop walks the ids the side held at the start: the skiplist iterator has its next node in
hand before `order_finish` removes the current one, and no other order leaves the side meanwhile.
A run has no result when the sizing loop of `execute_market_bid_order` does not end within
`mpd.fuel` rounds.
-/

namespace ViabtcExchange

/-- A `struct market` of the settings. -/
structure MarketConf (D : Type) where
  name : String
  stock : String
  money : String
  stockPrec : ℕ
  moneyPrec : ℕ
  feePrec : ℕ
  minAmount : D

section Market

variable {D : Type} (mpd : Mpd D) (real : Bool)

/-! ## The order of a side -/

def orderMatchCompare (order1 order2 : Order D) : ℤ :=
  if order1.id = order2.id then 0
  else if order1.type ≠ order2.type then 1
  else
    let cmp :=
      match order1.side with
      | .ask => mpd.cmp order1.price order2.price
      | .bid => mpd.cmp order2.price order1.price
    if cmp ≠ 0 then cmp
    else if order1.id > order2.id then 1
    else -1

def orderIdCompare (order1 order2 : Order D) : ℤ :=
  if order1.id = order2.id then 0
  else if order1.id > order2.id then -1
  else 1

/-- `order_match_compare` on pointers. -/
def Market.matchCompare (m : Market D) (i j : ℕ) : ℤ :=
  orderMatchCompare mpd (m.order i) (m.order j)

/-- `order_id_compare` on pointers. -/
def Market.idCompare (m : Market D) (i j : ℕ) : ℤ := orderIdCompare (m.order i) (m.order j)

/-- `skiplist_find`, then `skiplist_delete` of the node found. -/
def skiplistRemove (cmp : ℕ → ℕ → ℤ) (l : List ℕ) (id : ℕ) : List ℕ :=
  match chainFind cmp l id with
  | some node => chainDelete cmp l node
  | none => l

/-! ## Resting and finishing -/

/-- Enter an order in the list of its user; `none` where `order_put` returns early. -/
def Market.putUser (m : Market D) (order : Order D) : Option (Dict ℕ (List ℕ)) :=
  (chainInsert m.idCompare ((m.users.find order.userId).getD []) order.id).map
    fun orderList => m.users.insert order.userId orderList

/-- What an order freezes when it comes to rest. -/
def restFreeze (order : Order D) : D :=
  match order.side with
  | .ask => order.left
  | .bid => mpd.mul order.price order.left

/-- An early return leaves the containers written so far as they are. -/
def orderPut (s : Statics D) (m : Market D) (order : Order D) : Statics D × Market D :=
  if order.type ≠ .limit then (s, m)
  else if order.id ∈ m.orders then (s, m)
  else
    let m := m.addOrder order
    match m.putUser order with
    | none => (s, m)
    | some users =>
      let m := m.setUsers users
      match chainInsert (m.matchCompare mpd) (m.book order.side) order.id with
      | none => (s, m)
      | some ids =>
        let freeze := restFreeze mpd order
        let m := (m.setBook order.side ids).setOrder order.id { order with freeze := freeze }
        (s.call mpd (.freeze order.userId (m.giveAsset order.side) freeze), m)

/-- Take an order out of the dictionary and of the list of its user. -/
def Market.dropOrder (m : Market D) (order : Order D) : Market D :=
  { m with
    orders := m.orders.erase order.id
    users :=
      match m.users.find order.userId with
      | some orderList =>
        m.users.insert order.userId (skiplistRemove m.idCompare orderList order.id)
      | none => m.users }

/-- The call `order_finish` makes when the order still freezes something. -/
def Market.unfreezeCall (m : Market D) (id : ℕ) : BalanceCall D :=
  .unfreeze (m.order id).userId (m.giveAsset (m.order id).side) (m.order id).freeze

/-- Whether the order still freezes something. -/
def Market.frozen (m : Market D) (id : ℕ) : Bool := mpd.cmp (m.order id).freeze mpd.zero > 0

/-- Whether `order_finish` returns early, its `balance_unfreeze` having failed. -/
def orderStuck (s : Statics D) (m : Market D) (id : ℕ) : Bool :=
  m.frozen mpd id && !s.ledger.accepts mpd (m.unfreezeCall id)

/-- Take an order off its side. -/
def Market.unbook (m : Market D) (id : ℕ) : Market D :=
  let side := (m.order id).side
  m.setBook side (skiplistRemove (m.matchCompare mpd) (m.book side) id)

/-- After an early return the order has left its side of the book, and nothing else. -/
def orderFinish (s : Statics D) (m : Market D) (id : ℕ) : Statics D × Market D :=
  let order := m.order id
  if orderStuck mpd s m id then (s.call mpd (m.unfreezeCall id), m.unbook mpd id)
  else
    let s := if m.frozen mpd id then s.call mpd (m.unfreezeCall id) else s
    let s := if mpd.cmp order.dealStock mpd.zero > 0 then s.append real (.order order) else s
    (s, (m.unbook mpd id).dropOrder order)

/-! ## Trades -/

/-- What one party of a trade gives, gets and pays as a fee. -/
structure Leg (D : Type) where
  giveType : BalanceType
  giveAsset : String
  give : D
  getAsset : String
  get : D
  feeAsset : String
  fee : D
  feeRate : D

def askLeg (m : Market D) (t : Terms D) (giveType : BalanceType) (feeRate : D) : Leg D where
  giveType := giveType
  giveAsset := m.stock
  give := t.amount
  getAsset := m.money
  get := t.deal
  feeAsset := m.money
  fee := t.askFee
  feeRate := feeRate

def bidLeg (m : Market D) (bidFeeAsset : String) (t : Terms D) (giveType : BalanceType)
    (feeRate : D) : Leg D where
  giveType := giveType
  giveAsset := m.money
  give := t.deal
  getAsset := m.stock
  get := t.amount
  feeAsset := bidFeeAsset
  fee := t.bidFee
  feeRate := feeRate

/-- The leg of the party on a side. -/
def partyLeg (m : Market D) (bidFeeAsset : String) (t : Terms D) (side : OrderSide)
    (giveType : BalanceType) (feeRate : D) : Leg D :=
  match side with
  | .ask => askLeg m t giveType feeRate
  | .bid => bidLeg m bidFeeAsset t giveType feeRate

/-- The balance calls of one party, each followed by its history row. -/
def payLeg (s : Statics D) (order : Order D) (t : Terms D) (leg : Leg D) : Statics D :=
  let s := s.call mpd (.sub order.userId leg.giveType leg.giveAsset leg.give)
  let s := s.appendBalanceTradeSub mpd real order leg.giveAsset leg.give t.price t.amount
  let s := s.call mpd (.add order.userId .available leg.getAsset leg.get)
  let s := s.appendBalanceTradeAdd mpd real order leg.getAsset leg.get t.price t.amount
  if mpd.cmp leg.fee mpd.zero > 0 then
    let s := s.call mpd (.sub order.userId .available leg.feeAsset leg.fee)
    s.appendBalanceTradeFee mpd real order leg.feeAsset leg.fee t.price t.amount leg.feeRate
  else s

/-- The fields of an order after a trade that takes `spent` off its `left`. -/
def Order.fill (order : Order D) (t : Terms D) (spent fee : D) : Order D :=
  { order with
    left := mpd.sub order.left spent
    dealStock := mpd.add order.dealStock t.amount
    dealMoney := mpd.add order.dealMoney t.deal
    dealFee := mpd.add order.dealFee fee }

/-- What the body of an `execute_*` loop does with a maker: stop, or trade. -/
inductive Quote (D : Type)
  | stop
  | trade (terms : Terms D)

/-- The differences between the four `execute_*` functions. -/
structure Matching (D : Type) where
  /-- The side of the taker. -/
  side : OrderSide
  bidFeeAsset : Market D → String
  /-- What a trade takes off the taker's `left`. -/
  spend : Terms D → D
  /-- `none` when the size of the trade is never found. -/
  quote : Market D → Order D → Order D → Option (Quote D)

namespace Matching

variable (x : Matching D) (m : Market D)

def takerLeg (taker : Order D) (t : Terms D) : Leg D :=
  partyLeg m (x.bidFeeAsset m) t x.side .available taker.takerFee

def makerLeg (maker : Order D) (t : Terms D) : Leg D :=
  partyLeg m (x.bidFeeAsset m) t x.side.opposite .freeze maker.makerFee

/-- The taker after a trade. -/
def fillTaker (taker : Order D) (t : Terms D) : Order D :=
  taker.fill mpd t (x.spend t) (x.takerLeg m taker t).fee

/-- The maker after a trade: what it gave was frozen. -/
def fillMaker (maker : Order D) (t : Terms D) : Order D :=
  { maker.fill mpd t t.amount (x.makerLeg m maker t).fee with
    freeze := mpd.sub maker.freeze (x.makerLeg m maker t).give }

/-- The deal as it is recorded and published, with the ask first. -/
def reportDeal (s : Statics D) (taker maker : Order D) (t : Terms D) (dealId : ℕ) : Statics D :=
  match x.side with
  | .ask =>
    (s.append real (.deal dealId taker .taker maker .maker t)).push real
      (.deal m.name taker maker t .ask dealId m.stock m.money)
  | .bid =>
    (s.append real (.deal dealId maker .maker taker .taker t)).push real
      (.deal m.name maker taker t .bid dealId m.stock m.money)

end Matching

structure Execution (D : Type) where
  statics : Statics D
  market : Market D
  taker : Order D

/-- Take the next order id. -/
def Statics.openOrder (s : Statics D) : Statics D := { s with orderIdStart := s.orderIdStart + 1 }

/-- Take the next deal id. -/
def Statics.openDeal (s : Statics D) (trade : Trade D) : Statics D :=
  { s with dealsIdStart := s.dealsIdStart + 1, trades := s.trades ++ [trade] }

/-- The deal id is taken, the deal reported, and both parties pay. -/
def payTrade (x : Matching D) (e : Execution D) (id : ℕ) (t : Terms D) : Statics D :=
  let m := e.market
  let maker := m.order id
  let s := e.statics.openDeal ⟨t, m.money, x.bidFeeAsset m⟩
  let s := x.reportDeal real m s e.taker maker t s.dealsIdStart
  let s := payLeg mpd real s e.taker t (x.takerLeg m e.taker t)
  payLeg mpd real s maker t (x.makerLeg m maker t)

/-- The end of the loop body: a maker with nothing left is finished. -/
def settleMaker (s : Statics D) (m : Market D) (id : ℕ) (maker : Order D) :
    Statics D × Market D :=
  let m := m.setOrder id maker
  if mpd.cmp maker.left mpd.zero = 0 then
    orderFinish mpd real (s.push real (.order .finish maker m.stock m.money)) m id
  else (s.push real (.order .update maker m.stock m.money), m)

/-- One trade with the maker `id`. -/
def executeTrade (x : Matching D) (e : Execution D) (id : ℕ) (t : Terms D) : Execution D :=
  let maker := x.fillMaker mpd e.market (e.market.order id) t
  let (s, m) := settleMaker mpd real (payTrade mpd real x e id t) e.market id maker
  ⟨s, m, x.fillTaker mpd e.market e.taker t⟩

def executeLoop (x : Matching D) : List ℕ → Execution D → Option (Execution D)
  | [], e => some e
  | id :: ids, e =>
    if mpd.cmp e.taker.left mpd.zero = 0 then some e
    else
      match x.quote e.market e.taker (e.market.order id) with
      | none => none
      | some .stop => some e
      | some (.trade t) => executeLoop x ids (executeTrade mpd real x e id t)

/-- Match the taker of `e` against the opposite side. -/
def Matching.execute (x : Matching D) (e : Execution D) : Option (Execution D) :=
  executeLoop mpd real x (e.market.book x.side.opposite) e

/-! ## The four kinds of taker -/

/-- The smaller of the two amounts left. -/
def tradeAmount (taker maker : Order D) : D :=
  if mpd.cmp taker.left maker.left < 0 then taker.left else maker.left

/-- The terms of a trade of `amount` at the maker's price. -/
def termsOf (maker : Order D) (amount : D) (askFee bidFee : D → D) : Terms D :=
  let deal := mpd.mul maker.price amount
  ⟨maker.price, amount, deal, askFee deal, bidFee deal⟩

def limitAsk : Matching D where
  side := .ask
  bidFeeAsset m := m.money
  spend t := t.amount
  quote _ taker maker :=
    if mpd.cmp taker.price maker.price > 0 then some .stop
    else
      some (.trade (termsOf mpd maker (tradeAmount mpd taker maker)
        (fun deal => mpd.mul deal taker.takerFee) (fun deal => mpd.mul deal maker.makerFee)))

def limitBid : Matching D where
  side := .bid
  bidFeeAsset m := m.money
  spend t := t.amount
  quote _ taker maker :=
    if mpd.cmp taker.price maker.price < 0 then some .stop
    else
      some (.trade (termsOf mpd maker (tradeAmount mpd taker maker)
        (fun deal => mpd.mul deal maker.makerFee) (fun deal => mpd.mul deal taker.takerFee)))

def marketAsk : Matching D where
  side := .ask
  bidFeeAsset m := m.stock
  spend t := t.amount
  quote _ taker maker :=
    let amount := tradeAmount mpd taker maker
    some (.trade (termsOf mpd maker amount
      (fun deal => mpd.mul deal taker.takerFee) (fun _ => mpd.mul amount maker.makerFee)))

/-- The inner loop of `execute_market_bid_order`: go down one tick until `left` pays for it. -/
def sizeDown (stockPrec : ℕ) (left price : D) : ℕ → D → Option D
  | 0, _ => none
  | fuel + 1, amount =>
    if mpd.cmp (mpd.mul amount price) left > 0 then
      sizeDown stockPrec left price fuel (mpd.sub amount (mpd.powTen (-stockPrec)))
    else some amount

def marketBid : Matching D where
  side := .bid
  bidFeeAsset m := m.stock
  spend t := t.deal
  quote m taker maker :=
    let amount := mpd.rescale (mpd.div taker.left maker.price) (-m.stockPrec)
    (sizeDown mpd m.stockPrec taker.left maker.price mpd.fuel amount).map fun amount =>
      let amount := if mpd.cmp amount maker.left > 0 then maker.left else amount
      if mpd.cmp amount mpd.zero = 0 then .stop
      else
        .trade (termsOf mpd maker amount
          (fun deal => mpd.mul deal maker.makerFee) (fun _ => mpd.mul amount taker.takerFee))

def executeLimitAskOrder (e : Execution D) : Option (Execution D) :=
  (limitAsk mpd).execute mpd real e

def executeLimitBidOrder (e : Execution D) : Option (Execution D) :=
  (limitBid mpd).execute mpd real e

def executeMarketAskOrder (e : Execution D) : Option (Execution D) :=
  (marketAsk mpd).execute mpd real e

def executeMarketBidOrder (e : Execution D) : Option (Execution D) :=
  (marketBid mpd).execute mpd real e

/-! ## Putting and cancelling orders -/

/-- What a request function returns: its code, the state it leaves, and the order its reply
shows. -/
structure Outcome (D : Type) where
  ret : ℤ
  statics : Statics D
  market : Market D
  result : Option (Order D)

/-- A refused request. -/
def refuse (ret : ℤ) (s : Statics D) (m : Market D) : Outcome D := ⟨ret, s, m, none⟩

/-- The order a reply shows, in a real run. -/
def showOrder (order : Order D) : Option (Order D) := if real then some order else none

def newOrder (id : ℕ) (type : OrderType) (m : Market D) (userId : ℕ) (side : OrderSide)
    (price amount takerFee makerFee : D) (source : String) : Order D where
  id := id
  type := type
  side := side
  userId := userId
  market := m.name
  source := some source
  price := price
  amount := amount
  takerFee := takerFee
  makerFee := makerFee
  left := amount
  freeze := mpd.zero
  dealStock := mpd.zero
  dealMoney := mpd.zero
  dealFee := mpd.zero

/-- The balance check at the head of the two `market_put_*` functions. -/
def hasAvailable (s : Statics D) (userId : ℕ) (asset : String) (require : D) : Bool :=
  match balanceGet s.ledger.dictBalance userId .available asset with
  | some balance => !(mpd.cmp balance require < 0)
  | none => false

/-- What a limit order has to have available. -/
def limitRequire (side : OrderSide) (amount price : D) : D :=
  match side with
  | .ask => amount
  | .bid => mpd.mul amount price

def executeLimitOrder (e : Execution D) : Option (Execution D) :=
  match e.taker.side with
  | .ask => executeLimitAskOrder mpd real e
  | .bid => executeLimitBidOrder mpd real e

def executeMarketOrder (e : Execution D) : Option (Execution D) :=
  match e.taker.side with
  | .ask => executeMarketAskOrder mpd real e
  | .bid => executeMarketBidOrder mpd real e

/-- The end of `market_put_limit_order`: report a filled order, or let it rest. -/
def restLimitOrder (e : Execution D) : Outcome D :=
  let order := e.taker
  let m := e.market
  if mpd.cmp order.left mpd.zero = 0 then
    let s := e.statics.append real (.order order)
    ⟨0, s.push real (.order .finish order m.stock m.money), m, showOrder real order⟩
  else
    let s := e.statics.push real (.order .put order m.stock m.money)
    let (s, m) := orderPut mpd s m order
    ⟨0, s, m, showOrder real order⟩

/-- `none` when the matching never ends. -/
def marketPutLimitOrder (s : Statics D) (m : Market D) (userId : ℕ) (side : OrderSide)
    (amount price takerFee makerFee : D) (source : String) : Option (Outcome D) :=
  if !hasAvailable mpd s userId (m.giveAsset side) (limitRequire mpd side amount price) then
    some (refuse (-1) s m)
  else if mpd.cmp amount m.minAmount < 0 then some (refuse (-2) s m)
  else
    let s := s.openOrder
    let order :=
      newOrder mpd s.orderIdStart .limit m userId side price amount takerFee makerFee source
    (executeLimitOrder mpd real ⟨s, m, order⟩).map (restLimitOrder mpd real)

/-- The least amount a market order may have, given the best maker. -/
def marketRequire (m : Market D) (side : OrderSide) (best : Order D) : D :=
  match side with
  | .ask => m.minAmount
  | .bid => mpd.mul best.price m.minAmount

/-- The end of `market_put_market_order`: what is left of the order is dropped. -/
def closeMarketOrder (e : Execution D) : Outcome D :=
  let order := e.taker
  let m := e.market
  let s := e.statics.append real (.order order)
  ⟨0, s.push real (.order .finish order m.stock m.money), m, showOrder real order⟩

def marketPutMarketOrder (s : Statics D) (m : Market D) (userId : ℕ) (side : OrderSide)
    (amount takerFee : D) (source : String) : Option (Outcome D) :=
  if !hasAvailable mpd s userId (m.giveAsset side) amount then some (refuse (-1) s m)
  else
    match m.book side.opposite with
    | [] => some (refuse (-3) s m)
    | best :: _ =>
      if mpd.cmp amount (marketRequire mpd m side (m.order best)) < 0 then
        some (refuse (-2) s m)
      else
        let s := s.openOrder
        let order :=
          newOrder mpd s.orderIdStart .market m userId side mpd.zero amount takerFee mpd.zero source
        (executeMarketOrder mpd real ⟨s, m, order⟩).map (closeMarketOrder real)

def marketCancelOrder (s : Statics D) (m : Market D) (id : ℕ) : Outcome D :=
  let order := m.order id
  let s := s.push real (.order .finish order m.stock m.money)
  let (s, m) := orderFinish mpd real s m id
  ⟨0, s, m, showOrder real order⟩

/-- `market_get_order`. -/
def marketGetOrder (m : Market D) (id : ℕ) : Option ℕ := if id ∈ m.orders then some id else none

/-- `market_get_order_list`. -/
def marketGetOrderList (m : Market D) (userId : ℕ) : Option (List ℕ) := m.users.find userId

/-- `none` where the source returns `NULL`. -/
def marketCreate (dictAsset : Dict String AssetType) (conf : MarketConf D) : Option (Market D) :=
  if !assetExist dictAsset conf.stock || !assetExist dictAsset conf.money then none
  else if (conf.stockPrec + conf.moneyPrec : ℤ) > assetPrec dictAsset conf.money then none
  else if (conf.stockPrec + conf.feePrec : ℤ) > assetPrec dictAsset conf.stock then none
  else if (conf.moneyPrec + conf.feePrec : ℤ) > assetPrec dictAsset conf.money then none
  else
    some
      { name := conf.name
        stock := conf.stock
        money := conf.money
        stockPrec := conf.stockPrec
        moneyPrec := conf.moneyPrec
        feePrec := conf.feePrec
        minAmount := conf.minAmount
        order := fun _ =>
          { id := 0, type := .limit, side := .ask, userId := 0, market := conf.name, source := none
            price := mpd.zero, amount := mpd.zero, takerFee := mpd.zero, makerFee := mpd.zero
            left := mpd.zero, freeze := mpd.zero, dealStock := mpd.zero, dealMoney := mpd.zero
            dealFee := mpd.zero }
        orders := ∅
        users := ∅
        asks := []
        bids := [] }

end Market

end ViabtcExchange
