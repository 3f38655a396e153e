import ViabtcExchange.Market
import ViabtcExchange.Update

/-!
# The engine (`me_server.c`, `me_trade.c`)

The whole state of the matching engine, and what a request does to it once its parameters have
been read. `Engine.request` gives the code of the request and the state after it, or nothing when
the matching never ends; a request is accepted when its code is zero.
-/

namespace ViabtcExchange

structure Engine (D : Type) where
  statics : Statics D
  dictMarket : Dict String (Market D)
  dictUpdate : Dict UpdateKey ℚ

structure LimitArgs (D : Type) where
  userId : ℕ
  market : String
  side : OrderSide
  amount : D
  price : D
  takerFee : D
  makerFee : D
  source : String

structure MarketArgs (D : Type) where
  userId : ℕ
  market : String
  side : OrderSide
  amount : D
  takerFee : D
  source : String

structure CancelArgs where
  userId : ℕ
  market : String
  orderId : ℕ

/-- A request whose parameters have been read, or the minute timer of `me_update.c`. -/
inductive Op (D : Type)
  | updateBalance (args : UpdateArgs D) (padding : ℕ) (now : ℚ)
  | limitOrder (args : LimitArgs D)
  | marketOrder (args : MarketArgs D)
  | cancelOrder (args : CancelArgs)
  | expire (now : ℚ)

section Engine

variable {D : Type} (mpd : Mpd D) (real : Bool)

/-- A fee rate in [0, 1). -/
def feeRateOk (fee : D) : Bool :=
  !(mpd.cmp fee mpd.zero < 0 || mpd.cmp fee mpd.one ≥ 0)

namespace Engine

/-- Write back a market and the file-scope variables. -/
def put (e : Engine D) (name : String) (s : Statics D) (m : Market D) : Engine D :=
  { e with statics := s, dictMarket := e.dictMarket.insert name m }

/-- The state after `market_put_limit_order` or `market_put_market_order`. -/
def finish (e : Engine D) (name : String) (o : Outcome D) : ℤ × Engine D :=
  (o.ret, e.put name o.statics o.market)

/-- An argument error, answered before anything is done. -/
def invalidArgument (e : Engine D) : ℤ × Engine D := (1, e)

def updateBalance (e : Engine D) (args : UpdateArgs D) (padding : ℕ) (now : ℚ) : ℤ × Engine D :=
  let (ret, s, d) := updateUserBalance mpd real e.statics e.dictUpdate args padding now
  (ret, { e with statics := s, dictUpdate := d })

def putLimit (e : Engine D) (args : LimitArgs D) : Option (ℤ × Engine D) :=
  match e.dictMarket.find args.market with
  | none => some e.invalidArgument
  | some m =>
    if mpd.cmp args.amount mpd.zero ≤ 0 ∨ mpd.cmp args.price mpd.zero ≤ 0 ∨
        !feeRateOk mpd args.takerFee ∨ !feeRateOk mpd args.makerFee then some e.invalidArgument
    else
      (marketPutLimitOrder mpd real e.statics m args.userId args.side args.amount args.price
        args.takerFee args.makerFee args.source).map (e.finish args.market)

def putMarket (e : Engine D) (args : MarketArgs D) : Option (ℤ × Engine D) :=
  match e.dictMarket.find args.market with
  | none => some e.invalidArgument
  | some m =>
    if mpd.cmp args.amount mpd.zero ≤ 0 ∨ !feeRateOk mpd args.takerFee then
      some e.invalidArgument
    else
      (marketPutMarketOrder mpd real e.statics m args.userId args.side args.amount args.takerFee
        args.source).map (e.finish args.market)

/-- Codes 10 and 11: no such order, or not an order of the user. -/
def cancel (e : Engine D) (args : CancelArgs) : ℤ × Engine D :=
  match e.dictMarket.find args.market with
  | none => e.invalidArgument
  | some m =>
    match marketGetOrder m args.orderId with
    | none => (10, e)
    | some id =>
      if (m.order id).userId ≠ args.userId then (11, e)
      else e.finish args.market (marketCancelOrder mpd real e.statics m id)

def request (e : Engine D) : Op D → Option (ℤ × Engine D)
  | .updateBalance args padding now => some (e.updateBalance mpd real args padding now)
  | .limitOrder args => e.putLimit mpd real args
  | .marketOrder args => e.putMarket mpd real args
  | .cancelOrder args => some (e.cancel mpd real args)
  | .expire now => some (0, { e with dictUpdate := expireUpdates e.dictUpdate now })

/-- The state after an accepted request. -/
def step (e : Engine D) (op : Op D) : Option (Engine D) :=
  match e.request mpd real op with
  | some (0, e) => some e
  | _ => none

/-- The state after a list of accepted requests. -/
def run (e : Engine D) (ops : List (Op D)) : Option (Engine D) := ops.foldlM (step mpd real) e

end Engine

/-- `none` where `init_trade` fails. A second market of one name is created and forgotten. -/
def initTrade (dictAsset : Dict String AssetType) :
    List (MarketConf D) → Dict String (Market D) → Option (Dict String (Market D))
  | [], dictMarket => some dictMarket
  | conf :: confs, dictMarket =>
    match marketCreate mpd dictAsset conf with
    | none => none
    | some m =>
      initTrade dictAsset confs
        (if conf.name ∈ dictMarket then dictMarket else dictMarket.insert conf.name m)

/-- The engine before its first request: no balances and empty books. -/
def Engine.init (dictAsset : Dict String AssetType) (confs : List (MarketConf D)) :
    Option (Engine D) :=
  (initTrade mpd dictAsset confs ∅).map fun dictMarket =>
    { statics :=
        { ledger := ⟨dictAsset, ∅, []⟩
          orderIdStart := 0
          dealsIdStart := 0
          trades := []
          history := []
          messages := [] }
      dictMarket := dictMarket
      dictUpdate := ∅ }

end Engine

end ViabtcExchange
