import ViabtcExchange.Server
import ViabtcExchange.Slice

/-!
# Recovery (`me_load.c`, `me_persist.c`)

At its start the process reads the newest slice and then replays the operation log behind it. An
entry is read as the handlers read a request and handed to the engine in a run that is not real.
What is negative in the source, and means a failure, is -1 here.

`initFromDb` is nothing where `init_from_db` fails, or where the matching never ends. The local
time and its inverse are parameters.
-/

namespace ViabtcExchange

/-- What the replay answers where a handler answers "invalid argument". -/
def Refusal.ret : Refusal → ℤ
  | .invalid => -1
  | .unknown => 0

/-- `json_object_get`. -/
def Json.get (v : Json) (key : String) : Option Json :=
  match v with
  | .object kvs => kvs.lookup key
  | _ => none

namespace Engine

variable {D : Type} (mpd : Mpd D) (e : Engine D)

/-! ## Replaying an entry -/

def loadUpdateBalance (params : List Json) (padding : ℕ) (now : ℚ) : ℤ × Engine D :=
  match readUpdateBalance mpd params (assetPrec e.statics.ledger.dictAsset) with
  | .error r => (r.ret, e)
  | .ok args =>
    let (ret, e) := e.updateBalance mpd false args padding now
    if ret < 0 then (-1, e) else (0, e)

def loadLimitOrder (params : List Json) : Option (ℤ × Engine D) :=
  match readLimitOrder mpd params e.dictMarket with
  | .error r => some (r.ret, e)
  | .ok (m, args) =>
    if args.source.utf8ByteSize > sourceMaxLen then some (-1, e)
    else
      (marketPutLimitOrder mpd false e.statics m args.userId args.side args.amount args.price
        args.takerFee args.makerFee args.source).map (e.finish args.market)

def loadMarketOrder (params : List Json) : Option (ℤ × Engine D) :=
  match readMarketOrder mpd params e.dictMarket with
  | .error r => some (r.ret, e)
  | .ok (m, args) =>
    if args.source.utf8ByteSize > sourceMaxLen then some (-1, e)
    else
      (marketPutMarketOrder mpd false e.statics m args.userId args.side args.amount args.takerFee
        args.source).map (e.finish args.market)

/-- The user is not looked at. -/
def loadCancelOrder (params : List Json) : ℤ × Engine D :=
  match readCancelOrder params e.dictMarket with
  | .error r => (r.ret, e)
  | .ok (m, args) =>
    match marketGetOrder m args.orderId with
    | none => (-1, e)
    | some id =>
      let (ret, e) := e.finish args.market (marketCancelOrder mpd false e.statics m id)
      if ret < 0 then (-1, e) else (0, e)

def loadOper (detail : Json) (padding : ℕ) (now : ℚ) : Option (ℤ × Engine D) :=
  match detail.get "method", detail.get "params" with
  | some (.string method), some (.array params) =>
    if method = "update_balance" then some (e.loadUpdateBalance mpd params padding now)
    else if method = "limit_order" then e.loadLimitOrder mpd params
    else if method = "market_order" then e.loadMarketOrder mpd params
    else if method = "cancel_order" then some (e.loadCancelOrder mpd params)
    else some (-1, e)
  | _, _ => some (-1, e)

/-- What the replay of one entry cannot see: the padding of a key, and the time. -/
structure Surroundings where
  padding : ℕ
  now : ℚ

/-- `load_oper` of the row of an operation, failing where the result is negative. -/
def load (env : ℕ → Surroundings) (e : Engine D) (row : ℕ × ℚ × Json) : Option (Engine D) :=
  match e.loadOper mpd row.2.2 (env row.1).padding (env row.1).now with
  | some (ret, e) => if ret < 0 then none else some e
  | none => none

end Engine

/-! ## Reading the log -/

section Log

variable {σ δ : Type} (load : σ → ℕ × ℚ × δ → Option σ)

/-- The body of the loop of `load_operlog`, with `last_id`. -/
def loadRow (s : σ × ℕ) (row : ℕ × ℚ × δ) : Option (σ × ℕ) :=
  if row.1 ≠ s.2 + 1 then none else (load s.1 row).map (·, row.1)

def loadOperlog (table : Table (ℚ × δ)) (s : σ × ℕ) : Option (σ × ℕ) :=
  (table.scan queryLimit queryLimit_pos (loadRow load) s.2 s).map Prod.fst

variable (localtime : ℤ → Tm) (db : Db δ)

/-- A table that does not exist is passed over. -/
def loadOperlogFromDb (date : ℤ) (s : σ × ℕ) : Option (σ × ℕ) :=
  match db.find (operlogTable (localtime date)) with
  | none => some s
  | some table => loadOperlog load table s

/-- The loop of `init_from_db`. -/
def loadDays (begin stop : ℤ) (s : σ × ℕ) : Option (σ × ℕ) :=
  if begin < stop then
    match loadOperlogFromDb load localtime db begin s with
    | none => none
    | some s => loadDays (begin + 86400) stop s
  else some s
termination_by (stop - begin).toNat

/-- Midnight in standard time: `tm_isdst` is zero. -/
def getTodayStart (mktime : Tm → ℤ) (now : ℤ) : ℤ := mktime (localtime now)

end Log

/-- The newest row of `slice_history`, and the tables of that slice. -/
structure SliceRow (D : Type) where
  time : ℤ
  endOperId : ℕ
  slice : Slice D

section Init

variable {D : Type} (mpd : Mpd D) (env : ℕ → Engine.Surroundings) (localtime : ℤ → Tm)
  (mktime : Tm → ℤ) (dictAsset : Dict String AssetType) (confs : List (MarketConf D))

/-- `init_from_db` of a new process: its engine, and `operlog_id_start`. -/
def initFromDb (db : Db Json) (last : Option (SliceRow D)) (now : ℤ) : Option (Engine D × ℕ) :=
  match last with
  | none =>
    (Engine.init mpd dictAsset confs).bind fun e =>
      loadOperlogFromDb (Engine.load mpd env) localtime db now (e, 0)
  | some row =>
    if row.time = 0 then
      (Engine.init mpd dictAsset confs).bind fun e =>
        loadOperlogFromDb (Engine.load mpd env) localtime db now
          (e.setIds row.slice.endOrderId row.slice.endDealsId, row.endOperId)
    else
      (Engine.restore mpd dictAsset confs row.slice).bind fun e =>
        loadDays (Engine.load mpd env) localtime db row.time
          (getTodayStart localtime mktime now + 86400) (e, row.endOperId)

end Init

end ViabtcExchange
