import ViabtcExchange.Engine
import ViabtcExchange.Operlog

/-!
# The request handlers (`me_server.c`)

A request is an array of JSON values. A handler reads its parameters one by one and answers
"invalid argument" at the first that will not do; then it calls the engine, answers the error the
engine returns, or appends the request to the operation log and answers with the result.

The parameters are read the same way once more when the log is replayed (`me_load.c`), up to the
precision of an amount and the length of a source, so the readers are shared. `Refusal.unknown` is
an asset or a market that is not configured, which the replay passes over.

What the handlers cannot see is an argument: the padding of the key of an update, and the time.
The clock is read once a request.
-/

namespace ViabtcExchange

/-! ## Reading parameters -/

inductive Refusal
  | invalid
  | unknown
deriving DecidableEq, Repr

/-- The `int` of a number. -/
def toInt32 (n : ℤ) : ℤ := n.bmod (2 ^ 32)

def toUint32 (n : ℤ) : ℕ := (n % 2 ^ 32).toNat

def toUint64 (n : ℤ) : ℕ := (n % 2 ^ 64).toNat

section Read

variable {D : Type} (mpd : Mpd D) (params : List Json)

/-- Go on only if a check of the source succeeds. -/
def check (ok : Bool) : Except Refusal Unit := if ok then .ok () else .error .invalid

def integerAt (i : ℕ) : Except Refusal ℤ :=
  match params[i]? with
  | some (.integer n) => .ok n
  | _ => .error .invalid

def stringAt (i : ℕ) : Except Refusal String :=
  match params[i]? with
  | some (.string s) => .ok s
  | _ => .error .invalid

def objectAt (i : ℕ) : Except Refusal (List (String × Json)) :=
  match params[i]? with
  | some (.object kvs) => .ok kvs
  | _ => .error .invalid

def decimalAt (prec i : ℕ) : Except Refusal D := do
  match mpd.decimal (← stringAt params i) prec with
  | some x => .ok x
  | none => .error .invalid

/-- An amount or a price. -/
def positiveAt (prec i : ℕ) : Except Refusal D := do
  let x ← decimalAt mpd params prec i
  check (!(mpd.cmp x mpd.zero ≤ 0))
  return x

def feeAt (prec i : ℕ) : Except Refusal D := do
  let x ← decimalAt mpd params prec i
  check (feeRateOk mpd x)
  return x

/-- `MARKET_ORDER_SIDE_ASK` and `MARKET_ORDER_SIDE_BID`. -/
def sideAt (i : ℕ) : Except Refusal OrderSide := do
  match toUint32 (← integerAt params i) with
  | 1 => .ok .ask
  | 2 => .ok .bid
  | _ => .error .invalid

/-- `get_market`. -/
def marketAt (dictMarket : Dict String (Market D)) (i : ℕ) : Except Refusal (String × Market D) := do
  let name ← stringAt params i
  match dictMarket.find name with
  | some m => .ok (name, m)
  | none => .error .unknown

/-- An asset, and its precision as the caller asks for it. -/
def assetAt (precOf : String → ℤ) (i : ℕ) : Except Refusal (String × ℕ) := do
  let asset ← stringAt params i
  if precOf asset < 0 then .error .unknown else .ok (asset, (precOf asset).toNat)

def readUpdateBalance (precOf : String → ℤ) : Except Refusal (UpdateArgs D) := do
  check (params.length = 6)
  let userId ← integerAt params 0
  let (asset, prec) ← assetAt params precOf 1
  let business ← stringAt params 2
  let businessId ← integerAt params 3
  let change ← decimalAt mpd params prec 4
  let detail ← objectAt params 5
  return ⟨toUint32 userId, asset, business, toUint64 businessId, change, detail⟩

def readLimitOrder (dictMarket : Dict String (Market D)) :
    Except Refusal (Market D × LimitArgs D) := do
  check (params.length = 8)
  let userId ← integerAt params 0
  let (name, m) ← marketAt params dictMarket 1
  let side ← sideAt params 2
  let amount ← positiveAt mpd params m.stockPrec 3
  let price ← positiveAt mpd params m.moneyPrec 4
  let takerFee ← feeAt mpd params m.feePrec 5
  let makerFee ← feeAt mpd params m.feePrec 6
  let source ← stringAt params 7
  return (m, ⟨toUint32 userId, name, side, amount, price, takerFee, makerFee, source⟩)

def readMarketOrder (dictMarket : Dict String (Market D)) :
    Except Refusal (Market D × MarketArgs D) := do
  check (params.length = 6)
  let userId ← integerAt params 0
  let (name, m) ← marketAt params dictMarket 1
  let side ← sideAt params 2
  let amount ← positiveAt mpd params m.stockPrec 3
  let takerFee ← feeAt mpd params m.feePrec 4
  let source ← stringAt params 5
  return (m, ⟨toUint32 userId, name, side, amount, takerFee, source⟩)

def readCancelOrder (dictMarket : Dict String (Market D)) :
    Except Refusal (Market D × CancelArgs) := do
  check (params.length = 3)
  let userId ← integerAt params 0
  let (name, m) ← marketAt params dictMarket 1
  let orderId ← integerAt params 2
  return (m, ⟨toUint32 userId, name, toUint64 orderId⟩)

end Read

/-! ## Replies -/

inductive Reply (D : Type)
  | error (code : ℤ) (message : String)
  | success
  | result (order : Option (Order D))

namespace Reply

variable {D : Type}

def invalidArgument : Reply D := .error 1 "invalid argument"

def internalError : Reply D := .error 2 "internal error"

def serviceUnavailable : Reply D := .error 3 "service unavailable"

def isError : Reply D → Bool
  | .error _ _ => true
  | _ => false

/-- A handler tells the codes of some errors apart; the others are internal errors. -/
def ofCode (told : List (ℤ × Reply D)) (ret : ℤ) : Option (Reply D) :=
  match told.lookup ret with
  | some reply => some reply
  | none => if ret < 0 then some internalError else none

def ofUpdate : ℤ → Option (Reply D) :=
  ofCode [(-1, .error 10 "repeat update"), (-2, .error 11 "balance not enough")]

def ofLimit : ℤ → Option (Reply D) :=
  ofCode [(-1, .error 10 "balance not enough"), (-2, .error 11 "amount too small")]

def ofMarket : ℤ → Option (Reply D) :=
  ofCode [(-1, .error 10 "balance not enough"), (-2, .error 11 "amount too small"),
    (-3, .error 12 "no enough trader")]

def ofCancel : ℤ → Option (Reply D) := ofCode []

end Reply

/-! ## The handlers -/

/-- The engine, and the operation log it writes. -/
structure Server (D : Type) where
  engine : Engine D
  operlog : Operlog Json

/-- The JSON object `append_operlog` writes. -/
def operDetail (method : String) (params : List Json) : Json :=
  .object [("method", .string method), ("params", .array params)]

/-- `SOURCE_MAX_LEN`. -/
def sourceMaxLen : ℕ := 31

namespace Server

variable {D : Type} (mpd : Mpd D) (s : Server D) (params : List Json)

def appendOperlog (s : Server D) (method : String) (params : List Json) (now : ℚ) : Server D :=
  { s with operlog := s.operlog.append now (operDetail method params) }

/-- The end of a handler: answer the error, or log the request and answer the result. -/
def conclude (s : Server D) (error : Option (Reply D)) (method : String) (params : List Json)
    (now : ℚ) (reply : Reply D) : Reply D × Server D :=
  match error with
  | some error => (error, s)
  | none => (reply, s.appendOperlog method params now)

/-- What a call of the matching engine leaves. -/
def leave (s : Server D) (name : String) (o : Outcome D) : Server D :=
  { s with engine := s.engine.put name o.statics o.market }

/-- `update_user_balance` has set the member "id" of the detail when the request is logged. -/
def onCmdBalanceUpdate (padding : ℕ) (now : ℚ) : Reply D × Server D :=
  match readUpdateBalance mpd params (assetPrecShow s.engine.statics.ledger.dictAsset) with
  | .error _ => (.invalidArgument, s)
  | .ok args =>
    let (ret, e) := s.engine.updateBalance mpd true args padding now
    { s with engine := e }.conclude (Reply.ofUpdate ret) "update_balance"
      (params.set 5 (.object (setId args.detail args.businessId))) now .success

/-- `none` when the matching never ends. -/
def onCmdOrderPutLimit (now : ℚ) : Option (Reply D × Server D) :=
  match readLimitOrder mpd params s.engine.dictMarket with
  | .error _ => some (.invalidArgument, s)
  | .ok (m, args) =>
    if args.source.utf8ByteSize ≥ sourceMaxLen then some (.invalidArgument, s)
    else
      (marketPutLimitOrder mpd true s.engine.statics m args.userId args.side args.amount
          args.price args.takerFee args.makerFee args.source).map fun o =>
        (s.leave args.market o).conclude (Reply.ofLimit o.ret) "limit_order" params now
          (.result o.result)

def onCmdOrderPutMarket (now : ℚ) : Option (Reply D × Server D) :=
  match readMarketOrder mpd params s.engine.dictMarket with
  | .error _ => some (.invalidArgument, s)
  | .ok (m, args) =>
    if args.source.utf8ByteSize ≥ sourceMaxLen then some (.invalidArgument, s)
    else
      (marketPutMarketOrder mpd true s.engine.statics m args.userId args.side args.amount
          args.takerFee args.source).map fun o =>
        (s.leave args.market o).conclude (Reply.ofMarket o.ret) "market_order" params now
          (.result o.result)

def onCmdOrderCancel (now : ℚ) : Reply D × Server D :=
  match readCancelOrder params s.engine.dictMarket with
  | .error _ => (.invalidArgument, s)
  | .ok (m, args) =>
    match marketGetOrder m args.orderId with
    | none => (.error 10 "order not found", s)
    | some id =>
      if (m.order id).userId ≠ args.userId then (.error 11 "user not match", s)
      else
        let o := marketCancelOrder mpd true s.engine.statics m id
        (s.leave args.market o).conclude (Reply.ofCancel o.ret) "cancel_order" params now
          (.result o.result)

end Server

/-- The commands that change the engine. -/
inductive Command
  | balanceUpdate
  | orderPutLimit
  | orderPutMarket
  | orderCancel
deriving DecidableEq, Repr

/-- The name of a request in the operation log. -/
def Command.method : Command → String
  | .balanceUpdate => "update_balance"
  | .orderPutLimit => "limit_order"
  | .orderPutMarket => "market_order"
  | .orderCancel => "cancel_order"

/-- `svr_on_recv_pkg`, for these commands. `blocked` is whether one of the queues of the operation
log, the history and the messages is too long. -/
def Server.onRecvPkg {D : Type} (mpd : Mpd D) (s : Server D) (blocked : Bool) (command : Command)
    (params : List Json) (padding : ℕ) (now : ℚ) : Option (Reply D × Server D) :=
  if blocked then some (.serviceUnavailable, s)
  else
    match command with
    | .balanceUpdate => some (s.onCmdBalanceUpdate mpd params padding now)
    | .orderPutLimit => s.onCmdOrderPutLimit mpd params now
    | .orderPutMarket => s.onCmdOrderPutMarket mpd params now
    | .orderCancel => some (s.onCmdOrderCancel mpd params now)

/-- What the process handles: a request, or the timer of `me_update.c`. -/
inductive Event
  | request (blocked : Bool) (command : Command) (params : List Json) (padding : ℕ) (now : ℚ)
  | expire (now : ℚ)

namespace Server

variable {D : Type} (mpd : Mpd D)

def handle (s : Server D) : Event → Option (Server D)
  | .request blocked command params padding now =>
    (s.onRecvPkg mpd blocked command params padding now).map Prod.snd
  | .expire now =>
    some { s with
      engine := { s.engine with dictUpdate := expireUpdates s.engine.dictUpdate now } }

def run (s : Server D) (events : List Event) : Option (Server D) := events.foldlM (handle mpd) s

end Server

end ViabtcExchange
