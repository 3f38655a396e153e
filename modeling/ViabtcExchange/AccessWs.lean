import ViabtcExchange.Depth

/-!
# The sessions of accessws (`aw_server.c`, `aw_auth.c`, `aw_order.c`, `aw_asset.c`)

A session that has become a websocket subscribes to klines, depths, prices, states, the day's
figures and deals, each in a table of its own, and once it has proved who it is to the orders and
the assets of this user, in lists by user. It proves it by a token (`server.auth`) or a signature
(`server.sign`); both results come from a thread, at any time.

A table finds a session by what is at its address (`dict_ses_hash_func`), which is the state of
its watcher: while an event of it waits to be handled a session is looked for in another place
than where it was put, and is not found. This can be so only when a session closes, and is a
parameter there; in a handler its own event is being handled. What the tables keep for their
subscribers beside depths and deals is left out, and so is what the sessions are sent, but for
orders and assets.
-/

namespace ViabtcExchange

/-- `struct clt_info`, but for the source. -/
structure CltInfo where
  auth : Bool
  userId : ℕ
deriving DecidableEq

/-! ## Lists by user -/

/-- `dict_sub` of `aw_order.c` and of `aw_asset.c`: the sessions of a user, each with the name of a
market or an asset. -/
abbrev UserSubs : Type := Dict ℕ (List (Ses × String))

namespace UserSubs

variable (dictSub : UserSubs)

def userSubscribe (userId : ℕ) (ses : Ses) (name : String) : UserSubs :=
  let list := (dictSub.find userId).getD []
  dictSub.insert userId (if (ses, name) ∈ list then list else list ++ [(ses, name)])

def userUnsubscribe (userId : ℕ) (ses : Ses) : UserSubs :=
  match dictSub.find userId with
  | none => dictSub
  | some list =>
    let list := list.filter fun unit => unit.1 ≠ ses
    if list = [] then dictSub.erase userId else dictSub.insert userId list

def orderSubscribe (userId : ℕ) (ses : Ses) (market : String) : UserSubs :=
  dictSub.userSubscribe userId ses market

def orderUnsubscribe (userId : ℕ) (ses : Ses) : UserSubs := dictSub.userUnsubscribe userId ses

def assetSubscribe (userId : ℕ) (ses : Ses) (asset : String) : UserSubs :=
  dictSub.userSubscribe userId ses asset

def assetUnsubscribe (userId : ℕ) (ses : Ses) : UserSubs := dictSub.userUnsubscribe userId ses

/-- `ses` is in the list of a user. -/
def Mem (userId : ℕ) (ses : Ses) : Prop := ∃ list, dictSub.find userId = some list ∧ ∃ name, (ses, name) ∈ list

/-- `ses` is in the list of a user with `name`. -/
def HasName (userId : ℕ) (ses : Ses) (name : String) : Prop :=
  (ses, name) ∈ (dictSub.find userId).getD []

/-- The loop over the names of a subscription: the first that is not valid ends it. -/
def subscribeNames (userId : ℕ) (ses : Ses) : UserSubs → List Json → UserSubs
  | dictSub, [] => dictSub
  | dictSub, param :: params =>
    match marketParam param with
    | none => dictSub
    | some name => subscribeNames userId ses (dictSub.userSubscribe userId ses name) params

variable {dictSub} {userId userId' : ℕ} {ses ses' : Ses} {name : String}

theorem mem_iff : dictSub.Mem userId ses ↔ ∃ name, dictSub.HasName userId ses name := by
  unfold Mem HasName
  cases dictSub.find userId <;> simp

theorem hasName_userSubscribe {userId userId' : ℕ} {ses ses' : Ses} {name name' : String} :
    (dictSub.userSubscribe userId ses name).HasName userId' ses' name' ↔
      (userId' = userId ∧ ses' = ses ∧ name' = name) ∨ dictSub.HasName userId' ses' name' := by
  unfold HasName userSubscribe
  rw [Dict.find_insert]
  by_cases huser : userId' = userId
  · subst huser
    rw [if_pos rfl, Option.getD_some]
    have hpair : (ses', name') = (ses, name) ↔ ses' = ses ∧ name' = name := Prod.mk_inj
    split_ifs with hold
    · constructor
      · exact Or.inr
      · intro h
        rcases h with ⟨-, hnew⟩ | hmem
        · rw [hpair.mpr hnew]
          exact hold
        · exact hmem
    · rw [List.mem_append, List.mem_singleton, hpair]
      simp only [true_and]
      exact or_comm
  · rw [if_neg huser]
    simp [huser]

theorem hasName_userUnsubscribe {userId userId' : ℕ} {ses ses' : Ses} {name' : String} :
    (dictSub.userUnsubscribe userId ses).HasName userId' ses' name' ↔
      ¬(userId' = userId ∧ ses' = ses) ∧ dictSub.HasName userId' ses' name' := by
  unfold HasName userUnsubscribe
  cases hfind : dictSub.find userId with
  | none =>
    refine ⟨fun h => ⟨?_, h⟩, fun h => h.2⟩
    rintro ⟨rfl, -⟩
    rw [hfind] at h
    cases h
  | some list =>
    have hrest : (ses', name') ∈ list.filter (fun unit => decide (unit.1 ≠ ses)) ↔
        ses' ≠ ses ∧ (ses', name') ∈ list := by
      rw [List.mem_filter, decide_eq_true_eq]
      exact and_comm
    dsimp only
    by_cases huser : userId' = userId
    · subst huser
      rw [hfind]
      simp only [true_and, Option.getD_some]
      rw [← ne_eq, ← hrest]
      split_ifs with hnil
      · rw [Dict.find_erase, if_pos rfl, hnil]
        rfl
      · rw [Dict.find_insert, if_pos rfl]
        rfl
    · have hsame : ∀ d : UserSubs, d.find userId' = dictSub.find userId' →
          ((ses', name') ∈ (d.find userId').getD [] ↔
            ¬(userId' = userId ∧ ses' = ses) ∧ (ses', name') ∈ (dictSub.find userId').getD []) := by
        intro d hd
        rw [hd]
        exact ⟨fun h => ⟨fun h' => huser h'.1, h⟩, fun h => h.2⟩
      apply hsame
      split_ifs
      · rw [Dict.find_erase, if_neg huser]
      · rw [Dict.find_insert, if_neg huser]

theorem mem_userSubscribe : (dictSub.userSubscribe userId ses name).Mem userId' ses' ↔
    (userId' = userId ∧ ses' = ses) ∨ dictSub.Mem userId' ses' := by
  simp only [mem_iff, hasName_userSubscribe, exists_or]
  simp

theorem mem_userUnsubscribe : (dictSub.userUnsubscribe userId ses).Mem userId' ses' ↔
    ¬(userId' = userId ∧ ses' = ses) ∧ dictSub.Mem userId' ses' := by
  simp only [mem_iff, hasName_userUnsubscribe, exists_and_left]

theorem mem_subscribeNames {params : List Json}
    (h : (subscribeNames userId ses dictSub params).Mem userId' ses') :
    (userId' = userId ∧ ses' = ses) ∨ dictSub.Mem userId' ses' := by
  induction params generalizing dictSub with
  | nil => exact Or.inr h
  | cons param params ih =>
    rw [subscribeNames] at h
    cases hparam : marketParam param with
    | none =>
      rw [hparam] at h
      exact Or.inr h
    | some name =>
      rw [hparam] at h
      rcases ih h with hnew | hold
      · exact Or.inl hnew
      · exact mem_userSubscribe.mp hold

theorem not_mem_empty : ¬Mem (∅ : UserSubs) userId ses := by
  rintro ⟨list, hlist, -⟩
  rw [Dict.find_empty] at hlist
  cases hlist

end UserSubs

/-! ## Tables by market -/

section Markets

variable {V : Type} (fresh : V) (ses : Ses)

/-- The loop over the markets of a subscription: the first that is not valid ends it. -/
def subscribeMarkets : Topics Ses String V → List Json → Topics Ses String V
  | dictMarket, [] => dictMarket
  | dictMarket, param :: params =>
    match marketParam param with
    | none => dictMarket
    | some market => subscribeMarkets (dictMarket.subscribe ses market fresh) params

variable {fresh ses} {dictMarket : Topics Ses String V} {ses' : Ses} {market : String}

theorem has_subscribeMarkets {params : List Json}
    (h : (subscribeMarkets fresh ses dictMarket params).Has ses' market) :
    ses' = ses ∨ dictMarket.Has ses' market := by
  induction params generalizing dictMarket with
  | nil => exact Or.inr h
  | cons param params ih =>
    rw [subscribeMarkets] at h
    cases hparam : marketParam param with
    | none =>
      rw [hparam] at h
      exact Or.inr h
    | some name =>
      rw [hparam] at h
      rcases ih h with hnew | hold
      · exact Or.inl hnew
      · exact ((Topics.has_subscribe ..).mp hold).imp_left And.left

end Markets

theorem subscribeAll_fst {D : Type} {ses : Ses} (dictMarket : AwDeals D) (params : List Json) :
    (AwDeals.subscribeAll ses dictMarket params).1 =
      subscribeMarkets ⟨[], 0⟩ ses dictMarket params := by
  induction params generalizing dictMarket with
  | nil => rfl
  | cons param params ih =>
    rw [AwDeals.subscribeAll, subscribeMarkets]
    cases marketParam param with
    | none => rfl
    | some market => exact ih _

theorem has_subscribeAll {D : Type} {ses ses' : Ses} {market : String} {params : List Json}
    {dictMarket : AwDeals D}
    (h : Topics.Has (AwDeals.subscribeAll ses dictMarket params).1 ses' market) :
    ses' = ses ∨ dictMarket.Has ses' market := by
  rw [subscribeAll_fst] at h
  exact has_subscribeMarkets h

/-! ## The server -/

/-- `struct state_data` of `aw_auth.c` and `aw_sign.c`. Its `info` is the `privdata` of the session,
which is looked at only while the session is still the same. -/
structure AuthState where
  ses : Ses
  sesId : ℕ
deriving DecidableEq

/-- `struct state_data` of `aw_asset.c`. -/
structure AssetState where
  userId : ℕ
  asset : String
deriving DecidableEq

inductive WsMethod
  | serverAuth
  | serverSign
  | klineSubscribe
  | klineUnsubscribe
  | depthSubscribe
  | depthUnsubscribe
  | priceSubscribe
  | priceUnsubscribe
  | stateSubscribe
  | stateUnsubscribe
  | todaySubscribe
  | todayUnsubscribe
  | dealsSubscribe
  | dealsUnsubscribe
  | orderSubscribe
  | orderUnsubscribe
  | assetSubscribe
  | assetUnsubscribe
deriving DecidableEq

/-- accessws. The sessions have their `privdata` once they are websockets. For the theorems only are
recorded the user of the last successful result of each session since it was opened, and who was
sent orders or assets in the last step, with the user they are of. -/
structure AccessWs (D : Type) where
  svr : NwSvr (Option CltInfo)
  dictKline : Topics Ses (String × ℤ) Unit
  dictDepth : AwDepth
  dictPrice : Topics Ses String Unit
  dictState : Topics Ses String Unit
  dictToday : Topics Ses String Unit
  dictDeals : AwDeals D
  dictOrder : UserSubs
  dictAsset : UserSubs
  authStates : List AuthState
  signStates : List AuthState
  assetStates : List AssetState
  granted : Ses → Option ℕ
  sent : List (Ses × ℕ)

namespace AccessWs

variable {D : Type} (c : DepthSettings D) (w : AccessWs D)

/-- `ws_ses_privdata`. -/
def info (ses : Ses) : Option CltInfo := (w.svr.clients.find ses).bind Client.privdata

/-! ### Methods -/

/-- `send_auth_request`. -/
def sendAuthRequest (ses : Ses) (params : List Json) : AccessWs D :=
  match params with
  | [.string _, .string source] =>
    if source.utf8ByteSize ≥ 32 then w
    else { w with authStates := w.authStates ++ [⟨ses, w.svr.id ses⟩] }
  | _ => w

/-- `send_sign_request`. -/
def sendSignRequest (ses : Ses) (params : List Json) : AccessWs D :=
  match params with
  | [.string _, .string _, tonce] =>
    if toUint64 (Json.integerValue (some tonce)) = 0 then w
    else { w with signStates := w.signStates ++ [⟨ses, w.svr.id ses⟩] }
  | _ => w

/-- The two arguments of `on_method_kline_subscribe`. -/
def klineParams (params : List Json) : Option (String × ℤ) :=
  match params with
  | [market, interval] =>
    (marketParam market).bind fun market =>
      let interval := toInt32 (Json.integerValue (some interval))
      if interval ≤ 0 then none else some (market, interval)
  | _ => none

def onMethodKlineSubscribe (ses : Ses) (params : List Json) : AccessWs D :=
  match klineParams params with
  | none => w
  | some key => { w with dictKline := (w.dictKline.unsubscribe ses).subscribe ses key () }

def onMethodOrderSubscribe (ses : Ses) (info : CltInfo) (params : List Json) : AccessWs D :=
  if info.auth then
    { w with
      dictOrder := UserSubs.subscribeNames info.userId ses
        (w.dictOrder.orderUnsubscribe info.userId ses) params }
  else w

def onMethodAssetSubscribe (ses : Ses) (info : CltInfo) (params : List Json) : AccessWs D :=
  if info.auth then
    { w with
      dictAsset := UserSubs.subscribeNames info.userId ses
        (w.dictAsset.assetUnsubscribe info.userId ses) params }
  else w

/-- The handler that `method_map` has for a method. -/
def handler (ses : Ses) (info : CltInfo) (params : List Json) : WsMethod → AccessWs D
  | .serverAuth => w.sendAuthRequest ses params
  | .serverSign => w.sendSignRequest ses params
  | .klineSubscribe => w.onMethodKlineSubscribe ses params
  | .klineUnsubscribe => { w with dictKline := w.dictKline.unsubscribe ses }
  | .depthSubscribe =>
    { w with dictDepth := (w.dictDepth.onMethodDepthSubscribe c ses params).1 }
  | .depthUnsubscribe => { w with dictDepth := w.dictDepth.unsubscribe ses }
  | .priceSubscribe =>
    { w with dictPrice := subscribeMarkets () ses (w.dictPrice.unsubscribe ses) params }
  | .priceUnsubscribe => { w with dictPrice := w.dictPrice.unsubscribe ses }
  | .stateSubscribe =>
    { w with dictState := subscribeMarkets () ses (w.dictState.unsubscribe ses) params }
  | .stateUnsubscribe => { w with dictState := w.dictState.unsubscribe ses }
  | .todaySubscribe =>
    { w with dictToday := subscribeMarkets () ses (w.dictToday.unsubscribe ses) params }
  | .todayUnsubscribe => { w with dictToday := w.dictToday.unsubscribe ses }
  | .dealsSubscribe =>
    { w with dictDeals := (AwDeals.onMethodDealsSubscribe w.dictDeals ses params).1 }
  | .dealsUnsubscribe => { w with dictDeals := w.dictDeals.unsubscribe ses }
  | .orderSubscribe => w.onMethodOrderSubscribe ses info params
  | .orderUnsubscribe =>
    if info.auth then { w with dictOrder := w.dictOrder.orderUnsubscribe info.userId ses } else w
  | .assetSubscribe => w.onMethodAssetSubscribe ses info params
  | .assetUnsubscribe =>
    if info.auth then { w with dictAsset := w.dictAsset.assetUnsubscribe info.userId ses } else w

/-! ### Connections -/

/-- `on_upgrade`. -/
def onUpgrade (ses : Ses) : AccessWs D :=
  { w with svr := w.svr.setPrivdata ses fun _ => some ⟨false, 0⟩ }

/-- `on_close` of a websocket. `found` says if the tables find the session. -/
def onClose (ses : Ses) (found : Bool) (info : CltInfo) : AccessWs D :=
  { w with
    dictKline := if found then w.dictKline.unsubscribe ses else w.dictKline
    dictDepth := if found then w.dictDepth.unsubscribe ses else w.dictDepth
    dictPrice := if found then w.dictPrice.unsubscribe ses else w.dictPrice
    dictToday := if found then w.dictToday.unsubscribe ses else w.dictToday
    dictDeals := if found then w.dictDeals.unsubscribe ses else w.dictDeals
    dictOrder := if info.auth then w.dictOrder.orderUnsubscribe info.userId ses else w.dictOrder
    dictAsset := if info.auth then w.dictAsset.assetUnsubscribe info.userId ses else w.dictAsset }

/-- `nw_svr_close_clt`. -/
def closeClt (ses : Ses) (found : Bool) : AccessWs D :=
  let w := (w.info ses).elim w (w.onClose ses found)
  { w with svr := w.svr.closeClt ses }

/-! ### Results -/

/-- The user of a result of a successful authentication. -/
def resultUser (result : Json) : Option ℕ := do
  let code ← result.get "code"
  let data ← result.get "data"
  let userId := toUint32 (Json.integerValue (data.get "user_id"))
  if toInt32 (Json.integerValue (some code)) = 0 ∧ userId ≠ 0 then some userId else none

/-- `on_result`, of `aw_auth.c` and of `aw_sign.c`. -/
def onResult (state : AuthState) (result : Option Json) : AccessWs D :=
  match result.bind resultUser, w.info state.ses with
  | some userId, some info =>
    if w.svr.id state.ses = state.sesId then
      let leave := info.auth && info.userId ≠ userId
      { w with
        svr := w.svr.setPrivdata state.ses fun _ => some ⟨true, userId⟩
        dictOrder := if leave then w.dictOrder.orderUnsubscribe info.userId state.ses else w.dictOrder
        dictAsset := if leave then w.dictAsset.assetUnsubscribe info.userId state.ses else w.dictAsset
        granted := Function.update w.granted state.ses (some userId) }
    else w
  | _, _ => w

/-! ### Events of the engine -/

/-- The sessions of a user that get something about a market or an asset. -/
def listeners (dictSub : UserSubs) (userId : ℕ) (name : String) : List (Ses × ℕ) :=
  (((dictSub.find userId).getD []).filter fun unit => unit.2 = name).map fun unit => (unit.1, userId)

/-- `order_on_update`. -/
def orderOnUpdate (userId : ℕ) (order : Json) : AccessWs D :=
  match order.get "market" with
  | some (.string market) => { w with sent := w.sent ++ listeners w.dictOrder userId market }
  | _ => w

/-- `asset_on_update`. -/
def assetOnUpdate (userId : ℕ) (asset : String) : AccessWs D :=
  if listeners w.dictAsset userId asset = [] then w
  else { w with assetStates := w.assetStates ++ [⟨userId, asset⟩] }

/-- `process_orders_message`. -/
def processOrdersMessage (msg : Json) : AccessWs D :=
  match msg.get "order", msg.get "stock", msg.get "money" with
  | some order, some (.string stock), some (.string money) =>
    let userId := toUint32 (Json.integerValue (order.get "user"))
    if toInt32 (Json.integerValue (msg.get "event")) = 0 ∨ userId = 0 then w
    else ((w.assetOnUpdate userId stock).assetOnUpdate userId money).orderOnUpdate userId order
  | _, _, _ => w

/-- `process_balances_message`. -/
def processBalancesMessage (msg : Json) : AccessWs D :=
  match msg.elements[(2 : ℕ)]? with
  | some (.string asset) =>
    let userId := toUint32 (Json.integerValue msg.elements[(1 : ℕ)]?)
    if userId = 0 then w else w.assetOnUpdate userId asset
  | _ => w

/-- `on_balance_query_reply`. -/
def onBalanceQueryReply (state : AssetState) : AccessWs D :=
  { w with sent := w.sent ++ listeners w.dictAsset state.userId state.asset }

end AccessWs

/-! ## Runs -/

inductive WsAct
  | connect (ses : Ses)
  | upgrade (ses : Ses)
  | request (ses : Ses) (method : WsMethod) (params : List Json)
  | close (ses : Ses) (found : Bool)
  | authResult (state : AuthState) (result : Option Json)
  | signResult (state : AuthState) (result : Option Json)
  | authTimeout (state : AuthState)
  | signTimeout (state : AuthState)
  | order (msg : Json)
  | balance (msg : Json)
  | balanceReply (state : AssetState)
  | balanceLost (state : AssetState)
  | sweep
  | klineError (key : String × ℤ)
  | depthError (key : DepthKey)
  | priceError (market : String)
  | stateError (market : String)
  | todayError (market : String)
  | dealsError (market : String)

namespace AccessWs

variable {D : Type} (c : DepthSettings D)

/-- One step; nothing has been sent before it. A new connection takes an address that is free. A
result comes for any request that is still waited for. The timers drop what nobody has subscribed
to, and the error of a backend ends all subscriptions to what was asked for. -/
inductive Step : AccessWs D → WsAct → AccessWs D → Prop
  | connect {w : AccessWs D} {ses : Ses} : w.svr.id ses = 0 →
      Step w (.connect ses)
        { w with
          svr := w.svr.addClt ses none
          granted := Function.update w.granted ses none
          sent := [] }
  | upgrade {w : AccessWs D} {ses : Ses} : w.svr.id ses ≠ 0 → w.info ses = none →
      Step w (.upgrade ses) { w.onUpgrade ses with sent := [] }
  | request {w : AccessWs D} {ses : Ses} {info : CltInfo} {method : WsMethod} {params : List Json} :
      w.info ses = some info →
        Step w (.request ses method params) { w.handler c ses info params method with sent := [] }
  | close {w : AccessWs D} {ses : Ses} {found : Bool} :
      Step w (.close ses found) { w.closeClt ses found with sent := [] }
  | authResult {w : AccessWs D} {state : AuthState} {result : Option Json} : state ∈ w.authStates →
      Step w (.authResult state result)
        { w.onResult state result with authStates := w.authStates.erase state, sent := [] }
  | signResult {w : AccessWs D} {state : AuthState} {result : Option Json} : state ∈ w.signStates →
      Step w (.signResult state result)
        { w.onResult state result with signStates := w.signStates.erase state, sent := [] }
  | authTimeout {w : AccessWs D} {state : AuthState} :
      Step w (.authTimeout state) { w with authStates := w.authStates.erase state, sent := [] }
  | signTimeout {w : AccessWs D} {state : AuthState} :
      Step w (.signTimeout state) { w with signStates := w.signStates.erase state, sent := [] }
  | order {w : AccessWs D} {msg : Json} :
      Step w (.order msg) ({ w with sent := [] }.processOrdersMessage msg)
  | balance {w : AccessWs D} {msg : Json} :
      Step w (.balance msg) ({ w with sent := [] }.processBalancesMessage msg)
  | balanceReply {w : AccessWs D} {state : AssetState} : state ∈ w.assetStates →
      Step w (.balanceReply state)
        ({ w with assetStates := w.assetStates.erase state, sent := [] }.onBalanceQueryReply state)
  | balanceLost {w : AccessWs D} {state : AssetState} :
      Step w (.balanceLost state) { w with assetStates := w.assetStates.erase state, sent := [] }
  | sweep {w : AccessWs D} :
      Step w .sweep
        { w with
          dictKline := w.dictKline.sweep
          dictDepth := w.dictDepth.sweep
          dictPrice := w.dictPrice.sweep
          dictState := w.dictState.sweep
          dictToday := w.dictToday.sweep
          dictDeals := w.dictDeals.sweep
          sent := [] }
  | klineError {w : AccessWs D} {key : String × ℤ} :
      Step w (.klineError key) { w with dictKline := w.dictKline.erase key, sent := [] }
  | depthError {w : AccessWs D} {key : DepthKey} :
      Step w (.depthError key) { w with dictDepth := w.dictDepth.erase key, sent := [] }
  | priceError {w : AccessWs D} {market : String} :
      Step w (.priceError market) { w with dictPrice := w.dictPrice.erase market, sent := [] }
  | stateError {w : AccessWs D} {market : String} :
      Step w (.stateError market) { w with dictState := w.dictState.erase market, sent := [] }
  | todayError {w : AccessWs D} {market : String} :
      Step w (.todayError market) { w with dictToday := w.dictToday.erase market, sent := [] }
  | dealsError {w : AccessWs D} {market : String} :
      Step w (.dealsError market) { w with dictDeals := w.dictDeals.erase market, sent := [] }

/-- The states after steps that are `ok` where they are taken. -/
inductive Reached (ok : AccessWs D → WsAct → Prop) (w₀ : AccessWs D) : AccessWs D → Prop
  | refl : Reached ok w₀ w₀
  | step {w w' : AccessWs D} {act : WsAct} :
    Reached ok w₀ w → ok w act → Step c w act w' → Reached ok w₀ w'

/-- accessws as it starts. -/
def start : AccessWs D :=
  ⟨NwSvr.create, ∅, ∅, ∅, ∅, ∅, ∅, ∅, ∅, [], [], [], fun _ => none, []⟩

end AccessWs

end ViabtcExchange
