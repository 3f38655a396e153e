import ViabtcExchange.AccessHttp
import ViabtcExchange.AccessWs

/-!
# Queries of websockets (`aw_server.c`)

What a websocket asks about markets, and about its user once it has proved who it is, is passed on
to a backend. Answers about markets are kept for a while under the command and the parameters, and
given again from there.

Main results: `replies_to_requester`, for accesshttp and for accessws.
-/

namespace ViabtcExchange

/-- An answer of accessws' own. -/
inductive WsAnswer
  | error (id code : ℤ) (message : String)
  | result (id : ℤ) (result : Json)

inductive WsQuery
  | klineQuery
  | depthQuery
  | priceQuery
  | stateQuery
  | todayQuery
  | dealsQuery
  | orderQuery
  | orderHistory
  | assetQuery
  | assetHistory
deriving DecidableEq

/-- accessws, of its queries. `cache` is `backend_cache`: what was answered, and when. -/
structure WsQueries where
  gateway : Gateway (Option CltInfo) WsAnswer
  cache : Dict String (ℚ × Json)

/-- `settings.cache_timeout`, and `json_dumps` of parameters. -/
structure QuerySettings where
  cacheTimeout : ℚ
  dumps : List Json → String

namespace WsQueries

def create : WsQueries := ⟨Gateway.create, ∅⟩

def invalidArgument (id : ℤ) : WsAnswer := .error id 1 "invalid argument"

def internalError (id : ℤ) : WsAnswer := .error id 2 "internal error"

def serviceTimeout (id : ℤ) : WsAnswer := .error id 5 "service timeout"

def requireAuth (id : ℤ) : WsAnswer := .error id 6 "require authentication"

/-- What a query is asked with: the clients that are connected, whether the answer's send fails, the
time, the session with its `privdata`, and the `id` and `params` of the message. -/
structure Asked where
  connected : Backend → Bool
  fails : Bool
  now : ℚ
  ses : Ses
  info : CltInfo
  no : ℕ
  id : ℤ
  params : List Json

variable (settings : QuerySettings) (w : WsQueries) (asked : Asked)

/-- `send_error` and `send_result`. -/
def send (answer : WsAnswer) : WsQueries :=
  { w with gateway := w.gateway.write asked.fails asked.ses asked.no (.inr answer) }

/-- `nw_state_add` and `rpc_clt_send`. -/
def issue (cacheKey : Option String) (backend : Backend) (command : ℕ) : Option WsQueries :=
  (w.gateway.issue asked.ses asked.no asked.id cacheKey backend command).map fun gateway =>
    { w with gateway := gateway }

/-- `process_cache`: what it answers, and the cache without what is too old. -/
def processCache (cache : Dict String (ℚ × Json)) (now : ℚ) (key : String) :
    Dict String (ℚ × Json) × Option Json :=
  match cache.find key with
  | none => (cache, none)
  | some (time, result) =>
    if now - time > settings.cacheTimeout then (cache.erase key, none) else (cache, some result)

/-- A query about markets. -/
def marketQuery (backend : Backend) (command : ℕ) : Option WsQueries :=
  if asked.connected backend then
    let key := toString command ++ "-" ++ settings.dumps asked.params
    match processCache settings w.cache asked.now key with
    | (cache, some result) => some ({ w with cache := cache }.send asked (.result asked.id result))
    | (cache, none) => { w with cache := cache }.issue asked (some key) backend command
  else some (w.send asked (internalError asked.id))

def onMethodKlineQuery : Option WsQueries := marketQuery settings w asked .marketprice 302

def onMethodDepthQuery : Option WsQueries := marketQuery settings w asked .matchengine 206

def onMethodPriceQuery : Option WsQueries := marketQuery settings w asked .marketprice 304

def onMethodStateQuery : Option WsQueries := marketQuery settings w asked .marketprice 301

def onMethodTodayQuery : Option WsQueries := marketQuery settings w asked .marketprice 305

def onMethodDealsQuery : Option WsQueries := marketQuery settings w asked .marketprice 303

/-- A query about the user, whose backend is looked at first. -/
def userQuery (backend : Backend) (command : ℕ) (valid : List Json → Bool) : Option WsQueries :=
  if ¬asked.connected backend then some (w.send asked (internalError asked.id))
  else if ¬asked.info.auth then some (w.send asked (requireAuth asked.id))
  else if valid asked.params then w.issue asked none backend command
  else some (w.send asked (invalidArgument asked.id))

def orderQueryValid : List Json → Bool
  | [.string _, .integer _, .integer _] => true
  | _ => false

def onMethodOrderQuery : Option WsQueries := w.userQuery asked .matchengine 203 orderQueryValid

def onMethodOrderHistory : Option WsQueries :=
  w.userQuery asked .readhistory 208 fun params => params.length = 6

/-- Here the user is looked at first. -/
def onMethodAssetQuery : Option WsQueries :=
  if ¬asked.info.auth then some (w.send asked (requireAuth asked.id))
  else if ¬asked.connected .matchengine then some (w.send asked (internalError asked.id))
  else w.issue asked none .matchengine 101

def onMethodAssetHistory : Option WsQueries :=
  w.userQuery asked .readhistory 103 fun params => params.length = 6

/-- The part of `method_map` that goes to backends. -/
def methodMap : List (String × WsQuery) :=
  [("kline.query", .klineQuery), ("depth.query", .depthQuery), ("price.query", .priceQuery),
    ("state.query", .stateQuery), ("today.query", .todayQuery), ("deals.query", .dealsQuery),
    ("order.query", .orderQuery), ("order.history", .orderHistory), ("asset.query", .assetQuery),
    ("asset.history", .assetHistory)]

def handler : WsQuery → Option WsQueries
  | .klineQuery => onMethodKlineQuery settings w asked
  | .depthQuery => onMethodDepthQuery settings w asked
  | .priceQuery => onMethodPriceQuery settings w asked
  | .stateQuery => onMethodStateQuery settings w asked
  | .todayQuery => onMethodTodayQuery settings w asked
  | .dealsQuery => onMethodDealsQuery settings w asked
  | .orderQuery => w.onMethodOrderQuery asked
  | .orderHistory => w.onMethodOrderHistory asked
  | .assetQuery => w.onMethodAssetQuery asked
  | .assetHistory => w.onMethodAssetHistory asked

/-- The `id`, the `method` and the `params` of a message. -/
def decodeMessage (msg : Option Json) : Option (ℤ × String × List Json) := do
  let msg ← msg
  match msg.get "id", msg.get "method", msg.get "params" with
  | some (.integer id), some (.string method), some (.array params) => some (id, method, params)
  | _, _, _ => none

/-- `on_message`, of the queries. A message that is none closes the connection. -/
def onMessage (connected : Backend → Bool) (fails : Bool) (now : ℚ) (ses : Ses) (info : CltInfo)
    (msg : Option Json) : Option WsQueries :=
  let no := w.gateway.arrived.length
  let w := { w with gateway := w.gateway.arrive ses }
  match decodeMessage msg with
  | none => some { w with gateway := w.gateway.closeClt ses }
  | some (id, method, params) =>
    match methodMap.lookup method with
    | none => some w
    | some query => handler settings w ⟨connected, fails, now, ses, info, no, id, params⟩ query

/-- `on_timeout`. -/
def onTimeout (fails : Bool) (sequence : ℕ) : WsQueries :=
  { w with gateway := w.gateway.timeout fails (fun info => serviceTimeout info.requestId) sequence }

/-- What `on_backend_recv_pkg` keeps of a reply. -/
def keepResult (now : ℚ) (cacheKey : Option String) (reply : Option Json) :
    Dict String (ℚ × Json) :=
  match cacheKey, reply.bind fun reply => reply.get "result" with
  | some _, some .null => w.cache
  | some key, some result => w.cache.insert key (now, result)
  | _, _ => w.cache

/-- `on_backend_recv_pkg`, with the body as JSON. -/
def onBackendRecvPkg (fails : Bool) (now : ℚ) (call : Call) (reply : Option Json) : WsQueries :=
  match w.gateway.state.get call.sequence with
  | none => { w with gateway := w.gateway.lose call }
  | some info =>
    { gateway := w.gateway.recvPkg fails call
      cache := w.keepResult now info.cacheKey reply }

/-! ## Runs -/

inductive Act
  | connect (ses : Ses)
  | info (ses : Ses) (info : CltInfo)
  | message (ses : Ses) (connected : Backend → Bool) (fails : Bool) (now : ℚ) (msg : Option Json)
  | close (ses : Ses)
  | timeout (sequence : ℕ) (fails : Bool)
  | reply (call : Call) (fails : Bool) (now : ℚ) (reply : Option Json)
  | lose (call : Call)
  | cacheTimer

/-- One step. What authentication, and before it the upgrade, writes to `privdata` comes at any
time. -/
inductive Step : WsQueries → Act → WsQueries → Prop
  | connect {w : WsQueries} {ses : Ses} : w.gateway.svr.id ses = 0 →
      Step w (.connect ses) { w with gateway := w.gateway.addClt ses none }
  | info {w : WsQueries} {ses : Ses} {info : CltInfo} :
      Step w (.info ses info) { w with gateway := w.gateway.setPrivdata ses (some info) }
  | message {w w' : WsQueries} {ses : Ses} {connected : Backend → Bool} {fails : Bool} {now : ℚ}
      {info : CltInfo} {msg : Option Json} :
      (w.gateway.svr.clients.find ses).bind Client.privdata = some info →
      onMessage settings w connected fails now ses info msg = some w' →
      Step w (.message ses connected fails now msg) w'
  | close {w : WsQueries} {ses : Ses} :
      Step w (.close ses) { w with gateway := w.gateway.closeClt ses }
  | timeout {w : WsQueries} {sequence : ℕ} {fails : Bool} : w.gateway.state.get sequence ≠ none →
      Step w (.timeout sequence fails) (w.onTimeout fails sequence)
  | reply {w : WsQueries} {call : Call} {fails : Bool} {now : ℚ} {reply : Option Json} :
      call ∈ w.gateway.calls →
      Step w (.reply call fails now reply) (w.onBackendRecvPkg fails now call reply)
  | lose {w : WsQueries} {call : Call} :
      Step w (.lose call) { w with gateway := w.gateway.lose call }
  | cacheTimer {w : WsQueries} : Step w .cacheTimer { w with cache := ∅ }

/-- The states after steps that are `ok` where they are taken. -/
inductive Reached (ok : WsQueries → Act → Prop) : WsQueries → Prop
  | refl : Reached ok create
  | step {w w' : WsQueries} {act : Act} : Reached ok w → ok w act → Step settings w act w' → Reached ok w'

section Steps

variable {settings : QuerySettings} {w w' : WsQueries} {asked : Asked}

/-- A query is answered at once or passed on. -/
def AnsweredOrIssued (asked : Asked) (g g' : Gateway (Option CltInfo) WsAnswer) : Prop :=
  (∃ answer, g' = g.write asked.fails asked.ses asked.no (.inr answer)) ∨
    ∃ cacheKey backend command,
      g.issue asked.ses asked.no asked.id cacheKey backend command = some g'

theorem answeredOrIssued_issue {cacheKey : Option String} {backend : Backend} {command : ℕ}
    (h : w.issue asked cacheKey backend command = some w') :
    AnsweredOrIssued asked w.gateway w'.gateway := by
  obtain ⟨gateway, hissue, rfl⟩ := Option.map_eq_some_iff.mp h
  exact Or.inr ⟨cacheKey, backend, command, hissue⟩

theorem answeredOrIssued_marketQuery {backend : Backend} {command : ℕ}
    (h : marketQuery settings w asked backend command = some w') :
    AnsweredOrIssued asked w.gateway w'.gateway := by
  unfold marketQuery at h
  split_ifs at h
  · dsimp only at h
    split at h
    · obtain rfl := Option.some.inj h
      exact Or.inl ⟨_, rfl⟩
    · rename_i cache _
      exact answeredOrIssued_issue (w := { w with cache := cache }) h
  · obtain rfl := Option.some.inj h
    exact Or.inl ⟨_, rfl⟩

theorem answeredOrIssued_userQuery {backend : Backend} {command : ℕ} {valid : List Json → Bool}
    (h : w.userQuery asked backend command valid = some w') :
    AnsweredOrIssued asked w.gateway w'.gateway := by
  unfold userQuery at h
  split_ifs at h
  · exact answeredOrIssued_issue h
  · obtain rfl := Option.some.inj h
    exact Or.inl ⟨_, rfl⟩
  · obtain rfl := Option.some.inj h
    exact Or.inl ⟨_, rfl⟩
  · obtain rfl := Option.some.inj h
    exact Or.inl ⟨_, rfl⟩

theorem answeredOrIssued_handler {query : WsQuery} (h : handler settings w asked query = some w') :
    AnsweredOrIssued asked w.gateway w'.gateway := by
  cases query with
  | klineQuery => exact answeredOrIssued_marketQuery h
  | depthQuery => exact answeredOrIssued_marketQuery h
  | priceQuery => exact answeredOrIssued_marketQuery h
  | stateQuery => exact answeredOrIssued_marketQuery h
  | todayQuery => exact answeredOrIssued_marketQuery h
  | dealsQuery => exact answeredOrIssued_marketQuery h
  | orderQuery =>
    have hquery : w.onMethodOrderQuery asked = some w' := h
    exact answeredOrIssued_userQuery hquery
  | orderHistory =>
    have hquery : w.onMethodOrderHistory asked = some w' := h
    exact answeredOrIssued_userQuery hquery
  | assetHistory =>
    have hquery : w.onMethodAssetHistory asked = some w' := h
    exact answeredOrIssued_userQuery hquery
  | assetQuery =>
    have hquery : w.onMethodAssetQuery asked = some w' := h
    unfold onMethodAssetQuery at hquery
    split_ifs at hquery
    · exact answeredOrIssued_issue hquery
    · obtain rfl := Option.some.inj hquery
      exact Or.inl ⟨_, rfl⟩
    · obtain rfl := Option.some.inj hquery
      exact Or.inl ⟨_, rfl⟩

/-- A message closes the connection, is none of these queries, or is answered or passed on. -/
theorem onMessage_cases {connected : Backend → Bool} {fails : Bool} {now : ℚ} {ses : Ses}
    {info : CltInfo} {msg : Option Json}
    (h : onMessage settings w connected fails now ses info msg = some w') :
    w'.gateway = (w.gateway.arrive ses).closeClt ses ∨ w'.gateway = w.gateway.arrive ses ∨
      ∃ asked : Asked, asked.ses = ses ∧ asked.no = w.gateway.arrived.length ∧
        AnsweredOrIssued asked (w.gateway.arrive ses) w'.gateway := by
  unfold onMessage at h
  dsimp only at h
  split at h
  · obtain rfl := Option.some.inj h
    exact Or.inl rfl
  · split at h
    · obtain rfl := Option.some.inj h
      exact Or.inr (Or.inl rfl)
    · exact Or.inr (Or.inr ⟨_, rfl, rfl,
        answeredOrIssued_handler (w := { w with gateway := w.gateway.arrive ses }) h⟩)

theorem gateway_onBackendRecvPkg (w : WsQueries) (fails : Bool) (now : ℚ) (call : Call)
    (reply : Option Json) :
    (w.onBackendRecvPkg fails now call reply).gateway = w.gateway.recvPkg fails call := by
  unfold onBackendRecvPkg
  cases hget : w.gateway.state.get call.sequence with
  | none =>
    show w.gateway.lose call = (w.gateway.lose call).settle _ _ _
    rw [Gateway.settle_eq]
    show _ = match w.gateway.state.get call.sequence with
      | none => w.gateway.lose call
      | some info => _
    rw [hget]
  | some info => rfl

theorem waiting_step {act : Act} (h : w.gateway.Waiting) (hstep : Step settings w act w') :
    w'.gateway.Waiting := by
  cases hstep with
  | connect => exact h.addClt _ _
  | info => exact h.setPrivdata _ _
  | @message _ ses connected fails now info msg hinfo hmessage =>
    have hopen : w.gateway.svr.id ses ≠ 0 := by
      intro hclosed
      rw [NwSvr.id_eq_zero.mp hclosed] at hinfo
      cases hinfo
    obtain ⟨harrived, hnew, hfree⟩ := h.new_request ses
    have harrive := h.arrive ses
    rcases onMessage_cases hmessage with hg | hg |
      ⟨asked, hses, hno, ⟨answer, hg⟩ | ⟨key, b, c, hg⟩⟩
    · rw [hg]
      exact harrive.closeClt ses
    · rw [hg]
      exact harrive
    · rw [hg, hses, hno]
      exact harrive.write harrived hopen hnew hfree
    · rw [hses, hno] at hg
      exact harrive.issue hg harrived hopen hnew hfree
  | close => exact h.closeClt _
  | timeout => exact h.settle _ _ _
  | reply =>
    rw [gateway_onBackendRecvPkg]
    exact h.recvPkg _ _
  | lose => exact h.lose _
  | cacheTimer => exact h

theorem waiting_run {ok : WsQueries → Act → Prop} (h : Reached settings ok w) :
    w.gateway.Waiting := by
  induction h with
  | refl => exact Gateway.waiting_create
  | step _ _ hstep ih => exact waiting_step ih hstep

/-- The bound on how many requests go out while a reply may come. -/
def Bounded (bound : ℕ) (w : WsQueries) : Act → Prop
  | .message .. => w.gateway.Within bound
  | _ => True

theorem routed_step {act : Act} (h : w.gateway.Routed) (hbound : Bounded sequences w act)
    (hstep : Step settings w act w') : w'.gateway.Routed := by
  cases hstep with
  | connect => exact h.addClt _ _
  | info => exact h.setPrivdata _ _
  | @message _ ses connected fails now info msg hinfo hmessage =>
    have harrive := h.arrive ses
    rcases onMessage_cases hmessage with hg | hg | ⟨asked, -, -, ⟨answer, hg⟩ | ⟨key, b, c, hg⟩⟩
    · rw [hg]
      exact harrive.closeClt ses
    · rw [hg]
      exact harrive
    · rw [hg]
      exact harrive.write fun _ hcall => by cases hcall
    · obtain ⟨g, hissue, hrouted⟩ := harrive.issue asked.ses asked.no asked.id key b c hbound
      rw [hg] at hissue
      rw [Option.some.inj hissue]
      exact hrouted
  | close => exact h.closeClt _
  | timeout => exact h.timeout _ _ _
  | reply hcall =>
    rw [gateway_onBackendRecvPkg]
    exact h.recvPkg _ hcall
  | lose => exact h.lose _
  | cacheTimer => exact h

theorem routed_run (h : Reached settings (Bounded sequences) w) : w.gateway.Routed := by
  induction h with
  | refl => exact Gateway.routed_create
  | step _ hbound hstep ih => exact routed_step ih hbound hstep

end Steps

end WsQueries

/-- **Replies go to the requester**, from accesshttp and from accessws, as long as fewer than 2^32 -
1 requests have been sent to backends after any whose reply may come. -/
theorem replies_to_requester :
    (∀ w, AccessHttp.Reached (AccessHttp.Bounded sequences) w → w.RepliesRouted) ∧
    ∀ settings w, WsQueries.Reached settings (WsQueries.Bounded sequences) w →
      w.gateway.RepliesRouted :=
  ⟨fun _ h => .of_routed (AccessHttp.waiting_run h) (AccessHttp.routed_run h),
    fun _ _ h => .of_routed (WsQueries.waiting_run h) (WsQueries.routed_run h)⟩

/-! ## All numbers gone through -/

namespace AccessHttp

variable {w : AccessHttp} {n : ℕ}

/-- The first request waits no more, but its reply may come; all `n - 1` after it have been
answered. -/
structure GoneThrough (n : ℕ) (w : AccessHttp) : Prop where
  reached : Reached (Bounded (2 ^ 32)) w
  client : w.svr.id 8 = 2
  entries : w.state.entries = ∅
  start : w.state.idStart = NwState.startOf w.issues.length
  issues : w.issues.length = n
  calls : w.calls = [exampleCall]
  first : w.arrived[0]? = some (7, 1)

theorem onMessageComplete_last (w : AccessHttp) (ses : Ses) :
    onMessageComplete (fun _ => true) false w ses (exampleRequest "market.last") =
      (w.arrive ses).issue ses w.arrived.length 1 none .marketprice 304 := by
  show (((w.arrive ses).issue ses w.arrived.length 1 none .marketprice 304).map (·, (0 : ℤ))).map
    _ = _
  cases (w.arrive ses).issue ses w.arrived.length 1 none .marketprice 304 with
  | none => rfl
  | some g => exact congrArg some (if_neg fun h => absurd h.1 (by decide))

/-- After another request, by session 8. -/
def afterLast (w : AccessHttp) : AccessHttp :=
  { w.arrive 8 with
    state := ⟨NwState.sequenceOf w.issues.length,
      Finmap.insert (NwState.sequenceOf w.issues.length)
        ⟨8, w.svr.id 8, 1, none, w.arrived.length, w.issues.length⟩ ∅⟩
    calls := w.calls ++
      [⟨.marketprice, 304, NwState.sequenceOf w.issues.length, w.arrived.length, w.issues.length⟩]
    issues := w.issues ++ [w.arrived.length] }

theorem GoneThrough.request (h : GoneThrough n w) (hn : n < 2 ^ 32) :
    Reached (Bounded (2 ^ 32)) (afterLast w) := by
  have hopen : w.svr.id 8 ≠ 0 := by
    rw [h.client]
    decide
  have hbound : w.Within (2 ^ 32) := by
    rintro issue (⟨sequence, info, hinfo, -⟩ | ⟨call, hcall, rfl⟩)
    · rw [NwState.get, h.entries, Dict.find_empty] at hinfo
      cases hinfo
    · rw [h.issues]
      omega
  refine @Reached.step _ w _ (.request 8 (fun _ => true) false (exampleRequest "market.last")) h.reached
    hbound (.request hopen ?_)
  rw [onMessageComplete_last]
  exact Gateway.issue_of_empty (g := w.arrive 8) h.entries h.start 1 none .marketprice 304

/-- The reply that this request waits for, whichever call it is to. -/
theorem recvPkg_afterLast (call : Call)
    (hsequence : call.sequence = NwState.sequenceOf w.issues.length) :
    onBackendRecvPkg false (afterLast w) call =
      { (afterLast w).lose call with
        state := (afterLast w).state.del call.sequence
        written := w.written ++ [⟨8, w.svr.id 8, w.arrived.length, .inl call⟩] } := by
  have hget : ((afterLast w).lose call).state.get call.sequence =
      some ⟨8, w.svr.id 8, 1, none, w.arrived.length, w.issues.length⟩ := by
    rw [hsequence]
    exact (Dict.find_insert ..).trans (if_pos rfl)
  show ((afterLast w).lose call).settle false _ call.sequence = _
  rw [Gateway.settle_eq, hget]
  exact if_pos rfl

theorem GoneThrough.next (h : GoneThrough n w) (hpos : 0 < n) (hn : n < 2 ^ 32) :
    ∃ w', GoneThrough (n + 1) w' := by
  let call : Call :=
    ⟨.marketprice, 304, NwState.sequenceOf w.issues.length, w.arrived.length, w.issues.length⟩
  have hcall : call ∈ (afterLast w).calls := List.mem_append_right _ (List.mem_singleton_self _)
  have hne : exampleCall ≠ call := by
    intro heq
    have hissue : 0 = w.issues.length := congrArg Call.issue heq
    rw [h.issues] at hissue
    omega
  have hreply : Reached (Bounded (2 ^ 32)) (onBackendRecvPkg false (afterLast w) call) :=
    .step (h.request hn) (by trivial) (.reply hcall)
  rw [recvPkg_afterLast call rfl] at hreply
  have hnone : ∀ id, ((afterLast w).state.del call.sequence).get id = none := by
    intro id
    rw [NwState.get_del]
    split_ifs with hid
    · rfl
    · exact (Dict.find_insert ..).trans ((if_neg hid).trans (Dict.find_empty id))
  refine ⟨_, hreply, h.client, Dict.ext_find fun id => ?_, ?_, ?_, ?_, ?_⟩
  · rw [Dict.find_empty]
    exact hnone id
  · show NwState.sequenceOf w.issues.length = NwState.startOf (w.issues ++ [_]).length
    rw [List.length_append]
    rfl
  · show (w.issues ++ [_]).length = n + 1
    rw [List.length_append, h.issues]
    rfl
  · show (w.calls ++ [call]).erase call = [exampleCall]
    rw [h.calls, List.erase_append_right _ (by simpa using hne.symm), List.erase_cons_head]
    rfl
  · exact Gateway.getElem?_arrive h.first 8

theorem goneThrough_start : ∃ w, GoneThrough 1 w := by
  have hopen : Reached (Bounded (2 ^ 32)) _ := .step .refl (by trivial)
    (@Step.connect Gateway.create 7 (by decide +kernel))
  have hbound : Bounded (2 ^ 32) (Gateway.create.addClt 7 ())
      (.request 7 (fun _ => true) false (exampleRequest "market.last")) :=
    fun _ hout => absurd hout (Gateway.not_outstanding_create (I := Unit) (C := HttpAnswer))
  have hlast : Reached (Bounded (2 ^ 32)) _ := .step hopen hbound
    (step_afterRequest "market.last" (by decide +kernel) (by decide +kernel))
  have htimeout : Reached (Bounded (2 ^ 32)) _ := .step hlast (by trivial)
    (@Step.timeout _ 1 false (by decide +kernel))
  have hsecond : Reached (Bounded (2 ^ 32)) _ := .step htimeout (by trivial)
    (@Step.connect _ 8 (by decide +kernel))
  exact ⟨_, hsecond, by decide +kernel, by decide +kernel, by decide +kernel, by decide +kernel,
    by decide +kernel, by decide +kernel⟩

theorem exists_goneThrough (hpos : 0 < n) (hn : n < 2 ^ 32) : ∃ w, GoneThrough n w := by
  induction n with
  | zero => exact absurd hpos (lt_irrefl 0)
  | succ n ih =>
    rcases Nat.eq_zero_or_pos n with rfl | hn'
    · exact goneThrough_start
    · obtain ⟨w, hw⟩ := ih hn' (Nat.lt_of_succ_lt hn)
      exact hw.next hn' (Nat.lt_of_succ_lt hn)

/-- After 2^32 - 1 more requests a reply that comes late goes to another connection. -/
theorem reply_to_another : ∃ w, Reached (Bounded (2 ^ 32)) w ∧ ∃ a ∈ w.written, ∃ call,
    a.content = .inl call ∧ w.arrived[call.no]? = some (7, 1) ∧ (a.ses, a.sesId) = (8, 2) := by
  obtain ⟨w, h⟩ := exists_goneThrough (n := sequences) (by decide) (by decide)
  have hcall : exampleCall ∈ (afterLast w).calls := by
    show exampleCall ∈ w.calls ++ [_]
    rw [h.calls]
    exact List.mem_append_left _ (List.mem_singleton_self _)
  have hreply : Reached (Bounded (2 ^ 32)) (onBackendRecvPkg false (afterLast w) exampleCall) :=
    .step (h.request (by decide)) (by trivial) (.reply hcall)
  have hsequence : exampleCall.sequence = NwState.sequenceOf w.issues.length := by
    rw [h.issues]
    decide
  rw [recvPkg_afterLast _ hsequence] at hreply
  refine ⟨_, hreply, _, List.mem_append_right _ (List.mem_singleton_self _), exampleCall, rfl,
    Gateway.getElem?_arrive h.first 8, ?_⟩
  rw [h.client]

/-- One request, and its reply. -/
theorem replies_to_requester_once : ∃ w, Reached (Bounded sequences) w ∧ w.written.length = 1 ∧
    w.RepliesRouted := by
  have hopen : Reached (Bounded sequences) _ := .step .refl (by trivial)
    (@Step.connect Gateway.create 7 (by decide +kernel))
  have hbound : Bounded sequences (Gateway.create.addClt 7 ())
      (.request 7 (fun _ => true) false (exampleRequest "market.last")) :=
    fun _ hout => absurd hout (Gateway.not_outstanding_create (I := Unit) (C := HttpAnswer))
  have hlast : Reached (Bounded sequences) _ := .step hopen hbound
    (step_afterRequest "market.last" (by decide +kernel) (by decide +kernel))
  have hreply : Reached (Bounded sequences) _ := .step hlast (by trivial)
    (@Step.reply _ exampleCall false (by decide +kernel))
  exact ⟨_, hreply, by decide +kernel, replies_to_requester.1 _ hreply⟩

end AccessHttp

end ViabtcExchange
