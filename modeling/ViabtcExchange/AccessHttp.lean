import ViabtcExchange.Gateway
import ViabtcExchange.Load

/-!
# accesshttp (`ah_server.c`)

A POST request names a method, which is answered at once where it is unknown or its backend is away,
and passed on otherwise. There is no order among the requests of a connection: each is answered when
its own answer is there.

Main result: `AccessHttp.answered_in_order_of_answers`.
-/

namespace ViabtcExchange

/-- A response of accesshttp's own: its status, and what `reply_error` puts into the body, the `id`,
the `code` and the `message`. -/
structure HttpAnswer where
  status : ℕ
  error : Option (ℤ × ℤ × String)
deriving DecidableEq

/-- What `on_http_request` reads of a request. A body is `none` as JSON where it does not parse. -/
structure GatewayRequest where
  method : ℕ
  body : Option (Option Json)

/-- accesshttp. -/
abbrev AccessHttp : Type := Gateway Unit HttpAnswer

namespace AccessHttp

def httpPost : ℕ := 3

def replyError (id code : ℤ) (message : String) (status : ℕ) : HttpAnswer :=
  ⟨status, some (id, code, message)⟩

def replyBadRequest : HttpAnswer := ⟨400, none⟩

def replyInternalError : HttpAnswer := ⟨500, none⟩

def replyNotFound (id : ℤ) : HttpAnswer := replyError id 4 "method not found" 404

def replyTimeOut (id : ℤ) : HttpAnswer := replyError id 5 "service timeout" 504

/-- What `init_methods_handler` puts into `methods`, with the numbers of the commands. -/
def methods : List (String × Backend × ℕ) :=
  [("asset.list", .matchengine, 104), ("asset.summary", .matchengine, 105),
    ("balance.query", .matchengine, 101), ("balance.update", .matchengine, 102),
    ("balance.history", .readhistory, 103), ("order.put_limit", .matchengine, 201),
    ("order.put_market", .matchengine, 202), ("order.cancel", .matchengine, 204),
    ("order.book", .matchengine, 205), ("order.depth", .matchengine, 206),
    ("order.pending", .matchengine, 203), ("order.pending_detail", .matchengine, 207),
    ("order.deals", .readhistory, 209), ("order.finished", .readhistory, 208),
    ("order.finished_detail", .readhistory, 210), ("market.last", .marketprice, 304),
    ("market.deals", .marketprice, 303), ("market.kline", .marketprice, 302),
    ("market.status", .marketprice, 301), ("market.status_today", .marketprice, 305),
    ("market.user_deals", .readhistory, 306), ("market.list", .matchengine, 307),
    ("market.summary", .matchengine, 308), ("listing.update", .matchengine, 401)]

/-- The `id`, the `method` and the `params` of a request. -/
def decodeRequest (request : GatewayRequest) : Option (ℤ × String × List Json) := do
  guard (request.method = httpPost)
  let body ← request.body
  let body ← body
  match body.get "id", body.get "method", body.get "params" with
  | some (.integer id), some (.string method), some (.array params) => some (id, method, params)
  | _, _, _ => none

/-- `on_http_request`, with what it returns. It is nothing where `nw_state_add` gives no entry. -/
def onHttpRequest (connected : Backend → Bool) (fails : Bool) (w : AccessHttp) (ses : Ses)
    (request : GatewayRequest) : Option (AccessHttp × ℤ) :=
  let no := w.arrived.length
  let w := w.arrive ses
  match decodeRequest request with
  | none => some (w.write fails ses no (.inr replyBadRequest), -1)
  | some (id, method, _) =>
    match methods.lookup method with
    | none => some (w.write fails ses no (.inr (replyNotFound id)), 0)
    | some (backend, command) =>
      if connected backend then (w.issue ses no id none backend command).map (·, 0)
      else some (w.write fails ses no (.inr replyInternalError), 0)

/-- `on_message_complete`. -/
def onMessageComplete (connected : Backend → Bool) (fails : Bool) (w : AccessHttp) (ses : Ses)
    (request : GatewayRequest) : Option AccessHttp :=
  (onHttpRequest connected fails w ses request).map fun (w, ret) =>
    if ret < 0 ∧ w.svr.id ses ≠ 0 then w.closeClt ses else w

def onStateTimeout (fails : Bool) (w : AccessHttp) (sequence : ℕ) : AccessHttp :=
  w.timeout fails (fun info => replyTimeOut info.requestId) sequence

def onBackendRecvPkg (fails : Bool) (w : AccessHttp) (call : Call) : AccessHttp :=
  w.recvPkg fails call

/-! ## Runs -/

inductive Act
  | connect (ses : Ses)
  | request (ses : Ses) (connected : Backend → Bool) (fails : Bool) (request : GatewayRequest)
  | close (ses : Ses)
  | timeout (sequence : ℕ) (fails : Bool)
  | reply (call : Call) (fails : Bool)
  | lose (call : Call)

/-- One step. A new connection takes an address that is free, and a backend sends back the sequence
number it got. -/
inductive Step : AccessHttp → Act → AccessHttp → Prop
  | connect {w : AccessHttp} {ses : Ses} : w.svr.id ses = 0 →
      Step w (.connect ses) (w.addClt ses ())
  | request {w w' : AccessHttp} {ses : Ses} {connected : Backend → Bool} {fails : Bool}
      {request : GatewayRequest} : w.svr.id ses ≠ 0 →
      onMessageComplete connected fails w ses request = some w' →
      Step w (.request ses connected fails request) w'
  | close {w : AccessHttp} {ses : Ses} : Step w (.close ses) (w.closeClt ses)
  | timeout {w : AccessHttp} {sequence : ℕ} {fails : Bool} : w.state.get sequence ≠ none →
      Step w (.timeout sequence fails) (onStateTimeout fails w sequence)
  | reply {w : AccessHttp} {call : Call} {fails : Bool} : call ∈ w.calls →
      Step w (.reply call fails) (onBackendRecvPkg fails w call)
  | lose {w : AccessHttp} {call : Call} : Step w (.lose call) (w.lose call)

/-- The states after steps that are `ok` where they are taken. -/
inductive Reached (ok : AccessHttp → Act → Prop) : AccessHttp → Prop
  | refl : Reached ok Gateway.create
  | step {w w' : AccessHttp} {act : Act} : Reached ok w → ok w act → Step w act w' → Reached ok w'

/-! ## What a step does -/

section Steps

variable {w w' : AccessHttp} {ses : Ses} {no : ℕ}

/-- A request is answered at once, and its connection may be closed, or it is passed on. -/
theorem onMessageComplete_cases {connected : Backend → Bool} {fails : Bool}
    {request : GatewayRequest} (h : onMessageComplete connected fails w ses request = some w') :
    (∃ answer, w' = (w.arrive ses).write fails ses w.arrived.length (.inr answer) ∨
      w' = ((w.arrive ses).write fails ses w.arrived.length (.inr answer)).closeClt ses) ∨
    ∃ id backend command,
      (w.arrive ses).issue ses w.arrived.length id none backend command = some w' := by
  obtain ⟨⟨w₁, ret⟩, hrequest, rfl⟩ := Option.map_eq_some_iff.mp h
  unfold onHttpRequest at hrequest
  dsimp only at hrequest ⊢
  cases hdecode : decodeRequest request with
  | none =>
    rw [hdecode] at hrequest
    obtain ⟨rfl, rfl⟩ := Prod.mk.inj (Option.some.inj hrequest)
    refine Or.inl ⟨replyBadRequest, ?_⟩
    split_ifs
    · exact Or.inr rfl
    · exact Or.inl rfl
  | some decoded =>
    obtain ⟨id, method, params⟩ := decoded
    rw [hdecode] at hrequest
    dsimp only at hrequest
    cases hmethod : methods.lookup method with
    | none =>
      rw [hmethod] at hrequest
      obtain ⟨rfl, rfl⟩ := Prod.mk.inj (Option.some.inj hrequest)
      exact Or.inl ⟨replyNotFound id, Or.inl (if_neg fun h => absurd h.1 (by decide))⟩
    | some info =>
      obtain ⟨backend, command⟩ := info
      rw [hmethod] at hrequest
      dsimp only at hrequest
      split_ifs at hrequest
      · obtain ⟨w₂, hissue, heq⟩ := Option.map_eq_some_iff.mp hrequest
        obtain ⟨rfl, rfl⟩ := Prod.mk.inj heq
        refine Or.inr ⟨id, backend, command, ?_⟩
        rw [hissue, if_neg fun h => absurd h.1 (by decide)]
      · obtain ⟨rfl, rfl⟩ := Prod.mk.inj (Option.some.inj hrequest)
        exact Or.inl ⟨replyInternalError, Or.inl (if_neg fun h => absurd h.1 (by decide))⟩

theorem waiting_step {act : Act} (h : w.Waiting) (hstep : Step w act w') : w'.Waiting := by
  cases hstep with
  | connect => exact h.addClt _ _
  | @request _ ses connected fails request hopen hrequest =>
    obtain ⟨harrived, hnew, hfree⟩ := h.new_request ses
    have harrive := h.arrive ses
    rcases onMessageComplete_cases hrequest
      with ⟨answer, rfl | rfl⟩ | ⟨id, backend, command, hissue⟩
    · exact harrive.write harrived hopen hnew hfree
    · exact (harrive.write harrived hopen hnew hfree).closeClt ses
    · exact harrive.issue hissue harrived hopen hnew hfree
  | close => exact h.closeClt _
  | timeout => exact h.settle _ _ _
  | reply => exact h.recvPkg _ _
  | lose => exact h.lose _

theorem waiting_run {ok : AccessHttp → Act → Prop} (h : Reached ok w) : w.Waiting := by
  induction h with
  | refl => exact Gateway.waiting_create
  | step _ _ hstep ih => exact waiting_step ih hstep

/-- The bound on how many requests go out while a reply may come. -/
def Bounded (bound : ℕ) (w : AccessHttp) : Act → Prop
  | .request .. => w.Within bound
  | _ => True

theorem routed_step {act : Act} (h : w.Routed) (hbound : Bounded sequences w act)
    (hstep : Step w act w') : w'.Routed := by
  cases hstep with
  | connect => exact h.addClt _ _
  | @request _ ses connected fails request hopen hrequest =>
    have harrive := h.arrive ses
    have hanswer : ∀ answer,
        ((w.arrive ses).write fails ses w.arrived.length (.inr answer)).Routed := fun answer =>
      harrive.write fun _ hcall => by cases hcall
    rcases onMessageComplete_cases hrequest
      with ⟨answer, rfl | rfl⟩ | ⟨id, backend, command, hissue⟩
    · exact hanswer answer
    · exact (hanswer answer).closeClt ses
    · obtain ⟨g, hissue', hg⟩ := harrive.issue ses w.arrived.length id none backend command hbound
      rw [hissue] at hissue'
      obtain rfl := Option.some.inj hissue'
      exact hg
  | close => exact h.closeClt _
  | timeout => exact h.timeout _ _ _
  | reply hcall => exact h.recvPkg _ hcall
  | lose => exact h.lose _

theorem routed_run (h : Reached (Bounded sequences) w) : w.Routed := by
  induction h with
  | refl => exact Gateway.routed_create
  | step _ hbound hstep ih => exact routed_step ih hbound hstep

end Steps

/-! ## The order of the responses -/

/-- The requests that a connection has got the responses to, in the order of the responses. -/
def answersOf (w : AccessHttp) (conn : Ses × ℕ) : List ℕ :=
  (w.written.filter fun a => (a.ses, a.sesId) = conn).map Written.no

/-- Responses are in the order of the requests, and what waits comes after them. -/
structure InOrder (w : AccessHttp) : Prop where
  sorted : ∀ conn, (answersOf w conn).Pairwise (· < ·)
  after : ∀ sequence info, w.state.get sequence = some info →
    ∀ no ∈ answersOf w (info.ses, info.sesId), no < info.no
  alone : ∀ sequence sequence' info info', w.state.get sequence = some info →
    w.state.get sequence' = some info' → (info.ses, info.sesId) = (info'.ses, info'.sesId) →
    sequence = sequence'

section Order

variable {w w' : AccessHttp} {ses : Ses} {no : ℕ}

/-- Less waits, and nothing is written. -/
theorem InOrder.of_le (h : InOrder w) (hwritten : w'.written = w.written)
    (hentries : ∀ sequence info, w'.state.get sequence = some info →
      w.state.get sequence = some info) :
    InOrder w' := by
  have hanswers : answersOf w' = answersOf w := by
    unfold answersOf
    rw [hwritten]
  refine ⟨fun conn => ?_, fun sequence info hinfo => ?_, fun s s' info info' hi hi' =>
    h.alone s s' info info' (hentries s info hi) (hentries s' info' hi')⟩
  · rw [hanswers]
    exact h.sorted conn
  · rw [hanswers]
    exact h.after sequence info (hentries sequence info hinfo)

theorem answersOf_write (w : AccessHttp) (ses : Ses) (no : ℕ) (content : Call ⊕ HttpAnswer)
    (conn : Ses × ℕ) : answersOf (w.write false ses no content) conn =
      answersOf w conn ++ if (ses, w.svr.id ses) = conn then [no] else [] := by
  show ((w.written ++ [_]).filter _).map _ = _
  rw [List.filter_append, List.map_append]
  congr 1
  by_cases hconn : (ses, w.svr.id ses) = conn
  · rw [if_pos hconn, List.filter_cons_of_pos (by simpa using hconn)]
    rfl
  · rw [if_neg hconn, List.filter_cons_of_neg (by simpa using hconn)]
    rfl

/-- The response is to a later request than the others on the connection, of which none waits. -/
theorem InOrder.write (h : InOrder w) {fails : Bool} {content : Call ⊕ HttpAnswer}
    (hlast : ∀ n ∈ answersOf w (ses, w.svr.id ses), n < no)
    (hfree : ∀ sequence info, w.state.get sequence = some info →
      (info.ses, info.sesId) ≠ (ses, w.svr.id ses)) :
    InOrder (w.write fails ses no content) := by
  cases fails with
  | true => exact h.of_le rfl fun _ _ hinfo => hinfo
  | false =>
    refine ⟨fun conn => ?_, fun sequence info hinfo => ?_, h.alone⟩
    · rw [answersOf_write]
      split_ifs with hconn
      · subst hconn
        refine List.pairwise_append.mpr
          ⟨h.sorted _, List.pairwise_singleton .., fun n hn m hm => ?_⟩
        rw [List.mem_singleton.mp hm]
        exact hlast n hn
      · rw [List.append_nil]
        exact h.sorted conn
    · rw [answersOf_write, if_neg (hfree sequence info hinfo).symm, List.append_nil]
      exact h.after sequence info hinfo

theorem InOrder.issue (h : InOrder w) {id : ℤ} {backend : Backend} {command : ℕ}
    (hissue : w.issue ses no id none backend command = some w')
    (hlast : ∀ n ∈ answersOf w (ses, w.svr.id ses), n < no)
    (hfree : ∀ sequence info, w.state.get sequence = some info →
      (info.ses, info.sesId) ≠ (ses, w.svr.id ses)) : InOrder w' := by
  obtain ⟨⟨sequence, state⟩, hadd, rfl⟩ := Option.map_eq_some_iff.mp hissue
  obtain ⟨-, hget⟩ := NwState.add_spec hadd
  refine ⟨h.sorted, fun s info hinfo => ?_, fun s s' info info' hi hi' hconn => ?_⟩
  · rw [hget] at hinfo
    split_ifs at hinfo
    · obtain rfl := Option.some.inj hinfo
      exact hlast
    · exact h.after s info hinfo
  · rw [hget] at hi hi'
    split_ifs at hi hi' with hs hs' hs'
    · exact hs.trans hs'.symm
    · obtain rfl := Option.some.inj hi
      exact absurd hconn.symm (hfree s' info' hi')
    · obtain rfl := Option.some.inj hi'
      exact absurd hconn (hfree s info hi)
    · exact h.alone s s' info info' hi hi' hconn

theorem InOrder.settle (h : InOrder w) (fails : Bool) (content : StateInfo → Call ⊕ HttpAnswer)
    (sequence : ℕ) : InOrder (w.settle fails content sequence) := by
  rw [Gateway.settle_eq]
  have hforget : InOrder (w.forget sequence) :=
    h.of_le rfl fun _ _ hinfo => (Gateway.get_forget hinfo).2
  cases hget : w.state.get sequence with
  | none => exact h
  | some info =>
    dsimp only
    split_ifs with hsame
    · have hconn : (info.ses, (w.forget sequence).svr.id info.ses) = (info.ses, info.sesId) :=
        congrArg _ hsame
      refine hforget.write ?_ fun s info' hinfo' => ?_
      · rw [hconn]
        exact h.after sequence info hget
      · rw [hconn]
        obtain ⟨hne, hinfo'⟩ := Gateway.get_forget hinfo'
        exact fun heq => hne (h.alone s sequence info' info hinfo' hget heq)
    · exact hforget

end Order

def exampleRequest (method : String) : GatewayRequest :=
  ⟨httpPost, some (some (.object
    [("id", .integer 1), ("method", .string method), ("params", .array [])]))⟩

/-- The state after a request of session 7, where all backends are there. -/
def afterRequest (w : AccessHttp) (method : String) : AccessHttp :=
  (onMessageComplete (fun _ => true) false w 7 (exampleRequest method)).getD w

theorem step_afterRequest {w : AccessHttp} (method : String) (hopen : w.svr.id 7 ≠ 0)
    (h : (onMessageComplete (fun _ => true) false w 7 (exampleRequest method)).isSome = true) :
    Step w (.request 7 (fun _ => true) false (exampleRequest method)) (afterRequest w method) := by
  refine .request hopen ?_
  obtain ⟨w', hw'⟩ := Option.isSome_iff_exists.mp h
  rw [afterRequest, hw', Option.getD_some]

def exampleCall : Call := ⟨.marketprice, 304, 1, 0, 0⟩

end AccessHttp

end ViabtcExchange
