import ViabtcExchange.AccessWs
import ViabtcExchange.MarketServer
import ViabtcExchange.NumberTexts

/-!
# Prices and figures, as subscribers get them (`aw_price.c`, `aw_state.c`, `aw_today.c`)

On every tick accessws asks marketprice for the last price of each market that has subscribers, and
on two more for its figures. What is answered is compared with what was sent last, and sent to all
of them if it has changed. The three files are one program for three kinds of value (`ValueKind`).

A subscription that is refused halfway leaves the session in the topics before the argument that was
refused, and it is not sent what is known of these. So nothing is said of such a session here.

**Theorem (`value_feed`).** Whatever the markets and the other clients do, and however late the
replies are, in whatever order, or lost: what a session was told last of a market it has subscribed
to is what marketprice had within its timeout before it answered, and this is the answer that
accessws compared last. A session that was told nothing has missed nothing: accessws knows nothing.
-/

namespace ViabtcExchange

/-- `struct market_val`, but for its sessions. When the answer was made that was compared with
`last` last is recorded for the theorems only. -/
structure MarketVal (V : Type) where
  last : V
  answered : Option ℚ

/-- `dict_market` of `aw_price.c`, `aw_state.c` or `aw_today.c`. -/
abbrev AwValues (V : Type) : Type := Topics Ses String (MarketVal V)

/-- What the three files differ in. `Shows` says what is sent for a value by `send_last`. -/
structure ValueKind (V : Type) where
  command : MarketCommand
  params : String → List Json
  fresh : V
  blank : V → Bool
  read : Json → Option V
  changed : V → V → Bool
  Shows : V → Json → Prop
  closeUnsubscribes : Bool

/-- `aw_price.c`. -/
def priceKind (mpd : Mpd ℚ) (toSci : FiniteDecimal → Numeral) : ValueKind ℚ where
  command := .marketLast
  params market := [.string market]
  fresh := mpd.zero
  blank last := mpd.cmp last mpd.zero = 0
  read
    | .string str => mpd.decimal str 0
    | _ => none
  changed last curr := mpd.cmp curr last ≠ 0
  Shows last json := ∃ d : FiniteDecimal, d.value = last ∧ jsonArrayAppendNewMpd toSci [] d = [json]
  closeUnsubscribes := true

/-- `aw_state.c`. `dumps` is `json_dumps` with `JSON_SORT_KEYS`. -/
def stateKind (dumps : Json → String) : ValueKind (Option Json) where
  command := .marketStatus
  params market := [.string market, .integer 86400]
  fresh := none
  blank := Option.isNone
  read result := some (some result)
  changed last curr := last.isNone || last.map dumps ≠ curr.map dumps
  Shows last json := last = some json
  closeUnsubscribes := false

/-- `aw_today.c`. -/
def todayKind (dumps : Json → String) : ValueKind (Option Json) :=
  { stateKind dumps with
    command := .marketStatusToday
    params := fun market => [.string market]
    closeUnsubscribes := true }

namespace AwValues

variable {V : Type} (k : ValueKind V) (dictMarket : AwValues V)

/-- `on_market_last_reply`, `on_market_status_reply` or `on_market_status_today_reply`, and who is
sent the result. -/
def onValueReply (market : String) (result : Json) (answered : ℚ) : AwValues V × Finset Ses :=
  match dictMarket.find market, k.read result with
  | some obj, some curr =>
    if k.changed obj.val.last curr then
      (dictMarket.insert market { obj with val := ⟨curr, some answered⟩ }, obj.sessions)
    else
      (dictMarket.insert market { obj with val := ⟨obj.val.last, some answered⟩ }, ∅)
  | _, _ => (dictMarket, ∅)

/-- `price_send_last`, `state_send_last` or `today_send_last`: the value that is sent, if one is. -/
def sendLast (market : String) : Option V :=
  match dictMarket.find market with
  | none => none
  | some obj => if k.blank obj.val.last then none else some obj.val.last

end AwValues

/-! ## Runs -/

/-- How things are written: the bodies of the requests, the numbers, JSON with sorted keys, and the
figures that marketprice answers with. -/
structure ValueWire where
  dumps : List Json → String
  toSci : FiniteDecimal → Numeral
  sorted : Json → String
  Figures : MarketReply ℚ → Json → Prop

/-- The last price is the text of `mpd_to_sci`. -/
def ValueWire.Writes (wire : ValueWire) : MarketReply ℚ → Json → Prop
  | .last last, json => ∃ d : FiniteDecimal, d.value = last ∧ json = .string (wire.toSci d).text
  | reply, json => wire.Figures reply json

/-- An answer on its way: no result if it is an error. -/
structure ValueReply where
  market : String
  result : Option Json
  time : ℚ

/-- marketprice and accessws, and what is under way between them. What a session was told of a
market since it subscribed, and whose subscription was accepted, are recorded for the theorems
only. -/
structure ValueWorld (V : Type) where
  price : MarketWorld ℚ
  dictMarket : AwValues V
  requests : List String
  replies : List ValueReply
  told : Ses → String → Option Json
  accepted : Finset Ses

namespace ValueWorld

variable {V : Type} (c : MarketSettings ℚ) (wire : ValueWire) (k : ValueKind V)

/-- The table after `on_method_price_subscribe` and its kin. -/
def subscribed (w : ValueWorld V) (ses : Ses) (params : List Json) : AwValues V :=
  subscribeMarkets ⟨k.fresh, none⟩ ses (w.dictMarket.unsubscribe ses) params

/-- `on_method_price_subscribe`, `on_method_state_subscribe` or `on_method_today_subscribe`, with
the texts of the values that are sent. -/
def subscribe (w : ValueWorld V) (ses : Ses) (params : List Json) (texts : String → Json) :
    ValueWorld V :=
  let dictMarket := w.subscribed k ses params
  let valid := params.all fun param => (marketParam param).isSome
  { w with
    dictMarket
    told := Function.update w.told ses fun market =>
      if valid ∧ ∃ param ∈ params, marketParam param = some market then
        (AwValues.sendLast k dictMarket market).map fun _ => texts market
      else none
    accepted := if valid then insert ses w.accepted else w.accepted.erase ses }

/-- `on_timer`, with the markets in the order of the iterator. -/
def onTimer (w : ValueWorld V) (markets : List String) : ValueWorld V :=
  { w with dictMarket := w.dictMarket.sweep, requests := w.requests ++ markets }

/-- `on_backend_recv_pkg`: an error ends the topic, and a result that is news is sent. -/
def onReply (w : ValueWorld V) (reply : ValueReply) : ValueWorld V :=
  match reply.result with
  | none => { w with dictMarket := w.dictMarket.erase reply.market }
  | some result =>
    let r := AwValues.onValueReply k w.dictMarket reply.market result reply.time
    { w with
      dictMarket := r.1
      told := fun ses market =>
        if market = reply.market ∧ ses ∈ r.2 then some result else w.told ses market }

/-- What becomes of an answer of marketprice. A connection that is closed answers nothing. -/
inductive Answer (market : String) (time : ℚ) :
    Option (Except Refusal (MarketReply ℚ)) → List ValueReply → Prop
  | result {result : MarketReply ℚ} {json : Json} : wire.Writes result json →
      Answer market time (some (.ok result)) [⟨market, some json, time⟩]
  | error {refusal : Refusal} : Answer market time (some (.error refusal)) [⟨market, none, time⟩]
  | closed : Answer market time none []

/-- One step. The clients of marketprice are others than accessws, too. A session that closes stays
in the table of `aw_state.c`, and another client may come to its address. A reply after the timeout
is not looked at, and is lost. -/
inductive Step : ValueWorld V → ValueWorld V → Prop
  | price {w : ValueWorld V} {price : MarketWorld ℚ} : MarketWorld.Step c w.price price →
      Step w { w with price }
  | subscribe {w : ValueWorld V} {ses : Ses} {params : List Json} {texts : String → Json} :
    (∀ market last, AwValues.sendLast k (w.subscribed k ses params) market = some last →
      k.Shows last (texts market)) → Step w (w.subscribe k ses params texts)
  | unsubscribe {w : ValueWorld V} {ses : Ses} :
      Step w { w with dictMarket := w.dictMarket.unsubscribe ses }
  | close {w : ValueWorld V} {ses : Ses} :
      Step w { w with
        dictMarket := if k.closeUnsubscribes then w.dictMarket.unsubscribe ses else w.dictMarket
        told := Function.update w.told ses fun _ => none
        accepted := w.accepted.erase ses }
  | tick {w : ValueWorld V} {markets : List String} :
    markets.Nodup → (∀ market, market ∈ markets ↔ market ∈ w.dictMarket.sweep) →
      Step w (w.onTimer markets)
  | answer {w : ValueWorld V} {market : String} {replies : List ValueReply} :
    market ∈ w.requests →
      Answer wire market w.price.clock
        (w.price.server.onRecvPkg c w.price.clock k.command
          (wire.dumps (k.params market))).2 replies →
      Step w { w with
        price := { w.price with
          server := (w.price.server.onRecvPkg c w.price.clock k.command
            (wire.dumps (k.params market))).1 }
        requests := w.requests.erase market
        replies := replies ++ w.replies }
  | reply {w : ValueWorld V} {reply : ValueReply} {before after : List ValueReply} :
    w.replies = before ++ reply :: after →
      Step w { w.onReply k reply with replies := before ++ after }
  | lose {w : ValueWorld V} {requests : List String} {replies : List ValueReply} :
    requests.Sublist w.requests → replies.Sublist w.replies → Step w { w with requests, replies }

inductive Reached : ValueWorld V → Prop
  | start (price : MarketPrice ℚ) (clock : ℚ) :
      Reached ⟨⟨⟨price, ∅⟩, clock, [(clock, price)]⟩, ∅, [], [], fun _ _ => none, ∅⟩
  | step {w w' : ValueWorld V} : Reached w → Step c wire k w w' → Reached w'

/-! ## What is true in every run -/

/-- An answer that marketprice could make within its timeout before `answered`. -/
def Right (past : List (ℚ × MarketPrice ℚ)) (market : String) (answered : ℚ) (json : Json) : Prop :=
  ∃ time p result, (time, p) ∈ past ∧ answered - c.cacheTimeout ≤ time ∧ time ≤ answered ∧
    p.reply c time k.command (wire.dumps (k.params market)) = some (.ok result) ∧
    wire.Writes result json

end ValueWorld

/-- What is read is no news. -/
def ValueKind.Reads {V : Type} (k : ValueKind V) (last : V) (json : Json) : Prop :=
  ∃ v, k.read json = some v ∧ k.changed last v = false

/-- What the results need of a kind: nothing is known at first, a value is no news after itself, nor
is what is sent for it. -/
structure ValueKind.Lawful {V : Type} (k : ValueKind V) : Prop where
  blank_fresh : k.blank k.fresh = true
  same : ∀ {json : Json} {v : V}, k.read json = some v → k.changed v v = false
  shows : ∀ {v : V} {json : Json}, k.Shows v json → k.blank v = false → k.Reads v json

namespace ValueWorld

variable {V : Type} (c : MarketSettings ℚ) (wire : ValueWire) (k : ValueKind V)

/-- What was compared last is the value that is kept. -/
def Compared (past : List (ℚ × MarketPrice ℚ)) (market : String) (val : MarketVal V) : Prop :=
  match val.answered with
  | none => val.last = k.fresh
  | some answered => ∃ json, Right c wire k past market answered json ∧ k.Reads val.last json

/-- A session knows what is kept. -/
def Told (val : MarketVal V) : Option Json → Prop
  | none => k.blank val.last = true
  | some json => val.answered.isSome = true ∧ k.Reads val.last json

structure Good (w : ValueWorld V) : Prop where
  caching : (marketServer c).Good w.price.toCaching
  replies : ∀ reply ∈ w.replies, ∀ json, reply.result = some json →
    Right c wire k w.price.past reply.market reply.time json
  compared : ∀ market obj, w.dictMarket.find market = some obj →
    Compared c wire k w.price.past market obj.val
  told : ∀ ses market obj, w.dictMarket.find market = some obj → ses ∈ obj.sessions →
    ses ∈ w.accepted → Told k obj.val (w.told ses market)

variable {c wire k} {w w' : ValueWorld V} {past past' : List (ℚ × MarketPrice ℚ)} {market : String}

theorem Right.mono (hpast : past ⊆ past') {answered : ℚ} {json : Json}
    (h : Right c wire k past market answered json) : Right c wire k past' market answered json := by
  obtain ⟨time, p, result, hmem, h⟩ := h
  exact ⟨time, p, result, hpast hmem, h⟩

theorem Compared.mono (hpast : past ⊆ past') {val : MarketVal V}
    (h : Compared c wire k past market val) : Compared c wire k past' market val := by
  unfold Compared at h ⊢
  cases hanswered : val.answered with
  | none => rwa [hanswered] at h
  | some answered =>
    rw [hanswered] at h
    obtain ⟨json, hright, hreads⟩ := h
    exact ⟨json, hright.mono hpast, hreads⟩

/-- marketprice goes on. -/
theorem Good.later (h : Good c wire k w) {price : MarketWorld ℚ}
    (hcaching : (marketServer c).Good price.toCaching) (hpast : w.price.past ⊆ price.past) :
    Good c wire k { w with price } where
  caching := hcaching
  replies reply hreply json hjson := (h.replies reply hreply json hjson).mono hpast
  compared market obj hobj := (h.compared market obj hobj).mono hpast
  told := h.told

/-- Subscriptions end, and topics are dropped. -/
theorem Good.shrinks (h : Good c wire k w) (hprice : w'.price = w.price)
    (hreplies : w'.replies ⊆ w.replies)
    (hdict : ∀ market obj', w'.dictMarket.find market = some obj' →
      ∃ obj, w.dictMarket.find market = some obj ∧ obj'.val = obj.val ∧
        obj'.sessions ⊆ obj.sessions)
    (haccepted : ∀ ses ∈ w'.accepted, ses ∈ w.accepted ∧ w'.told ses = w.told ses) :
    Good c wire k w' where
  caching := hprice ▸ h.caching
  replies reply hreply := hprice ▸ h.replies reply (hreplies hreply)
  compared market obj' hobj' := by
    obtain ⟨obj, hobj, hval, -⟩ := hdict market obj' hobj'
    rw [hprice, hval]
    exact h.compared market obj hobj
  told ses market obj' hobj' hses hacc := by
    obtain ⟨obj, hobj, hval, hsub⟩ := hdict market obj' hobj'
    obtain ⟨hold, htold⟩ := haccepted ses hacc
    rw [hval, htold]
    exact h.told ses market obj hobj (hsub hses) hold

section Tables

variable {dictMarket : AwValues V} {obj' : Topic Ses (MarketVal V)} {ses : Ses}

theorem shrinks_unsubscribe (hobj' : (dictMarket.unsubscribe ses).find market = some obj') :
    ∃ obj, dictMarket.find market = some obj ∧ obj'.val = obj.val ∧
      obj'.sessions ⊆ obj.sessions := by
  rw [Topics.find_unsubscribe] at hobj'
  obtain ⟨obj, hobj, rfl⟩ := Option.map_eq_some_iff.mp hobj'
  exact ⟨obj, hobj, rfl, Finset.erase_subset _ _⟩

theorem shrinks_sweep (hobj' : dictMarket.sweep.find market = some obj') :
    ∃ obj, dictMarket.find market = some obj ∧ obj'.val = obj.val ∧
      obj'.sessions ⊆ obj.sessions :=
  ⟨obj', ((Topics.find_sweep ..).mp hobj').1, rfl, Finset.Subset.refl _⟩

theorem shrinks_erase {market' : String}
    (hobj' : Dict.find (dictMarket.erase market') market = some obj') :
    ∃ obj, dictMarket.find market = some obj ∧ obj'.val = obj.val ∧
      obj'.sessions ⊆ obj.sessions := by
  rw [Dict.find_erase] at hobj'
  split_ifs at hobj'
  exact ⟨obj', hobj', rfl, Finset.Subset.refl _⟩

end Tables

/-! ### A subscription -/

/-- What a topic was before a session has subscribed to it. -/
theorem find_subscribeMarkets {fresh : V} {ses : Ses} {dictMarket : Topics Ses String V}
    {params : List Json} {obj : Topic Ses V}
    (hobj : (subscribeMarkets fresh ses dictMarket params).find market = some obj) :
    let old := (dictMarket.find market).getD ⟨∅, fresh⟩
    obj.val = old.val ∧ ∀ ses' ∈ obj.sessions, ses' ∈ old.sessions ∨
      ses' = ses ∧ ∃ param ∈ params, marketParam param = some market := by
  induction params generalizing dictMarket with
  | nil =>
    rw [subscribeMarkets] at hobj
    rw [hobj]
    exact ⟨rfl, fun ses' hses' => Or.inl hses'⟩
  | cons param params ih =>
    rw [subscribeMarkets] at hobj
    cases hparam : marketParam param with
    | none =>
      rw [hparam] at hobj
      rw [hobj]
      exact ⟨rfl, fun ses' hses' => Or.inl hses'⟩
    | some name =>
      rw [hparam] at hobj
      obtain ⟨hval, hsessions⟩ := ih hobj
      rw [Topics.find_subscribe] at hval hsessions
      by_cases hname : market = name
      · subst hname
        rw [if_pos rfl, Option.getD_some] at hval hsessions
        refine ⟨hval, fun ses' hses' => ?_⟩
        rcases hsessions ses' hses' with hold | ⟨rfl, param', hmem, hmarket⟩
        · rcases Finset.mem_insert.mp hold with rfl | hold
          · exact Or.inr ⟨rfl, param, List.mem_cons_self, hparam⟩
          · exact Or.inl hold
        · exact Or.inr ⟨rfl, param', List.mem_cons_of_mem _ hmem, hmarket⟩
      · rw [if_neg hname] at hval hsessions
        refine ⟨hval, fun ses' hses' => (hsessions ses' hses').imp_right ?_⟩
        rintro ⟨rfl, param', hmem, hmarket⟩
        exact ⟨rfl, param', List.mem_cons_of_mem _ hmem, hmarket⟩

theorem sendLast_find {dictMarket : AwValues V} {obj : Topic Ses (MarketVal V)}
    (hobj : dictMarket.find market = some obj) : AwValues.sendLast k dictMarket market =
      if k.blank obj.val.last then none else some obj.val.last := by
  unfold AwValues.sendLast
  rw [hobj]

/-- A topic that somebody subscribes to is an old one, or nothing is known of it. -/
theorem subscribed_cases {ses : Ses} {params : List Json}
    {obj : Topic Ses (MarketVal V)} (hobj : (w.subscribed k ses params).find market = some obj) :
    (∃ old, w.dictMarket.find market = some old ∧ obj.val = old.val ∧
      ∀ ses' ∈ obj.sessions, ses' ≠ ses → ses' ∈ old.sessions) ∨
    obj.val = ⟨k.fresh, none⟩ ∧ ∀ ses' ∈ obj.sessions, ses' = ses := by
  obtain ⟨hval, hsessions⟩ := find_subscribeMarkets hobj
  rw [Topics.find_unsubscribe] at hval hsessions
  cases hold : w.dictMarket.find market with
  | none =>
    rw [hold] at hval hsessions
    refine Or.inr ⟨hval, fun ses' hses' => ?_⟩
    rcases hsessions ses' hses' with hmem | ⟨rfl, -⟩
    · exact absurd hmem (Finset.notMem_empty _)
    · rfl
  | some old =>
    rw [hold] at hval hsessions
    refine Or.inl ⟨old, rfl, hval, fun ses' hses' hne => ?_⟩
    rcases hsessions ses' hses' with hmem | ⟨rfl, -⟩
    · exact Finset.mem_of_mem_erase hmem
    · exact absurd rfl hne

/-- A session that has subscribed to a market has named it. -/
theorem named_of_subscribed {ses : Ses} {params : List Json} {obj : Topic Ses (MarketVal V)}
    (hobj : (w.subscribed k ses params).find market = some obj) (hses : ses ∈ obj.sessions) :
    ∃ param ∈ params, marketParam param = some market := by
  obtain ⟨-, hsessions⟩ := find_subscribeMarkets hobj
  rcases hsessions ses hses with hmem | ⟨-, hnamed⟩
  · rw [Topics.find_unsubscribe] at hmem
    cases hold : w.dictMarket.find market with
    | none => simp [hold] at hmem
    | some old => simp [hold] at hmem
  · exact hnamed

/-- What is known is sent to who has subscribed. -/
theorem told_sendLast (hk : k.Lawful) {past : List (ℚ × MarketPrice ℚ)}
    {dictMarket : AwValues V} {obj : Topic Ses (MarketVal V)} {texts : String → Json}
    (hobj : dictMarket.find market = some obj) (hcompared : Compared c wire k past market obj.val)
    (htexts : ∀ last, AwValues.sendLast k dictMarket market = some last →
      k.Shows last (texts market)) :
    Told k obj.val ((AwValues.sendLast k dictMarket market).map fun _ => texts market) := by
  have hsend := sendLast_find (k := k) hobj
  by_cases hblank : k.blank obj.val.last = true
  · rw [hsend, if_pos hblank]
    exact hblank
  · rw [if_neg hblank] at hsend
    rw [hsend]
    refine ⟨?_, hk.shows (htexts _ hsend) (Bool.eq_false_iff.mpr hblank)⟩
    unfold Compared at hcompared
    cases hanswered : obj.val.answered with
    | none =>
      rw [hanswered] at hcompared
      rw [show obj.val.last = k.fresh from hcompared, hk.blank_fresh] at hblank
      exact absurd rfl hblank
    | some answered => rfl

theorem Good.subscribe (hk : k.Lawful) (h : Good c wire k w) {ses : Ses} {params : List Json}
    {texts : String → Json}
    (htexts : ∀ market last, AwValues.sendLast k (w.subscribed k ses params) market = some last →
      k.Shows last (texts market)) : Good c wire k (w.subscribe k ses params texts) := by
  have hcompared : ∀ market obj, (w.subscribed k ses params).find market = some obj →
      Compared c wire k w.price.past market obj.val := by
    intro market obj hobj
    rcases subscribed_cases hobj with ⟨old, hold, hval, -⟩ | ⟨hval, -⟩
    · rw [hval]
      exact h.compared market old hold
    · rw [hval]
      rfl
  refine ⟨h.caching, h.replies, hcompared, fun ses' market obj hobj hses' haccepted => ?_⟩
  by_cases hne : ses' = ses
  · subst hne
    have hvalid : (params.all fun param => (marketParam param).isSome) = true := by
      by_contra hnot
      unfold ValueWorld.subscribe at haccepted
      dsimp only at haccepted
      rw [if_neg hnot] at haccepted
      exact Finset.notMem_erase _ _ haccepted
    unfold ValueWorld.subscribe
    dsimp only
    rw [Function.update_self, if_pos ⟨hvalid, named_of_subscribed hobj hses'⟩]
    exact told_sendLast hk hobj (hcompared market obj hobj) (htexts market)
  · rcases subscribed_cases hobj with ⟨old, hold, hval, hsessions⟩ | ⟨-, honly⟩
    · have hacc : ses' ∈ w.accepted := by
        unfold ValueWorld.subscribe at haccepted
        dsimp only at haccepted
        split_ifs at haccepted
        · exact (Finset.mem_insert.mp haccepted).resolve_left hne
        · exact Finset.mem_of_mem_erase haccepted
      unfold ValueWorld.subscribe
      dsimp only
      rw [Function.update_of_ne hne, hval]
      exact h.told ses' market old hold (hsessions ses' hses' hne) hacc
    · exact absurd (honly ses' hses') hne

/-! ### A reply -/

/-- What becomes of the topic of a reply. -/
theorem onValueReply_cases (dictMarket : AwValues V) (market : String) (result : Json)
    (answered : ℚ) :
    AwValues.onValueReply k dictMarket market result answered = (dictMarket, ∅) ∨
    ∃ obj curr, dictMarket.find market = some obj ∧ k.read result = some curr ∧
      ((k.changed obj.val.last curr = true ∧
        AwValues.onValueReply k dictMarket market result answered =
          (dictMarket.insert market { obj with val := ⟨curr, some answered⟩ }, obj.sessions)) ∨
      (k.changed obj.val.last curr = false ∧
        AwValues.onValueReply k dictMarket market result answered =
          (dictMarket.insert market { obj with val := ⟨obj.val.last, some answered⟩ }, ∅))) := by
  unfold AwValues.onValueReply
  cases hobj : dictMarket.find market with
  | none => exact Or.inl rfl
  | some obj =>
    cases hread : k.read result with
    | none => exact Or.inl rfl
    | some curr =>
      refine Or.inr ⟨obj, curr, rfl, rfl, ?_⟩
      cases hchanged : k.changed obj.val.last curr with
      | true => exact Or.inl ⟨rfl, by simp [hchanged]⟩
      | false => exact Or.inr ⟨rfl, by simp [hchanged]⟩

theorem onReply_replies (reply : ValueReply) : (w.onReply k reply).replies = w.replies := by
  unfold onReply
  split <;> rfl

/-- A topic gets another value, and its subscribers know it. -/
theorem Good.revalued (h : Good c wire k w) {obj : Topic Ses (MarketVal V)} {val : MarketVal V}
    {told : Ses → String → Option Json} (hcompared : Compared c wire k w.price.past market val)
    (htold : ∀ ses ∈ obj.sessions, ses ∈ w.accepted → Told k val (told ses market))
    (hothers : ∀ ses market', market' ≠ market → told ses market' = w.told ses market') :
    Good c wire k { w with
      dictMarket := w.dictMarket.insert market { obj with val }
      told } where
  caching := h.caching
  replies := h.replies
  compared market' obj' hobj' := by
    rw [Dict.find_insert] at hobj'
    split_ifs at hobj' with hmarket
    · subst hmarket
      obtain rfl := Option.some.inj hobj'
      exact hcompared
    · exact h.compared market' obj' hobj'
  told ses market' obj' hobj' hses hacc := by
    rw [Dict.find_insert] at hobj'
    split_ifs at hobj' with hmarket
    · subst hmarket
      obtain rfl := Option.some.inj hobj'
      exact htold ses hses hacc
    · dsimp only
      rw [hothers ses market' hmarket]
      exact h.told ses market' obj' hobj' hses hacc

/-- accessws takes a result. -/
theorem Good.taken (hk : k.Lawful) (h : Good c wire k w) {market : String} {result : Json}
    {time : ℚ} (hright : Right c wire k w.price.past market time result) :
    Good c wire k (w.onReply k ⟨market, some result, time⟩) := by
  unfold onReply
  rcases onValueReply_cases (k := k) w.dictMarket market result time with hsame |
    ⟨obj, curr, hobj, hread, ⟨hchanged, hnews⟩ | ⟨hchanged, hold⟩⟩
  · simp only [hsame, Finset.notMem_empty, and_false, if_false]
    exact ⟨h.caching, h.replies, h.compared, h.told⟩
  · simp only [hnews]
    have hreads : k.Reads curr result := ⟨curr, hread, hk.same hread⟩
    refine h.revalued ⟨result, hright, hreads⟩ (fun ses hses _ => ?_) fun ses market' hne => ?_
    · rw [if_pos ⟨rfl, hses⟩]
      exact ⟨rfl, hreads⟩
    · rw [if_neg fun hand => hne hand.1]
  · simp only [hold, Finset.notMem_empty, and_false, if_false]
    refine h.revalued ⟨result, hright, curr, hread, hchanged⟩ (fun ses hses hacc => ?_)
      fun _ _ _ => rfl
    -- the value is still the one before, and the sessions know it
    have htold := h.told ses market obj hobj hses hacc
    cases htext : w.told ses market with
    | none => rwa [htext] at htold
    | some json =>
      rw [htext] at htold
      exact ⟨rfl, htold.2⟩

/-! ### Every step -/

/-- An answer of marketprice is right. -/
theorem Good.answered (h : Good c wire k w) (htimeout : 0 ≤ c.cacheTimeout) {market : String}
    {replies : List ValueReply}
    (hanswer : Answer wire market w.price.clock (w.price.server.onRecvPkg c w.price.clock k.command
      (wire.dumps (k.params market))).2 replies) :
    ∀ reply ∈ replies, ∀ json, reply.result = some json →
      Right c wire k w.price.past reply.market reply.time json := by
  intro reply hreply json hjson
  generalize hsent : (w.price.server.onRecvPkg c w.price.clock k.command
    (wire.dumps (k.params market))).2 = sent at hanswer
  cases hanswer with
  | @result result json' hwrites =>
    obtain rfl := List.mem_singleton.mp hreply
    obtain rfl := Option.some.inj hjson
    obtain ⟨time, p, hmem, hle, hle', hfresh⟩ := MarketWorld.result_recent h.caching htimeout hsent
    exact ⟨time, p, result, hmem, hle, hle', hfresh, hwrites⟩
  | error =>
    obtain rfl := List.mem_singleton.mp hreply
    cases hjson
  | closed => exact absurd hreply List.not_mem_nil

theorem Good.step (hk : k.Lawful) (htimeout : 0 ≤ c.cacheTimeout) (h : Good c wire k w)
    (hstep : Step c wire k w w') : Good c wire k w' := by
  cases hstep with
  | price hprice =>
    exact h.later (h.caching.step (MarketWorld.toCaching_step hprice))
      (MarketWorld.past_subset hprice)
  | subscribe htexts => exact h.subscribe hk htexts
  | unsubscribe =>
    exact h.shrinks rfl (List.Subset.refl _) (fun _ _ hobj' => shrinks_unsubscribe hobj')
      fun _ hacc => ⟨hacc, rfl⟩
  | @close ses =>
    refine h.shrinks rfl (List.Subset.refl _) (fun market obj' hobj' => ?_) fun ses' hacc => ?_
    · dsimp only at hobj'
      split_ifs at hobj'
      · exact shrinks_unsubscribe hobj'
      · exact ⟨obj', hobj', rfl, Finset.Subset.refl _⟩
    · exact ⟨Finset.mem_of_mem_erase hacc, Function.update_of_ne (Finset.ne_of_mem_erase hacc) ..⟩
  | tick =>
    exact h.shrinks rfl (List.Subset.refl _) (fun _ _ hobj' => shrinks_sweep hobj')
      fun _ hacc => ⟨hacc, rfl⟩
  | @answer market replies _ hanswer =>
    have hrequest : MarketWorld.Step c w.price _ :=
      .request k.command (wire.dumps (k.params market))
    have hlater := h.later (h.caching.step (MarketWorld.toCaching_step hrequest))
      (List.Subset.refl _)
    refine ⟨hlater.caching, fun reply hreply => ?_, hlater.compared, hlater.told⟩
    rcases List.mem_append.mp hreply with hnew | hold
    · exact h.answered htimeout hanswer reply hnew
    · exact h.replies reply hold
  | @reply reply before after hreplies =>
    have hsub : before ++ after ⊆ (w.onReply k reply).replies := by
      rw [onReply_replies, hreplies]
      exact ((List.sublist_cons_self _ _).append_left _).subset
    have hgood : Good c wire k (w.onReply k reply) := by
      obtain ⟨market, _ | result, time⟩ := reply
      · exact h.shrinks rfl (List.Subset.refl _) (fun _ _ hobj' => shrinks_erase hobj')
          fun _ hacc => ⟨hacc, rfl⟩
      · exact h.taken hk (h.replies ⟨market, some result, time⟩ (by simp [hreplies]) result rfl)
    exact hgood.shrinks rfl hsub (fun _ obj' hobj' => ⟨obj', hobj', rfl, Finset.Subset.refl _⟩)
      fun _ hacc => ⟨hacc, rfl⟩
  | lose hrequests hreplies =>
    exact h.shrinks rfl hreplies.subset
      (fun _ obj' hobj' => ⟨obj', hobj', rfl, Finset.Subset.refl _⟩) fun _ hacc => ⟨hacc, rfl⟩

theorem good_start (price : MarketPrice ℚ) (clock : ℚ) :
    Good c wire k ⟨⟨⟨price, ∅⟩, clock, [(clock, price)]⟩, ∅, [], [], fun _ _ => none, ∅⟩ where
  caching := (MarketWorld.toCaching_reached (.start price clock)).good
  replies reply hreply := absurd hreply List.not_mem_nil
  compared market obj hobj := by simp at hobj
  told ses market obj hobj := by simp at hobj

theorem good_run (hk : k.Lawful) (htimeout : 0 ≤ c.cacheTimeout) (hrun : Reached c wire k w) :
    Good c wire k w := by
  induction hrun with
  | start price clock => exact good_start price clock
  | step _ hstep ih => exact ih.step hk htimeout hstep

end ValueWorld

/-! ## The three files -/

/-- What is sent to subscribers. -/
inductive ValueFeed
  | price
  | state
  | today

namespace ValueFeed

def Val : ValueFeed → Type
  | price => ℚ
  | state | today => Option Json

def kind (wire : ValueWire) : (feed : ValueFeed) → ValueKind feed.Val
  | price => priceKind exactDecimal wire.toSci
  | state => stateKind wire.sorted
  | today => todayKind wire.sorted

/-- What a client is told about a market, at a time. -/
def Says (c : MarketSettings ℚ) (wire : ValueWire) (info : MarketInfo ℚ) (time : ℚ) (json : Json) :
    ValueFeed → Prop
  | price => ∃ str, json = .string str ∧ exactDecimal.decimal str 0 = some info.last
  | state => ∃ json', wire.Figures (.status (info.getMarketStatus c.price.mpd ⌊time⌋ 86400)) json' ∧
    wire.sorted json = wire.sorted json'
  | today => ∃ json',
    wire.Figures (.today (info.getMarketStatusToday c.price.mpd c.price.dayStart ⌊time⌋)) json' ∧
      wire.sorted json = wire.sorted json'

variable {c : MarketSettings ℚ} {wire : ValueWire}

theorem priceKind_read {toSci : FiniteDecimal → Numeral} (str : String) :
    (priceKind exactDecimal toSci).read (.string str) = exactDecimal.decimal str 0 := rfl

/-- Prices are news if they are different numbers. -/
theorem priceKind_changed {toSci : FiniteDecimal → Numeral} {last curr : ℚ} :
    (priceKind exactDecimal toSci).changed last curr = false ↔ curr = last := by
  unfold priceKind
  rw [decide_eq_false_iff_not, not_not, ratMpd_cmp_eq]

theorem lawful_price {toSci : FiniteDecimal → Numeral} (htoSci : ∀ d, (toSci d).value = d.value) :
    (priceKind exactDecimal toSci).Lawful where
  blank_fresh := by
    unfold priceKind
    rw [decide_eq_true_eq, ratMpd_cmp_eq]
  same _ := priceKind_changed.mpr rfl
  shows := by
    intro v json hshows _
    obtain ⟨d, hd, hjson⟩ := hshows
    unfold jsonArrayAppendNewMpd at hjson
    rw [List.nil_append, List.singleton_inj] at hjson
    subst hjson
    exact ⟨d.value, (priceKind_read _).trans (decimal_exact htoSci d), priceKind_changed.mpr hd⟩

theorem lawful_state (dumps : Json → String) : (stateKind dumps).Lawful where
  blank_fresh := rfl
  same h := by
    obtain rfl := Option.some.inj h
    simp [stateKind]
  shows := by
    rintro v json rfl -
    exact ⟨some json, rfl, by simp [stateKind]⟩

theorem lawful_today (dumps : Json → String) : (todayKind dumps).Lawful :=
  ⟨(lawful_state dumps).blank_fresh, (lawful_state dumps).same, (lawful_state dumps).shows⟩

theorem lawful_kind (htoSci : ∀ d, (wire.toSci d).value = d.value) (feed : ValueFeed) :
    (feed.kind wire).Lawful := by
  cases feed with
  | price => exact lawful_price htoSci
  | state => exact lawful_state wire.sorted
  | today => exact lawful_today wire.sorted

/-! ### What marketprice answers -/

theorem computes_of_reply {p : MarketPrice ℚ} {time : ℚ} {command : MarketCommand} {body : String}
    {params : List Json} {result : MarketReply ℚ} (hbody : c.loadb body = some (.array params))
    (h : p.reply c time command body = some (.ok result)) :
    command.computes c p ⌊time⌋ params = .ok result := by
  rw [reply_eq, sent_ok] at h
  have hcompute := CachingServer.compute_of_fresh h
  rw [show (marketServer c).compute p time (command, body) = _ from
    withParams_array hbody] at hcompute
  cases hresult : command.computes c p ⌊time⌋ params with
  | error e => simp [hresult, Except.mapError] at hcompute
  | ok result' => simpa [hresult, Except.mapError] using hcompute

/-- What marketprice has for a feed. -/
def value (c : MarketSettings ℚ) (info : MarketInfo ℚ) (now : ℤ) : ValueFeed → MarketReply ℚ
  | price => .last info.last
  | state => .status (info.getMarketStatus c.price.mpd now 86400)
  | today => .today (info.getMarketStatusToday c.price.mpd c.price.dayStart now)

theorem infoAt_ok {p : MarketPrice ℚ} {params : List Json} {market : String} {info : MarketInfo ℚ}
    (hmarket : params[(0 : ℕ)]? = some (.string market)) (h : infoAt p params 0 = .ok info) :
    p.dictMarket.find market = some info := by
  obtain ⟨name, hname, h⟩ := read_bind.mp h
  unfold stringAt at hname
  rw [hmarket] at hname
  obtain rfl := Except.ok.inj hname
  split at h
  · rename_i info' hfind
    obtain rfl := Except.ok.inj h
    exact hfind
  · cases h

theorem readOneMarket_ok {p : MarketPrice ℚ} {market : String} {info : MarketInfo ℚ}
    (h : readOneMarket p [.string market] = .ok info) : p.dictMarket.find market = some info := by
  obtain ⟨-, -, h⟩ := read_bind.mp h
  exact infoAt_ok rfl h

/-- A feed is answered with its value. -/
theorem value_of_computes {p : MarketPrice ℚ} {now : ℤ} {market : String} {result : MarketReply ℚ}
    (feed : ValueFeed) (h : (feed.kind wire).command.computes c p now
      ((feed.kind wire).params market) = .ok result) :
    ∃ info, p.dictMarket.find market = some info ∧ result = feed.value c info now := by
  cases feed with
  | price =>
    obtain ⟨info, hinfo, h⟩ := read_bind.mp h
    obtain rfl := Except.ok.inj h
    exact ⟨info, readOneMarket_ok hinfo, rfl⟩
  | state =>
    obtain ⟨args, hargs, h⟩ := read_bind.mp h
    obtain rfl := Except.ok.inj h
    obtain ⟨-, -, hargs⟩ := read_bind.mp hargs
    obtain ⟨info, hinfo, hargs⟩ := read_bind.mp hargs
    obtain ⟨-, -, hargs⟩ := read_bind.mp hargs
    obtain rfl := Except.ok.inj hargs
    exact ⟨info, infoAt_ok rfl hinfo, rfl⟩
  | today =>
    obtain ⟨info, hinfo, h⟩ := read_bind.mp h
    obtain rfl := Except.ok.inj h
    exact ⟨info, readOneMarket_ok hinfo, rfl⟩

/-- What is read in two texts that are both no news is the same price. -/
theorem reads_price {toSci : FiniteDecimal → Numeral} {last : ℚ} {json : Json}
    (h : (priceKind exactDecimal toSci).Reads last json) :
    ∃ str, json = .string str ∧ exactDecimal.decimal str 0 = some last := by
  obtain ⟨v, hread, hsame⟩ := h
  obtain rfl := priceKind_changed.mp hsame
  cases json with
  | string str => exact ⟨str, rfl, hread⟩
  | _ => cases hread

theorem reads_sorted {dumps : Json → String} {last : Option Json} {json : Json}
    (h : (stateKind dumps).Reads last json) : last.map dumps = some (dumps json) := by
  obtain ⟨v, hread, hsame⟩ := h
  obtain rfl := Option.some.inj hread
  simp only [stateKind, Bool.or_eq_false_iff, decide_eq_false_iff_not, not_not] at hsame
  exact hsame.2

/-- What a client was told says what was answered. -/
theorem says_of_reads (htoSci : ∀ d, (wire.toSci d).value = d.value) (feed : ValueFeed)
    {info : MarketInfo ℚ} {time : ℚ} {last : feed.Val} {json json' : Json}
    (hwrites : wire.Writes (feed.value c info ⌊time⌋) json')
    (hanswer : (feed.kind wire).Reads last json') (htold : (feed.kind wire).Reads last json) :
    feed.Says c wire info time json := by
  cases feed with
  | price =>
    obtain ⟨d, hd, rfl⟩ := hwrites
    obtain ⟨str, hstr, hread⟩ := reads_price hanswer
    obtain rfl := Json.string.inj hstr
    obtain ⟨str', rfl, hread'⟩ := reads_price htold
    refine ⟨str', rfl, hread'.trans ?_⟩
    rw [← hread, ← hd, ← htoSci]
    simp [Mpd.decimal, Mpd.cut, ratMpd, readDecimal_text]
  | state =>
    have hsame := (reads_sorted htold).symm.trans (reads_sorted hanswer)
    exact ⟨json', hwrites, Option.some.inj hsame⟩
  | today =>
    have hsame := (@reads_sorted wire.sorted _ _ htold).symm.trans (reads_sorted hanswer)
    exact ⟨json', hwrites, Option.some.inj hsame⟩

end ValueFeed

open ValueWorld in
/-- **What a session was told is what marketprice had** within its timeout before the answer that
accessws compared last. A session that was told nothing has missed nothing. -/
theorem value_feed {c : MarketSettings ℚ} {wire : ValueWire} (feed : ValueFeed)
    {w : ValueWorld feed.Val} (htimeout : 0 ≤ c.cacheTimeout)
    (htoSci : ∀ d, (wire.toSci d).value = d.value)
    (hwire : ∀ market, c.loadb (wire.dumps ((feed.kind wire).params market)) =
      some (.array ((feed.kind wire).params market)))
    (hrun : Reached c wire (feed.kind wire) w) {ses : Ses} {market : String}
    {obj : Topic Ses (MarketVal feed.Val)} (hobj : w.dictMarket.find market = some obj)
    (hses : ses ∈ obj.sessions) (haccepted : ses ∈ w.accepted) :
    match w.told ses market with
    | none => (feed.kind wire).blank obj.val.last = true
    | some json => ∃ answered time p info, obj.val.answered = some answered ∧
        (time, p) ∈ w.price.past ∧ answered - c.cacheTimeout ≤ time ∧ time ≤ answered ∧
        p.dictMarket.find market = some info ∧ feed.Says c wire info time json := by
  have hgood := good_run (ValueFeed.lawful_kind htoSci feed) htimeout hrun
  have htold := hgood.told ses market obj hobj hses haccepted
  cases hjson : w.told ses market with
  | none => rwa [hjson] at htold
  | some json =>
    rw [hjson] at htold
    obtain ⟨hsome, hreads⟩ := htold
    obtain ⟨answered, hanswered⟩ := Option.isSome_iff_exists.mp hsome
    have hcompared := hgood.compared market obj hobj
    unfold Compared at hcompared
    rw [hanswered] at hcompared
    obtain ⟨json', ⟨time, p, result, hmem, hle, hle', hreply, hwrites⟩, hanswer⟩ := hcompared
    obtain ⟨info, hinfo, rfl⟩ :=
      ValueFeed.value_of_computes feed (ValueFeed.computes_of_reply (hwire market) hreply)
    exact ⟨answered, time, p, info, hanswered, hmem, hle, hle', hinfo,
      ValueFeed.says_of_reads htoSci feed hwrites hanswer hreads⟩

/-! ## A price -/

namespace ValueWorld

/-- `json_loadb`, of the bodies that ask for a price. -/
def pricesLoadb (body : String) : Option Json :=
  some (.array [.string (String.ofList (body.toList.drop 2).dropLast.dropLast)])

def pricesAsked : MarketSettings ℚ :=
  { MarketWorld.exampleMarketSettings with loadb := pricesLoadb }

/-- No figures are asked for. -/
def pricesWire : ValueWire where
  dumps
    | [.string market] => String.ofList ('[' :: '"' :: market.toList ++ ['"', ']'])
    | _ => ""
  toSci := FiniteDecimal.scientific
  sorted _ := ""
  Figures _ _ := False

abbrev pricesKind : ValueKind ValueFeed.price.Val := ValueFeed.price.kind pricesWire

theorem pricesLoadb_dumps (market : String) :
    pricesLoadb (pricesWire.dumps [.string market]) = some (.array [.string market]) := by
  have hchars : (market.toList ++ ['"', ']']).dropLast.dropLast = market.toList := by
    rw [show market.toList ++ ['"', ']'] = market.toList ++ ['"'] ++ [']'] by simp,
      List.dropLast_concat, List.dropLast_concat]
  unfold pricesLoadb pricesWire
  dsimp only
  rw [String.toList_ofList]
  simp only [List.cons_append, List.drop_succ_cons, List.drop_zero, hchars, String.ofList_toList]

/-- Nobody has subscribed yet. -/
def priceStart : ValueWorld ValueFeed.price.Val :=
  ⟨⟨⟨MarketWorld.pricedAt 5, ∅⟩, 100, [(100, MarketWorld.pricedAt 5)]⟩, ∅, [], [],
    fun _ _ => none, ∅⟩

/-- A session subscribes. -/
def priceSubscribed : ValueWorld ValueFeed.price.Val :=
  priceStart.subscribe pricesKind 7 [.string "BTCCNY"] fun _ => .null

theorem priceSubscribed_reached : Reached pricesAsked pricesWire pricesKind priceSubscribed := by
  refine .step (.start (MarketWorld.pricedAt 5) 100) (.subscribe fun market last hlast => ?_)
  unfold AwValues.sendLast at hlast
  split at hlast
  · cases hlast
  · rename_i obj hobj
    obtain ⟨hval, -⟩ := find_subscribeMarkets hobj
    rw [hval] at hlast
    cases hlast

/-- The price is asked for, and answered. -/
def priceAnswered : ValueWorld ValueFeed.price.Val :=
  let w := priceSubscribed.onTimer ["BTCCNY"]
  { w with
    price := { w.price with
      server := (w.price.server.onRecvPkg pricesAsked w.price.clock pricesKind.command
        (pricesWire.dumps (pricesKind.params "BTCCNY"))).1 }
    requests := w.requests.erase "BTCCNY"
    replies := [⟨"BTCCNY", some (.string "5"), w.price.clock⟩] ++ w.replies }

theorem priceAnswered_reached : Reached pricesAsked pricesWire pricesKind priceAnswered := by
  have hasked : Reached pricesAsked pricesWire pricesKind (priceSubscribed.onTimer ["BTCCNY"]) := by
    refine .step priceSubscribed_reached (.tick (by decide) fun market => ?_)
    rw [← Finmap.mem_keys, ← List.mem_toFinset]
    have hkeys : ["BTCCNY"].toFinset = priceSubscribed.dictMarket.sweep.keys := by decide +kernel
    rw [hkeys]
  have hsent : ((⟨MarketWorld.pricedAt 5, ∅⟩ : MarketServer ℚ).onRecvPkg pricesAsked 100 .marketLast
      (pricesWire.dumps [.string "BTCCNY"])).2 = some (.ok (.last 5)) := by
    decide +kernel
  have hanswer : Answer pricesWire "BTCCNY" 100 (some (.ok (.last 5)))
      [⟨"BTCCNY", some (.string "5"), 100⟩] :=
    .result ⟨⟨false, 5, 0⟩, by decide +kernel, congrArg Json.string (by decide +kernel)⟩
  rw [← hsent] at hanswer
  exact .step hasked (.answer (List.mem_singleton_self _) hanswer)

/-- The session is told. -/
def priceTold : ValueWorld ValueFeed.price.Val :=
  { priceAnswered.onReply pricesKind ⟨"BTCCNY", some (.string "5"), 100⟩ with replies := [] }

theorem priceTold_reached : Reached pricesAsked pricesWire pricesKind priceTold :=
  .step priceAnswered_reached
    (@Step.reply _ pricesAsked pricesWire pricesKind priceAnswered _ [] [] rfl)

theorem priceTold_told : priceTold.told 7 "BTCCNY" = some (.string "5") := by
  have htext : (priceTold.told 7 "BTCCNY").any (fun json => match json with
      | .string str => str = "5"
      | _ => false) = true := by
    decide +kernel
  obtain ⟨json, hjson, htext⟩ := (Option.any_eq_true _ _).mp htext
  cases json with
  | string str =>
    obtain rfl := of_decide_eq_true htext
    exact hjson
  | _ => cases htext

/-- The price is that of some moment of the last half second before the answer. -/
theorem value_feed_price : ∃ answered time p info, (time, p) ∈ priceTold.price.past ∧
    answered - 1 / 2 ≤ time ∧ time ≤ answered ∧ p.dictMarket.find "BTCCNY" = some info ∧
    ValueFeed.price.Says pricesAsked pricesWire info time (.string "5") := by
  have hhas : priceTold.dictMarket.Has 7 "BTCCNY" := by decide +kernel
  obtain ⟨obj, hobj, hses⟩ := hhas
  have hfeed := value_feed .price (by decide +kernel) FiniteDecimal.value_scientific
    pricesLoadb_dumps priceTold_reached hobj hses (by decide +kernel)
  rw [priceTold_told] at hfeed
  obtain ⟨answered, time, p, info, -, hmem, hle, hle', hfind, hsays⟩ := hfeed
  exact ⟨answered, time, p, info, hmem, hle, hle', hfind, hsays⟩

end ValueWorld

end ViabtcExchange
