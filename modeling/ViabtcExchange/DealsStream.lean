import ViabtcExchange.KlineFlush
import ViabtcExchange.Lib.Subscribers
import ViabtcExchange.Sessions

/-!
# The deals of a market, as subscribers get them (`aw_deals.c`)

On every tick accessws asks marketprice for the deals of each market that has subscribers, from the
last it knows of on, and at most a hundred; what comes back is sent to all of them. Replies come in
the order of the requests, each after any delay.

`DealsWorld.Good` says where in the history of a market the deals are that accessws keeps, those
that a subscriber got, and those under way. A reply keeps it if it was asked for from the last deal
that is known when it comes, and was not cut off (`DealsWorld.Careful`).
-/

namespace ViabtcExchange

variable {D : Type}

/-! ## marketprice -/

/-- The loop of `get_market_deals`, when `count` deals are in the result. -/
def getMarketDeals (limit lastId : ℕ) : List (DealMessage D) → ℕ → List (DealMessage D)
  | [], _ => []
  | deal :: deals, count =>
    if deal.id ≤ lastId then []
    else
      deal :: (if count + 1 = limit then [] else getMarketDeals limit lastId deals (count + 1))

/-- `on_cmd_market_deals`. `none` is an error. -/
def MarketPrice.onCmdMarketDeals (p : MarketPrice D) (market : String) (limit lastId : ℕ) :
    Option (List (DealMessage D)) :=
  (p.dictMarket.find market).bind fun info =>
    if limit = 0 ∨ limit > marketDealsMax then none
    else some (getMarketDeals limit lastId info.dealsJson 0)

/-! ## accessws -/

/-- `DEALS_QUERY_LIMIT`. -/
def dealsQueryLimit : ℕ := 100

/-- `struct market_val`, but for its sessions. -/
structure DealsVal (D : Type) where
  deals : List (DealMessage D)
  lastId : ℕ

/-- `dict_market` of `aw_deals.c`. -/
abbrev AwDeals (D : Type) : Type := Topics Ses String (DealsVal D)

/-- `market == NULL || strlen(market) >= MARKET_NAME_MAX_LEN` is an invalid argument. -/
def marketParam : Json → Option String
  | .string market => if market.utf8ByteSize < 16 then some market else none
  | _ => none

namespace AwDeals

/-- `on_order_deals_reply`. The subscribers of the market get `result`. -/
def onOrderDealsReply (dictMarket : AwDeals D) (market : String) (result : List (DealMessage D)) :
    AwDeals D × Finset Ses :=
  match dictMarket.find market, result with
  | some obj, first :: _ =>
    if first.id = 0 then (dictMarket, ∅)
    else
      (dictMarket.insert market
        { obj with val := ⟨(result ++ obj.val.deals).take dealsQueryLimit, first.id⟩ }, obj.sessions)
  | _, _ => (dictMarket, ∅)

/-- `deals_subscribe`. -/
def dealsSubscribe (dictMarket : AwDeals D) (ses : Ses) (market : String) : AwDeals D :=
  dictMarket.subscribe ses market ⟨[], 0⟩

/-- The loop of `on_method_deals_subscribe`, and if no argument was invalid. -/
def subscribeAll (ses : Ses) : AwDeals D → List Json → AwDeals D × Bool
  | dictMarket, [] => (dictMarket, true)
  | dictMarket, param :: params =>
    match marketParam param with
    | none => (dictMarket, false)
    | some market => subscribeAll ses (dictMarket.dealsSubscribe ses market) params

/-- `deals_send_full`: what is sent, if anything is. -/
def dealsSendFull (dictMarket : AwDeals D) (market : String) : List (DealMessage D) :=
  ((dictMarket.find market).map fun obj => obj.val.deals).getD []

/-- `on_method_deals_subscribe`, with the full list that is sent for each market. -/
def onMethodDealsSubscribe (dictMarket : AwDeals D) (ses : Ses) (params : List Json) :
    AwDeals D × (String → List (DealMessage D)) :=
  let r := subscribeAll ses (dictMarket.unsubscribe ses) params
  (r.1, fun market =>
    if r.2 && params.any fun param => marketParam param = some market then r.1.dealsSendFull market
    else [])

end AwDeals

/-! ## Runs -/

/-- A request for deals. -/
structure DealsQuery where
  market : String
  lastId : ℕ
deriving DecidableEq

/-- Its reply. How many deals there were to be sent (`fresh`) is recorded for the theorems only. -/
structure DealsReply (D : Type) where
  query : DealsQuery
  result : Option (List (DealMessage D))
  fresh : ℕ
deriving DecidableEq

/-- What a session got since it subscribed to a market: the full list, and the updates, the last one
first. -/
structure Received (D : Type) where
  full : List (DealMessage D)
  updates : List (List (DealMessage D))

/-- All deals a session got, the newest first. -/
def Received.deals (r : Received D) : List (DealMessage D) := r.updates.flatten ++ r.full

/-- The two processes, and what is under way between them. The deals that ever came in, the newest
first, and what the sessions got, are recorded for the theorems only. -/
structure DealsWorld (D : Type) where
  price : MarketPrice D
  arrived : String → List (DealMessage D)
  dictMarket : AwDeals D
  requests : List DealsQuery
  replies : List (DealsReply D)
  received : Ses → String → Received D

inductive DealsAct
  | deal (message : Json) (now : ℚ)
  | tick (markets : List String)
  | answer
  | reply
  | lose
  | subscribe (ses : Ses) (params : List Json)
  | unsubscribe (ses : Ses)

namespace DealsWorld

/-- The deals above an id. -/
def above (arrived : List (DealMessage D)) (lastId : ℕ) : List (DealMessage D) :=
  arrived.filter fun d => lastId < d.id

/-- `on_timer`, with the markets in the order of the iterator. -/
def onTimer (w : DealsWorld D) (markets : List String) : DealsWorld D :=
  { w with
    dictMarket := w.dictMarket.sweep
    requests := w.requests ++ markets.filterMap fun market =>
      (w.dictMarket.sweep.find market).map fun obj => ⟨market, obj.val.lastId⟩ }

/-- marketprice answers a request. -/
def answer (w : DealsWorld D) (query : DealsQuery) : DealsReply D :=
  ⟨query, w.price.onCmdMarketDeals query.market dealsQueryLimit query.lastId,
    (above (w.arrived query.market) query.lastId).length⟩

/-- `on_backend_recv_pkg`, of a reply that is still waited for: an error ends the topic. -/
def onReply (w : DealsWorld D) (reply : DealsReply D) : DealsWorld D :=
  match reply.result with
  | none => { w with dictMarket := w.dictMarket.erase reply.query.market }
  | some result =>
    let r := w.dictMarket.onOrderDealsReply reply.query.market result
    { w with
      dictMarket := r.1
      received := fun ses market =>
        if market = reply.query.market ∧ ses ∈ r.2 then
          { w.received ses market with updates := result :: (w.received ses market).updates }
        else w.received ses market }

/-- `on_method_deals_subscribe`. -/
def subscribe (w : DealsWorld D) (ses : Ses) (params : List Json) : DealsWorld D :=
  let r := w.dictMarket.onMethodDealsSubscribe ses params
  { w with
    dictMarket := r.1
    received := fun ses' market => if ses' = ses then ⟨r.2 market, []⟩ else w.received ses' market }

/-- One step. marketprice gets the deals of a market in the order of their ids. A reply is lost, or
comes after its timeout and is not looked at: that is all the same. A session that closes
unsubscribes. -/
inductive Step (c : PriceSettings D) : DealsWorld D → DealsAct → DealsWorld D → Prop
  | deal {w : DealsWorld D} {message : Json} {deal : DealMessage D} {now : ℚ} :
    readDeal c.mpd message = some deal → (∀ d ∈ w.arrived deal.market, d.id < deal.id) →
      Step c w (.deal message now)
        { w with
          price := w.price.onDealsMessage c message w.price.position now
          arrived := Function.update w.arrived deal.market (deal :: w.arrived deal.market) }
  | tick {w : DealsWorld D} {markets : List String} :
    markets.Nodup → (∀ market, market ∈ markets ↔ market ∈ w.dictMarket) →
      Step c w (.tick markets) (w.onTimer markets)
  | answer {w : DealsWorld D} {query : DealsQuery} {requests : List DealsQuery} :
    w.requests = query :: requests →
      Step c w .answer { w with requests := requests, replies := w.replies ++ [w.answer query] }
  | reply {w : DealsWorld D} {reply : DealsReply D} {replies : List (DealsReply D)} :
    w.replies = reply :: replies → Step c w .reply ({ w with replies := replies }.onReply reply)
  | lose {w : DealsWorld D} {requests : List DealsQuery} {replies : List (DealsReply D)} :
    requests.Sublist w.requests → replies.Sublist w.replies →
      Step c w .lose { w with requests := requests, replies := replies }
  | subscribe {w : DealsWorld D} {ses : Ses} {params : List Json} :
    Step c w (.subscribe ses params) (w.subscribe ses params)
  | unsubscribe {w : DealsWorld D} {ses : Ses} :
    Step c w (.unsubscribe ses) { w with dictMarket := w.dictMarket.unsubscribe ses }

/-- The worlds after steps that are `ok` where they are taken. -/
inductive Reached (c : PriceSettings D) (ok : DealsWorld D → DealsAct → Prop) (w₀ : DealsWorld D) :
    DealsWorld D → Prop
  | refl : Reached c ok w₀ w₀
  | step {w w' : DealsWorld D} {act : DealsAct} :
    Reached c ok w₀ w → ok w act → Step c w act w' → Reached c ok w₀ w'

/-! ## A stream -/

/-- What a session got is a stretch of the deals of the market: no deal is there twice, none is
older than one that was sent before, and none between two of them is missing. -/
structure Stream (arrived : List (DealMessage D)) (r : Received D) : Prop where
  increasing : r.deals.Pairwise fun d d' => d'.id < d.id
  complete : ∀ d ∈ arrived, ∀ first ∈ r.deals, ∀ last ∈ r.deals,
    first.id < d.id → d.id < last.id → d ∈ r.deals

/-- The steps that keep the stream: a reply that has deals was asked for from the last deal that is
known now, if any is, and has all that there were. -/
def Careful (w : DealsWorld D) : DealsAct → Prop
  | .reply => ∀ reply replies, w.replies = reply :: replies → reply.fresh ≠ 0 →
    ∀ obj, w.dictMarket.find reply.query.market = some obj → obj.val.lastId ≠ 0 →
      reply.query.lastId = obj.val.lastId ∧ reply.fresh ≤ dealsQueryLimit
  | _ => True

/-- A stretch of the deals, from the one with a given id down. -/
def Segment (arrived : List (DealMessage D)) (lastId : ℕ) (deals : List (DealMessage D)) : Prop :=
  deals = [] ∨ ∃ newer older, arrived = newer ++ deals ++ older ∧
    deals.head?.map DealMessage.id = some lastId

/-- A reply has the first of the deals above the id it was asked for, and not all of them only if
there are too many. -/
structure Answered (arrived : List (DealMessage D)) (reply : DealsReply D)
    (result : List (DealMessage D)) : Prop where
  stretch : ∃ newer older, arrived = newer ++ result ++ older ∧
    (reply.fresh ≤ dealsQueryLimit → ∀ d ∈ older, d.id ≤ reply.query.lastId)
  above : ∀ d ∈ result, reply.query.lastId < d.id
  none : reply.fresh = 0 → result = []

structure Good (w : DealsWorld D) : Prop where
  sorted : ∀ market, (w.arrived market).Pairwise fun d d' => d'.id < d.id
  positive : ∀ market, ∀ d ∈ w.arrived market, 0 < d.id
  kept : ∀ market info, w.price.dictMarket.find market = some info →
    info.dealsJson = (w.arrived market).take marketDealsMax
  unknown : ∀ market, w.price.dictMarket.find market = none → w.arrived market = []
  topics : ∀ market obj, w.dictMarket.find market = some obj →
    Segment (w.arrived market) obj.val.lastId obj.val.deals ∧
      (obj.val.lastId = 0 ↔ obj.val.deals = [])
  received : ∀ market obj, w.dictMarket.find market = some obj → ∀ ses ∈ obj.sessions,
    Segment (w.arrived market) obj.val.lastId (w.received ses market).deals
  replies : ∀ reply ∈ w.replies, ∀ result, reply.result = some result →
    Answered (w.arrived reply.query.market) reply result

section Lists

variable {arrived deals result : List (DealMessage D)} {lastId : ℕ}

theorem Segment.cons (h : Segment arrived lastId deals) (deal : DealMessage D) :
    Segment (deal :: arrived) lastId deals := by
  rcases h with rfl | ⟨newer, older, harrived, hhead⟩
  · exact Or.inl rfl
  · exact Or.inr ⟨deal :: newer, older, by rw [harrived]; rfl, hhead⟩

theorem Segment.take (h : Segment arrived lastId deals) {n : ℕ} (hn : 0 < n) :
    Segment arrived lastId (deals.take n) := by
  rcases h with rfl | ⟨newer, older, harrived, hhead⟩
  · exact Or.inl List.take_nil
  · refine Or.inr ⟨newer, deals.drop n ++ older, ?_, ?_⟩
    · rw [harrived, List.append_assoc newer, List.append_assoc newer,
        ← List.append_assoc (deals.take n), List.take_append_drop]
    · rw [List.head?_take, if_neg (Nat.pos_iff_ne_zero.mp hn)]
      exact hhead

/-- Two ways to cut a list where the ids fall below a bound are one. -/
theorem cut_unique {as bs as' bs' : List (DealMessage D)} (h : as ++ bs = as' ++ bs')
    (has : ∀ d ∈ as, lastId < d.id) (hbs : ∀ d ∈ bs, d.id ≤ lastId)
    (has' : ∀ d ∈ as', lastId < d.id) (hbs' : ∀ d ∈ bs', d.id ≤ lastId) : as = as' ∧ bs = bs' := by
  have habove : ∀ {xs ys : List (DealMessage D)}, (∀ d ∈ xs, lastId < d.id) →
      (∀ d ∈ ys, d.id ≤ lastId) → above (xs ++ ys) lastId = xs := by
    intro xs ys hxs hys
    unfold above
    rw [List.filter_append, List.filter_eq_self.mpr, List.filter_eq_nil_iff.mpr, List.append_nil]
    · intro d hd
      simpa using hys d hd
    · intro d hd
      simpa using hxs d hd
  have heq : as = as' := by
    rw [← habove has hbs, h, habove has' hbs']
  subst heq
  exact ⟨rfl, List.append_cancel_left h⟩

/-- What comes before the deal with the id is newer, and the rest is not. -/
theorem Segment.cut (hsorted : arrived.Pairwise fun d d' => d'.id < d.id)
    (h : Segment arrived lastId deals) (hne : deals ≠ []) :
    ∃ newer older, arrived = newer ++ (deals ++ older) ∧ (∀ d ∈ newer, lastId < d.id) ∧
      ∀ d ∈ deals ++ older, d.id ≤ lastId := by
  obtain ⟨newer, older, harrived, hhead⟩ := h.resolve_left hne
  rw [List.append_assoc] at harrived
  cases deals with
  | nil => exact absurd rfl hne
  | cons first deals =>
    have hid : first.id = lastId := by simpa using hhead
    rw [harrived, List.pairwise_append] at hsorted
    refine ⟨newer, older, harrived, fun d hd => ?_, fun d hd => ?_⟩
    · exact hid ▸ hsorted.2.2 d hd first (List.mem_cons_self ..)
    · rcases List.mem_cons.mp hd with rfl | hd
      · exact hid.le
      · exact (hid ▸ (List.pairwise_cons.mp hsorted.2.1).1 d hd).le

/-- A whole answer goes before what it was asked for from. -/
theorem Answered.join {reply : DealsReply D} (hsorted : arrived.Pairwise fun d d' => d'.id < d.id)
    (h : Answered arrived reply result) (hfresh : reply.fresh ≤ dealsQueryLimit)
    (hseg : Segment arrived reply.query.lastId deals) {first : DealMessage D}
    (hfirst : result.head? = some first) : Segment arrived first.id (result ++ deals) := by
  obtain ⟨newer, older, harrived, hrest⟩ := h.stretch
  have hhead : (result ++ deals).head?.map DealMessage.id = some first.id := by
    rw [List.head?_append, hfirst]
    rfl
  by_cases hne : deals = []
  · subst hne
    exact Or.inr ⟨newer, older, by rw [List.append_nil, harrived], hhead⟩
  · obtain ⟨newer', older', harrived', hnewer', hrest'⟩ := hseg.cut hsorted hne
    have hnewer : ∀ d ∈ newer ++ result, reply.query.lastId < d.id := by
      intro d hd
      rcases List.mem_append.mp hd with hd | hd
      · rw [harrived, List.append_assoc, List.pairwise_append] at hsorted
        have hmem := List.mem_of_mem_head? hfirst
        exact (h.above first hmem).trans
          (hsorted.2.2 d hd first (List.mem_append_left _ hmem))
      · exact h.above d hd
    obtain ⟨hcut, hcut'⟩ := cut_unique (harrived.symm.trans harrived') hnewer (hrest hfresh) hnewer'
      hrest'
    refine Or.inr ⟨newer, older', ?_, hhead⟩
    rw [harrived, hcut', List.append_assoc, List.append_assoc, List.append_assoc]

theorem above_cons (deal : DealMessage D) (lastId : ℕ) : above (deal :: arrived) lastId =
    if lastId < deal.id then deal :: above arrived lastId else above arrived lastId := by
  unfold above
  rw [List.filter_cons]
  simp

/-- The deals above an id come first. -/
theorem above_append (hsorted : arrived.Pairwise fun d d' => d'.id < d.id) (lastId : ℕ) :
    ∃ older, arrived = above arrived lastId ++ older ∧ ∀ d ∈ older, d.id ≤ lastId := by
  induction arrived with
  | nil => exact ⟨[], rfl, fun d hd => absurd hd List.not_mem_nil⟩
  | cons deal arrived ih =>
    obtain ⟨hdeal, hsorted⟩ := List.pairwise_cons.mp hsorted
    rw [above_cons]
    split_ifs with hid
    · obtain ⟨older, hcut, hold⟩ := ih hsorted
      exact ⟨older, congrArg (deal :: ·) hcut, hold⟩
    · have hrest : ∀ d ∈ deal :: arrived, d.id ≤ lastId := by
        intro d hd
        rcases List.mem_cons.mp hd with rfl | hd
        · exact not_lt.mp hid
        · exact (hdeal d hd).le.trans (not_lt.mp hid)
      have hnil : above arrived lastId = [] :=
        List.filter_eq_nil_iff.mpr fun d hd => by
          simpa using hrest d (List.mem_cons_of_mem _ hd)
      exact ⟨deal :: arrived, by rw [hnil]; rfl, hrest⟩

/-- `get_market_deals` has the first of the deals above the id. -/
theorem getMarketDeals_eq (hsorted : arrived.Pairwise fun d d' => d'.id < d.id) (lastId : ℕ)
    {limit count : ℕ} (hcount : count < limit) :
    getMarketDeals limit lastId arrived count = (above arrived lastId).take (limit - count) := by
  induction arrived generalizing count with
  | nil =>
    unfold getMarketDeals above
    rw [List.filter_nil, List.take_nil]
  | cons deal arrived ih =>
    obtain ⟨hdeal, hsorted⟩ := List.pairwise_cons.mp hsorted
    unfold getMarketDeals
    rw [above_cons]
    by_cases hid : deal.id ≤ lastId
    · have hnil : above arrived lastId = [] :=
        List.filter_eq_nil_iff.mpr fun d hd => by
          simpa using (hdeal d hd).le.trans hid
      rw [if_pos hid, if_neg (not_lt.mpr hid), hnil, List.take_nil]
    · rw [if_neg hid, if_pos (not_le.mp hid)]
      obtain ⟨left, hleft⟩ : ∃ left, limit - count = left + 1 := ⟨limit - count - 1, by omega⟩
      rw [hleft, List.take_succ_cons]
      by_cases hend : count + 1 = limit
      · have hzero : left = 0 := by omega
        rw [if_pos hend, hzero, List.take_zero]
      · rw [if_neg hend, ih hsorted (by omega)]
        congr 2
        omega

/-- Only the newest deals are looked at. -/
theorem above_take (lastId : ℕ) {n limit : ℕ} (hn : limit ≤ n)
    (hsorted : arrived.Pairwise fun d d' => d'.id < d.id) :
    (above (arrived.take n) lastId).take limit = (above arrived lastId).take limit := by
  induction arrived generalizing n limit with
  | nil => rw [List.take_nil]
  | cons deal arrived ih =>
    obtain ⟨hdeal, hsorted⟩ := List.pairwise_cons.mp hsorted
    cases n with
    | zero =>
      obtain rfl : limit = 0 := by omega
      rw [List.take_zero, List.take_zero]
    | succ n =>
      rw [List.take_succ_cons, above_cons, above_cons]
      split_ifs with hid
      · cases limit with
        | zero => rw [List.take_zero, List.take_zero]
        | succ limit =>
          rw [List.take_succ_cons, List.take_succ_cons, ih (by omega) hsorted]
      · have hnil : ∀ l : List (DealMessage D), (∀ d ∈ l, d ∈ arrived) → above l lastId = [] :=
          fun l hl => List.filter_eq_nil_iff.mpr fun d hd => by
            simpa using (hdeal d (hl d hd)).le.trans (not_lt.mp hid)
        rw [hnil _ fun d hd => List.mem_of_mem_take hd, hnil _ fun d hd => hd]

end Lists

section Step

variable {c : PriceSettings D} {w w' : DealsWorld D} {act : DealsAct}

theorem Good.answered (h : Good w) (query : DealsQuery) {result : List (DealMessage D)}
    (hresult : (w.answer query).result = some result) :
    Answered (w.arrived query.market) (w.answer query) result := by
  have hsorted := h.sorted query.market
  have heq : result = (above (w.arrived query.market) query.lastId).take dealsQueryLimit := by
    unfold answer MarketPrice.onCmdMarketDeals at hresult
    cases hinfo : w.price.dictMarket.find query.market with
    | none =>
      rw [hinfo] at hresult
      cases hresult
    | some info =>
      rw [hinfo, Option.bind_some, if_neg (by decide), h.kept _ info hinfo] at hresult
      rw [← Option.some.inj hresult, getMarketDeals_eq (hsorted.take) _ (by decide),
        Nat.sub_zero, above_take _ (by decide) hsorted]
  obtain ⟨older, hcut, hold⟩ := above_append hsorted query.lastId
  subst heq
  refine ⟨⟨[], (above (w.arrived query.market) query.lastId).drop dealsQueryLimit ++ older, ?_,
    fun hfresh d hd => ?_⟩, fun d hd => ?_, fun hnone => ?_⟩
  · rw [List.nil_append, ← List.append_assoc, List.take_append_drop]
    exact hcut
  · rw [List.drop_eq_nil_of_le hfresh, List.nil_append] at hd
    exact hold d hd
  · have hid : query.lastId < d.id := by
      simpa using (List.mem_filter.mp (List.mem_of_mem_take hd)).2
    exact hid
  · rw [List.length_eq_zero_iff.mp hnone, List.take_nil]

theorem Answered.cons {arrived result : List (DealMessage D)} {reply : DealsReply D}
    (h : Answered arrived reply result) (deal : DealMessage D) :
    Answered (deal :: arrived) reply result := by
  obtain ⟨newer, older, harrived, hrest⟩ := h.stretch
  exact ⟨⟨deal :: newer, older, by rw [harrived]; rfl, hrest⟩, h.above, h.none⟩

theorem dealsJson_marketUpdate (mpd : Mpd D) (dayStart : ℤ → ℤ) (info : MarketInfo D)
    (deal : DealMessage D) (now : ℚ) : (info.marketUpdate mpd dayStart deal now).dealsJson =
      MarketInfo.pushDeal info.dealsJson deal := rfl

theorem pushDeal_take (arrived : List (DealMessage D)) (deal : DealMessage D) :
    MarketInfo.pushDeal (arrived.take marketDealsMax) deal =
      (deal :: arrived).take marketDealsMax := by
  obtain ⟨n, hn⟩ : ∃ n, marketDealsMax = n + 1 := ⟨9999, rfl⟩
  unfold MarketInfo.pushDeal
  dsimp only
  rw [hn, List.take_succ_cons, List.length_cons, List.length_take]
  split_ifs with hlong
  · have hfull : n + 1 ≤ arrived.length := by omega
    have hne : arrived.take (n + 1) ≠ [] := by
      rw [Ne, List.take_eq_nil_iff]
      rintro (hzero | rfl)
      · omega
      · rw [List.length_nil] at hfull
        omega
    have hlen : min (min (n + 1) arrived.length - 1) (n + 1) = n := by omega
    rw [List.dropLast_cons_of_ne_nil hne, List.dropLast_eq_take, List.take_take, List.length_take,
      hlen]
  · rw [List.take_of_length_le (by omega), List.take_of_length_le (by omega)]

theorem Good.deal (h : Good w) {message : Json} {deal : DealMessage D} {now : ℚ}
    (hread : readDeal c.mpd message = some deal)
    (hnew : ∀ d ∈ w.arrived deal.market, d.id < deal.id) : Good
      { w with
        price := w.price.onDealsMessage c message w.price.position now
        arrived := Function.update w.arrived deal.market (deal :: w.arrived deal.market) } := by
  have hcases : ∀ market,
      Function.update w.arrived deal.market (deal :: w.arrived deal.market) market =
        w.arrived market ∧ market ≠ deal.market ∨ market = deal.market ∧
      Function.update w.arrived deal.market (deal :: w.arrived deal.market) market =
        deal :: w.arrived market := by
    intro market
    by_cases hmarket : market = deal.market
    · subst hmarket
      exact Or.inr ⟨rfl, Function.update_self ..⟩
    · exact Or.inl ⟨Function.update_of_ne hmarket .., hmarket⟩
  constructor <;> dsimp only
  · intro market
    rcases hcases market with ⟨heq, -⟩ | ⟨rfl, heq⟩ <;> rw [heq]
    · exact h.sorted market
    · exact List.pairwise_cons.mpr ⟨hnew, h.sorted _⟩
  · intro market d hd
    rcases hcases market with ⟨heq, -⟩ | ⟨rfl, heq⟩ <;> rw [heq] at hd
    · exact h.positive market d hd
    · rcases List.mem_cons.mp hd with rfl | hd
      · exact readDeal_id_pos hread
      · exact h.positive _ d hd
  · intro market info hinfo
    unfold MarketPrice.onDealsMessage at hinfo
    rw [hread] at hinfo
    dsimp only at hinfo
    rw [Dict.find_insert] at hinfo
    rcases hcases market with ⟨heq, hne⟩ | ⟨rfl, heq⟩ <;> rw [heq]
    · rw [if_neg hne] at hinfo
      exact h.kept market info hinfo
    · rw [if_pos rfl] at hinfo
      rw [← Option.some.inj hinfo, dealsJson_marketUpdate, ← pushDeal_take]
      cases hold : w.price.dictMarket.find deal.market with
      | none =>
        rw [h.unknown _ hold]
        rfl
      | some old =>
        rw [← h.kept _ old hold]
        rfl
  · intro market hnone
    unfold MarketPrice.onDealsMessage at hnone
    rw [hread] at hnone
    dsimp only at hnone
    rw [Dict.find_insert] at hnone
    rcases hcases market with ⟨heq, hne⟩ | ⟨rfl, heq⟩
    · rw [heq]
      rw [if_neg hne] at hnone
      exact h.unknown market hnone
    · rw [if_pos rfl] at hnone
      cases hnone
  · intro market obj hobj
    obtain ⟨hseg, hzero⟩ := h.topics market obj hobj
    rcases hcases market with ⟨heq, -⟩ | ⟨rfl, heq⟩ <;> rw [heq]
    · exact ⟨hseg, hzero⟩
    · exact ⟨hseg.cons deal, hzero⟩
  · intro market obj hobj ses hses
    have hseg := h.received market obj hobj ses hses
    rcases hcases market with ⟨heq, -⟩ | ⟨rfl, heq⟩ <;> rw [heq]
    · exact hseg
    · exact hseg.cons deal
  · intro reply hreply result hresult
    have hanswered := h.replies reply hreply result hresult
    rcases hcases reply.query.market with ⟨heq, -⟩ | ⟨hmarket, heq⟩ <;> rw [heq]
    · exact hanswered
    · exact hanswered.cons deal

theorem Good.onTimer (h : Good w) (markets : List String) : Good (w.onTimer markets) := by
  refine ⟨h.sorted, h.positive, h.kept, h.unknown, fun market obj hobj => ?_,
    fun market obj hobj ses hses => ?_, h.replies⟩
  · exact h.topics market obj ((Topics.find_sweep ..).mp hobj).1
  · exact h.received market obj ((Topics.find_sweep ..).mp hobj).1 ses hses

theorem Good.answer (h : Good w) (query : DealsQuery) (requests : List DealsQuery) :
    Good { w with requests := requests, replies := w.replies ++ [w.answer query] } := by
  refine ⟨h.sorted, h.positive, h.kept, h.unknown, h.topics, h.received, fun reply hreply => ?_⟩
  rcases List.mem_append.mp hreply with hreply | hreply
  · exact h.replies reply hreply
  · obtain rfl := List.mem_singleton.mp hreply
    exact fun result => h.answered query

theorem Good.unsubscribe (h : Good w) (ses : Ses) :
    Good { w with dictMarket := w.dictMarket.unsubscribe ses } := by
  have hfind : ∀ {market obj}, (w.dictMarket.unsubscribe ses).find market = some obj →
      ∃ old, w.dictMarket.find market = some old ∧ obj.val = old.val ∧
        obj.sessions = old.sessions.erase ses := by
    intro market obj hobj
    rw [Topics.find_unsubscribe, Option.map_eq_some_iff] at hobj
    obtain ⟨old, hold, rfl⟩ := hobj
    exact ⟨old, hold, rfl, rfl⟩
  refine ⟨h.sorted, h.positive, h.kept, h.unknown, fun market obj hobj => ?_,
    fun market obj hobj ses' hses' => ?_, h.replies⟩
  · obtain ⟨old, hold, hval, -⟩ := hfind hobj
    rw [hval]
    exact h.topics market old hold
  · obtain ⟨old, hold, hval, hsessions⟩ := hfind hobj
    rw [hsessions] at hses'
    rw [hval]
    exact h.received market old hold ses' (Finset.mem_of_mem_erase hses')

/-- Topics that `ses` subscribes to keep what they have, or are new. -/
theorem find_subscribeAll {ses : Ses} {params : List Json} {dictMarket : AwDeals D}
    {market : String} {obj : Topic Ses (DealsVal D)}
    (h : (AwDeals.subscribeAll ses dictMarket params).1.find market = some obj) :
    (∃ old, dictMarket.find market = some old ∧ obj.val = old.val ∧
        obj.sessions ⊆ insert ses old.sessions) ∨
      obj.val = ⟨[], 0⟩ ∧ obj.sessions ⊆ {ses} := by
  induction params generalizing dictMarket with
  | nil => exact Or.inl ⟨obj, h, rfl, Finset.subset_insert ..⟩
  | cons param params ih =>
    unfold AwDeals.subscribeAll at h
    cases hparam : marketParam param with
    | none =>
      rw [hparam] at h
      exact Or.inl ⟨obj, h, rfl, Finset.subset_insert ..⟩
    | some name =>
      rw [hparam] at h
      rcases ih h with ⟨old, hold, hval, hsub⟩ | hnew
      · unfold AwDeals.dealsSubscribe at hold
        rw [Topics.find_subscribe] at hold
        split_ifs at hold with hname
        · subst hname
          obtain rfl := Option.some.inj hold
          cases hfirst : dictMarket.find market with
          | none =>
            rw [hfirst] at hval hsub
            refine Or.inr ⟨hval, hsub.trans ?_⟩
            simp
          | some first =>
            rw [hfirst] at hval hsub
            refine Or.inl ⟨first, rfl, hval, hsub.trans ?_⟩
            simp
        · exact Or.inl ⟨old, hold, hval, hsub⟩
      · exact Or.inr hnew

theorem Good.subscribe (h : Good w) (ses : Ses) (params : List Json) :
    Good (w.subscribe ses params) := by
  have hun := h.unsubscribe ses
  have htopics : ∀ market obj, (w.subscribe ses params).dictMarket.find market = some obj →
      Segment (w.arrived market) obj.val.lastId obj.val.deals ∧
        (obj.val.lastId = 0 ↔ obj.val.deals = []) := by
    intro market obj hobj
    rcases find_subscribeAll hobj with ⟨old, hold, hval, -⟩ | ⟨hval, -⟩
    · rw [hval]
      exact hun.topics market old hold
    · rw [hval]
      exact ⟨Or.inl rfl, iff_of_true rfl rfl⟩
  refine ⟨h.sorted, h.positive, h.kept, h.unknown, htopics, fun market obj hobj ses' hses' => ?_,
    h.replies⟩
  by_cases hses : ses' = ses
  · have hreceived : ((w.subscribe ses params).received ses' market).deals =
        (w.dictMarket.onMethodDealsSubscribe ses params).2 market := by
      unfold DealsWorld.subscribe Received.deals
      dsimp only
      rw [if_pos hses]
      rfl
    rw [hreceived]
    unfold AwDeals.onMethodDealsSubscribe
    dsimp only
    split_ifs
    · have hfull : (w.subscribe ses params).dictMarket.dealsSendFull market = obj.val.deals := by
        unfold AwDeals.dealsSendFull
        rw [hobj]
        rfl
      exact hfull ▸ (htopics market obj hobj).1
    · exact Or.inl rfl
  · have hreceived : (w.subscribe ses params).received ses' market = w.received ses' market := by
      unfold DealsWorld.subscribe
      dsimp only
      rw [if_neg hses]
    rw [hreceived]
    rcases find_subscribeAll hobj with ⟨old, hold, hval, hsub⟩ | ⟨-, hsub⟩
    · rw [hval]
      refine hun.received market old hold ses' ?_
      exact (Finset.mem_insert.mp (hsub hses')).resolve_left hses
    · exact absurd (Finset.mem_singleton.mp (hsub hses')) hses

theorem Good.erase (h : Good w) (market : String) :
    Good { w with dictMarket := w.dictMarket.erase market } := by
  refine ⟨h.sorted, h.positive, h.kept, h.unknown, fun market' obj hobj => ?_,
    fun market' obj hobj => ?_, h.replies⟩
  · rw [Dict.find_erase] at hobj
    split_ifs at hobj
    exact h.topics market' obj hobj
  · rw [Dict.find_erase] at hobj
    split_ifs at hobj
    exact h.received market' obj hobj

/-- A reply that was not cut off goes before whatever is known. -/
theorem Answered.segment {arrived result deals : List (DealMessage D)} {reply : DealsReply D}
    {lastId : ℕ} {first : DealMessage D}
    (hsorted : arrived.Pairwise fun d d' => d'.id < d.id) (hpos : ∀ d ∈ arrived, 0 < d.id)
    (h : Answered arrived reply result) (hfirst : result.head? = some first)
    (hok : lastId ≠ 0 → reply.query.lastId = lastId ∧ reply.fresh ≤ dealsQueryLimit)
    (hseg : Segment arrived lastId deals) : Segment arrived first.id (result ++ deals) := by
  by_cases hzero : lastId = 0
  · have hnil : deals = [] := by
      by_contra hne
      obtain ⟨newer, older, harrived, hhead⟩ := hseg.resolve_left hne
      obtain ⟨d, hd, hid⟩ := Option.map_eq_some_iff.mp hhead
      have hmem : d ∈ arrived := by
        rw [harrived]
        simp [List.mem_of_mem_head? hd]
      have := hpos d hmem
      omega
    obtain ⟨newer, older, harrived, -⟩ := h.stretch
    subst hnil
    refine Or.inr ⟨newer, older, by rw [List.append_nil, harrived], ?_⟩
    rw [List.append_nil, hfirst]
    rfl
  · obtain ⟨hasked, hfresh⟩ := hok hzero
    exact h.join hsorted hfresh (hasked ▸ hseg) hfirst

theorem Good.onReply {reply : DealsReply D} (h : Good w)
    (hanswered : ∀ result, reply.result = some result →
      Answered (w.arrived reply.query.market) reply result)
    (hok : reply.fresh ≠ 0 → ∀ obj, w.dictMarket.find reply.query.market = some obj →
      obj.val.lastId ≠ 0 → reply.query.lastId = obj.val.lastId ∧ reply.fresh ≤ dealsQueryLimit) :
    Good (w.onReply reply) := by
  unfold DealsWorld.onReply
  cases hresult : reply.result with
  | none => exact h.erase _
  | some result =>
    dsimp only
    have hans := hanswered result hresult
    have hsame : Good { w with
        dictMarket := (w.dictMarket, (∅ : Finset Ses)).1
        received := fun ses market =>
          if market = reply.query.market ∧ ses ∈ (w.dictMarket, (∅ : Finset Ses)).2 then
            { w.received ses market with updates := result :: (w.received ses market).updates }
          else w.received ses market } := by
      have heq : (fun ses market =>
          if market = reply.query.market ∧ ses ∈ (w.dictMarket, (∅ : Finset Ses)).2 then
            { w.received ses market with updates := result :: (w.received ses market).updates }
          else w.received ses market) = w.received := by
        funext ses market
        rw [if_neg fun hmem => Finset.notMem_empty ses hmem.2]
      rw [heq]
      exact h
    unfold AwDeals.onOrderDealsReply
    cases hfind : w.dictMarket.find reply.query.market with
    | none => exact hsame
    | some obj =>
      cases result with
      | nil => exact hsame
      | cons first rest =>
        dsimp only
        split_ifs with hzero
        · exact hsame
        · have hfresh : reply.fresh ≠ 0 := fun hnone => absurd (hans.none hnone) (by simp)
          have hseg : ∀ {deals}, Segment (w.arrived reply.query.market) obj.val.lastId deals →
              Segment (w.arrived reply.query.market) first.id ((first :: rest) ++ deals) :=
            hans.segment (h.sorted _) (h.positive _) rfl (hok hfresh obj hfind)
          refine ⟨h.sorted, h.positive, h.kept, h.unknown, fun market obj' hobj => ?_,
            fun market obj' hobj ses hses => ?_, h.replies⟩
          · rw [Dict.find_insert] at hobj
            split_ifs at hobj with hmarket
            · subst hmarket
              obtain rfl := Option.some.inj hobj
              refine ⟨(hseg (h.topics _ obj hfind).1).take (by decide), ?_⟩
              refine iff_of_false hzero ?_
              rw [List.cons_append]
              exact List.cons_ne_nil _ _
            · exact h.topics market obj' hobj
          · rw [Dict.find_insert] at hobj
            split_ifs at hobj with hmarket
            · subst hmarket
              obtain rfl := Option.some.inj hobj
              dsimp only
              rw [if_pos ⟨rfl, hses⟩]
              unfold Received.deals
              rw [List.flatten_cons, List.append_assoc]
              exact hseg (h.received _ obj hfind ses hses)
            · dsimp only
              rw [if_neg fun hmem => hmarket hmem.1]
              exact h.received market obj' hobj ses hses

/-- **Every careful step keeps the stretches.** -/
theorem Good.step (h : Good w) (hcareful : Careful w act) (hstep : Step c w act w') : Good w' := by
  cases hstep with
  | deal hread hnew => exact h.deal hread hnew
  | tick _ _ => exact h.onTimer _
  | answer _ => exact h.answer _ _
  | @reply reply replies heq =>
    have hrest : Good { w with replies := replies } :=
      ⟨h.sorted, h.positive, h.kept, h.unknown, h.topics, h.received, fun reply' hreply' =>
        h.replies reply' (heq ▸ List.mem_cons_of_mem _ hreply')⟩
    exact hrest.onReply (h.replies reply (heq ▸ List.mem_cons_self ..)) (hcareful reply replies heq)
  | lose hrequests hreplies =>
    exact ⟨h.sorted, h.positive, h.kept, h.unknown, h.topics, h.received, fun reply hreply =>
      h.replies reply (hreplies.subset hreply)⟩
  | subscribe => exact h.subscribe _ _
  | unsubscribe => exact h.unsubscribe _

theorem Good.stream (h : Good w) {market : String} {obj : Topic Ses (DealsVal D)} {ses : Ses}
    (hobj : w.dictMarket.find market = some obj) (hses : ses ∈ obj.sessions) :
    Stream (w.arrived market) (w.received ses market) := by
  have hsorted := h.sorted market
  rcases h.received market obj hobj ses hses with hnil | ⟨newer, older, harrived, -⟩
  · constructor
    · rw [hnil]
      exact List.Pairwise.nil
    · intro d _ first hfirst
      rw [hnil] at hfirst
      exact absurd hfirst List.not_mem_nil
  · rw [harrived, List.pairwise_append, List.pairwise_append] at hsorted
    obtain ⟨⟨-, hdeals, hnewer⟩, -, holder⟩ := hsorted
    refine ⟨hdeals, fun d hd first hfirst last hlast hlow hhigh => ?_⟩
    rw [harrived] at hd
    rcases List.mem_append.mp hd with hd | hd
    · rcases List.mem_append.mp hd with hd | hd
      · exact absurd hhigh (not_lt.mpr (hnewer d hd last hlast).le)
      · exact hd
    · exact absurd hlow (not_lt.mpr (holder first (List.mem_append_right _ hfirst) d hd).le)

end Step

/-! ## Runs -/

/-- marketprice has its newest deals, and nobody has subscribed yet. -/
structure Start (w : DealsWorld D) : Prop where
  sorted : ∀ market, (w.arrived market).Pairwise fun d d' => d'.id < d.id
  positive : ∀ market, ∀ d ∈ w.arrived market, 0 < d.id
  kept : ∀ market info, w.price.dictMarket.find market = some info →
    info.dealsJson = (w.arrived market).take marketDealsMax
  unknown : ∀ market, w.price.dictMarket.find market = none → w.arrived market = []
  nobody : w.dictMarket = ∅
  replies : w.replies = []

section Runs

variable {c : PriceSettings D} {w₀ w : DealsWorld D}

theorem Start.good (h : Start w) : Good w := by
  refine ⟨h.sorted, h.positive, h.kept, h.unknown, fun market obj hobj => ?_,
    fun market obj hobj => ?_, fun reply hreply => ?_⟩
  · rw [h.nobody, Dict.find_empty] at hobj
    cases hobj
  · rw [h.nobody, Dict.find_empty] at hobj
    cases hobj
  · rw [h.replies] at hreply
    exact absurd hreply List.not_mem_nil

theorem Good.run (h : Good w₀) (hrun : Reached c Careful w₀ w) : Good w := by
  induction hrun with
  | refl => exact h
  | step _ hcareful hstep ih => exact ih.step hcareful hstep

end Runs

/-! ## The same deal twice -/

/-- The reply to the first tick. -/
def exampleReply : DealsReply ℚ := ⟨⟨"BTCCNY", 0⟩, some [⟨1, "BTCCNY", 10, 1, .ask, 1⟩], 1⟩

end DealsWorld

end ViabtcExchange
