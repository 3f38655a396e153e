import ViabtcExchange.Accounting
import ViabtcExchange.Agreement
import ViabtcExchange.Lib.Greedy

/-!
# Price-time priority

What a limit order or a market ask should trade is easy to say without the loops: rank the
opposite side by best price and then lowest id, keep the orders within the limit, and meet what
is left of the taker greedily from what is left of them (`Market.reference`). The loops do just
that, trade by trade, while they take filled makers out of the containers.

**Theorem (`Engine.price_time_priority`).** In every market of a state reached in exact
arithmetic, the loop of such a taker trades the reference fills, and these are greedy.
-/

namespace ViabtcExchange

instance (taker maker : Order ℚ) : Decidable (OutOfReach taker maker) := by
  unfold OutOfReach
  cases taker.side <;> infer_instance

instance (taker maker : Order ℚ) : Decidable (Meets taker maker) := by
  unfold Meets
  infer_instance

namespace Market

variable (m : Market ℚ) (taker : Order ℚ)

/-- A side of the book, best price first and then lowest id. -/
def ranked (side : OrderSide) : List ℕ :=
  (m.book side).mergeSort fun i j => m.key side i ≤ m.key side j

/-- What the makers a taker may meet have left. -/
def offers (ids : List ℕ) : List (ℕ × ℚ) :=
  (ids.filter fun i => Meets taker (m.order i)).map fun i => (i, (m.order i).left)

/-- The reference match: the makers of a taker and the amounts they trade. -/
def reference : List (ℕ × ℚ) :=
  greedy taker.left (m.offers taker (m.ranked taker.side.opposite))

/-- Fills in price-time priority. -/
structure PriceTime (fills : List (ℕ × ℚ)) : Prop where
  /-- The makers touched come first. -/
  first : fills.map Prod.fst <+: m.ranked taker.side.opposite
  /-- All but the last are filled. -/
  filled : ∀ p ∈ fills.dropLast, p.2 = (m.order p.1).left
  amount : ∀ pre p post, fills = pre ++ p :: post →
    p.2 = min (taker.left - total pre) (m.order p.1).left
  limit : ∀ p ∈ fills, Meets taker (m.order p.1)
  /-- A taker that is not filled has met every maker it may meet. -/
  all : total fills < taker.left → ∀ i ∈ m.book taker.side.opposite,
    Meets taker (m.order i) → i ∈ fills.map Prod.fst
  total : total fills = min taker.left
    (((m.book taker.side.opposite).filter fun i => Meets taker (m.order i)).map
      fun i => (m.order i).left).sum

variable {m taker} {n : ℕ}

/-- The skiplist keeps a side ranked. -/
theorem WF.ranked (h : m.WF n) (side : OrderSide) : m.ranked side = m.book side :=
  List.mergeSort_of_pairwise ((h.sorted side).imp fun hlt => decide_eq_true hlt.le)

/-- Makers with better keys are within the limit when a worse one is. -/
theorem meets_of_key_le {i j : ℕ}
    (h : m.key taker.side.opposite i ≤ m.key taker.side.opposite j)
    (hj : Meets taker (m.order j)) : Meets taker (m.order i) := by
  intro hlimit
  have hreach := hj hlimit
  unfold OutOfReach at hreach ⊢
  cases hs : taker.side with
  | ask =>
    simp only [hs, not_lt] at hreach ⊢
    exact hreach.trans (price_le_of_key_bid (by simpa [hs, OrderSide.opposite] using h))
  | bid =>
    simp only [hs, not_lt] at hreach ⊢
    exact (price_le_of_key_ask (by simpa [hs, OrderSide.opposite] using h)).trans hreach

theorem offers_fst (ids : List ℕ) :
    (m.offers taker ids).map Prod.fst = ids.filter fun i => Meets taker (m.order i) := by
  simp [offers, Function.comp_def]

theorem mem_offers {ids : List ℕ} {p : ℕ × ℚ} (h : p ∈ m.offers taker ids) :
    p.1 ∈ ids ∧ Meets taker (m.order p.1) ∧ p.2 = (m.order p.1).left := by
  obtain ⟨i, hi, rfl⟩ := List.mem_map.mp h
  obtain ⟨hmem, hmeets⟩ := List.mem_filter.mp hi
  exact ⟨hmem, of_decide_eq_true hmeets, rfl⟩

/-- The makers within the limit are the best ones. -/
theorem offers_initial {ids : List ℕ} (h : Ordered (m.key taker.side.opposite) ids) :
    (m.offers taker ids).map Prod.fst <+: ids := by
  rw [offers_fst]
  exact filter_prefix h fun i _ j _ hlt hj =>
    decide_eq_true (meets_of_key_le hlt.le (of_decide_eq_true hj))

/-- Behind a maker out of the limit there is nobody to meet. -/
theorem offers_eq_nil {id : ℕ} {ids : List ℕ}
    (h : Ordered (m.key taker.side.opposite) (id :: ids)) (hid : ¬Meets taker (m.order id)) :
    m.offers taker (id :: ids) = [] := by
  have hfirst := offers_initial h
  cases hoffers : m.offers taker (id :: ids) with
  | nil => rfl
  | cons p ps =>
    rw [hoffers, List.map_cons] at hfirst
    have hp : p ∈ m.offers taker (id :: ids) := hoffers ▸ List.mem_cons_self
    exact absurd ((List.cons_prefix_cons.mp hfirst).1 ▸ (mem_offers hp).2.1) hid

theorem offers_cons {id : ℕ} {ids : List ℕ} (hid : Meets taker (m.order id)) :
    m.offers taker (id :: ids) = (id, (m.order id).left) :: m.offers taker ids := by
  simp [offers, hid]

/-- The reference is in price-time priority. -/
theorem priceTime_reference (h : BookOk n m) (hleft : 0 ≤ taker.left) :
    m.PriceTime taker (m.reference taker) := by
  have hrank := h.wf.ranked taker.side.opposite
  have hpos : ∀ p ∈ m.offers taker (m.book taker.side.opposite), 0 ≤ p.2 := fun p hp => by
    obtain ⟨hmem, -, hp⟩ := mem_offers hp
    rw [hp]
    exact (h.left _ _ hmem).le
  have htotal : ViabtcExchange.total (m.offers taker (m.book taker.side.opposite)) =
      (((m.book taker.side.opposite).filter fun i => Meets taker (m.order i)).map
        fun i => (m.order i).left).sum := by
    simp [ViabtcExchange.total, offers, Function.comp_def]
  have hoffer : ∀ p ∈ m.reference taker, Meets taker (m.order p.1) := fun p hp => by
    obtain ⟨pre, post, hsplit⟩ := List.append_of_mem hp
    obtain ⟨x, hx, -⟩ := greedy_min hsplit
    exact (mem_offers hx).2.1
  unfold reference at hoffer ⊢
  rw [hrank] at hoffer ⊢
  refine ⟨?_, fun p hp => ?_, fun pre p post hsplit => ?_, hoffer, fun hlt i hi hmeets => ?_, ?_⟩
  · rw [hrank]
    exact (greedy_initial _ _).trans (offers_initial (h.wf.sorted _))
  · exact (mem_offers ((greedy_dropLast _ _).subset hp)).2.2
  · obtain ⟨x, hx, hmin⟩ := greedy_min hsplit
    have hx' : x = (m.order p.1).left := (mem_offers hx).2.2
    rw [hmin, hx']
  · rw [greedy_all hleft hpos hlt, offers_fst]
    exact List.mem_filter.mpr ⟨hi, decide_eq_true hmeets⟩
  · rw [sum_greedy hleft hpos, htotal]

end Market

/-! ## The walk -/

/-- The record of a fill: at the maker's price. -/
def Dealt (m : Market ℚ) (p : ℕ × ℚ) (trade : Trade ℚ) : Prop :=
  trade.terms.price = (m.order p.1).price ∧ trade.terms.amount = p.2 ∧
    trade.terms.deal = (m.order p.1).price * p.2

/-- What fills make of an execution: they are traded in order, and a maker with nothing left
leaves the book and the dictionary. -/
structure Filled (e₀ e : Execution ℚ) (fills : List (ℕ × ℚ)) : Prop where
  trades : ∃ ts, e.statics.trades = e₀.statics.trades ++ ts ∧
    List.Forall₂ (Dealt e₀.market) fills ts
  left : e.taker.left = e₀.taker.left - total fills
  maker : ∀ p ∈ fills, (e.market.order p.1).left = (e₀.market.order p.1).left - p.2
  other : ∀ i ∉ fills.map Prod.fst, e.market.order i = e₀.market.order i
  orders : e.market.orders = e₀.market.orders.filter fun i => (e.market.order i).left ≠ 0
  book : ∀ side, e.market.book side =
    (e₀.market.book side).filter fun i => (e.market.order i).left ≠ 0

section Walk

variable {n : ℕ} {x : Matching ℚ} {e₀ e : Execution ℚ} {j : ℕ} {ids : List ℕ} {t : Terms ℚ}
  {fills : List (ℕ × ℚ)} {crosses : Order ℚ → Order ℚ → Prop}

/-- The loop on its way: `fills` are done, and the rest of the reference is to come from the
makers still to visit. -/
structure Filling (n : ℕ) (x : Matching ℚ) (e₀ : Execution ℚ) (ids : List ℕ) (e : Execution ℚ)
    (fills : List (ℕ × ℚ)) : Prop where
  walk : IndexedWalk False Resting (fun _ _ => True) n x e₀ ids e
  filled : Filled e₀ e fills
  fresh : ∀ i ∈ ids, i ∉ fills.map Prod.fst
  sorted : Ordered (e₀.market.key e₀.taker.side.opposite) ids
  rest : e₀.market.reference e₀.taker =
    fills ++ greedy e.taker.left (e₀.market.offers e₀.taker ids)

theorem filling_start (h : Indexed False Resting n e.market) (hleft : 0 ≤ e.taker.left)
    (hside : e.taker.side = x.side) :
    Filling n x e (e.market.book x.side.opposite) e [] := by
  refine ⟨⟨walk_start h.book hleft, h, fun _ _ => trivial, subset_rfl⟩,
    ⟨⟨[], by simp, .nil⟩, by simp, by simp, fun _ _ => rfl, ?_, fun side => ?_⟩, by simp, ?_, ?_⟩
  · exact (Finset.filter_true_of_mem fun i hi => (h.left i hi).ne').symm
  · refine (List.filter_eq_self.mpr fun i hi => ?_).symm
    simpa using (h.book.left side i hi).ne'
  · rw [hside]
    exact h.book.wf.sorted _
  · rw [Market.reference, h.book.wf.ranked, hside]
    rfl

/-- A trade with the next maker is one more fill. -/
theorem Filled.trade (h : Filled e₀ e fills) (hi : Indexed False Resting n e.market)
    (hfresh : j ∉ fills.map Prod.fst) (hmem : j ∈ e.market.orders)
    (hq : Quoted id x e.market e.taker (e.market.order j) t) (hspend : x.spend t = t.amount)
    {e' : Execution ℚ} {stuck : Prop}
    (htrades : e'.statics.trades = e.statics.trades ++ [x.record e.market t])
    (htaker : e'.taker.left = e.taker.left - x.spend t) {maker : Order ℚ}
    (hmaker : maker.left = (e.market.order j).left - t.amount)
    (ht : Traded n e.market e'.market j maker stuck) (hstuck : maker.left = 0 → ¬stuck) :
    Filled e₀ e' (fills ++ [(j, t.amount)]) := by
  have hsame : e.market.order j = e₀.market.order j := h.other j hfresh
  have hkeep : ∀ i, (e'.market.order i).left ≠ 0 ↔
      ¬(maker.left = 0 ∧ i = j) ∧ (e.market.order i).left ≠ 0 := fun i => by
    rw [ht.order, Function.update_apply]
    split_ifs with hij
    · simp [hij, (hi.left j hmem).ne']
    · simp [hij]
  have hold : ∀ i, i ≠ j → e'.market.order i = e.market.order i := fun i hne => by
    rw [ht.order, Function.update_of_ne hne]
  have hnew : e'.market.order j = maker := by rw [ht.order, Function.update_self]
  refine ⟨?_, ?_, fun p hp => ?_, fun i hi => ?_, ?_, fun side => ?_⟩
  · obtain ⟨ts, hts, hdealt⟩ := h.trades
    refine ⟨ts ++ [x.record e.market t], by rw [htrades, hts, List.append_assoc],
      List.rel_append hdealt (.cons ⟨?_, rfl, ?_⟩ .nil)⟩
    · exact hq.price.trans (congrArg Order.price hsame)
    · exact hq.deal.trans (by rw [hsame]; rfl)
  · rw [htaker, h.left, hspend, total_append, total_cons, total_nil, add_zero, sub_sub]
  · rcases List.mem_append.mp hp with hp | hp
    · rw [hold p.1 fun hpj => hfresh (hpj ▸ List.mem_map_of_mem hp)]
      exact h.maker p hp
    · obtain rfl := List.mem_singleton.mp hp
      rw [hnew, hmaker, hsame]
  · rw [List.map_append, List.mem_append, not_or] at hi
    rw [hold i fun hij => hi.2 (by simp [hij])]
    exact h.other i hi.1
  · by_cases hzero : maker.left = 0
    · rw [ht.dropped hzero (hstuck hzero), h.orders, ← Finset.filter_ne', Finset.filter_filter]
      refine Finset.filter_congr fun i _ => ?_
      rw [hkeep]
      tauto
    · rw [ht.kept (Or.inl hzero), h.orders]
      refine Finset.filter_congr fun i _ => ?_
      rw [hkeep]
      tauto
  · rw [ht.book]
    split_ifs with hzero
    · rw [(hi.book.wf.nodup side).erase_eq_filter, h.book, List.filter_filter]
      refine List.filter_congr fun i _ => ?_
      rw [Bool.eq_iff_iff, decide_eq_true_iff, hkeep]
      simp [hzero]
    · rw [h.book]
      refine List.filter_congr fun i _ => ?_
      rw [Bool.eq_iff_iff, decide_eq_true_iff, decide_eq_true_iff, hkeep]
      simp [hzero]

theorem Filling.step (hx : x.Greedy id crosses)
    (hcross : ∀ taker maker, SameFace e₀.taker taker →
      (crosses taker maker ↔ Meets e₀.taker maker)) (real : Bool)
    (h : Filling n x e₀ (j :: ids) e fills)
    (hleft : exactDecimal.cmp e.taker.left exactDecimal.zero ≠ 0)
    (hq : x.quote e.market e.taker (e.market.order j) = some (.trade t)) :
    Filling n x e₀ ids (executeTrade exactDecimal real x e j t) (fills ++ [(j, t.amount)]) := by
  have hmeets : ∀ m taker maker t, SameFace e₀.taker taker →
      x.quote m taker maker = some (.trade t) → Meets e₀.taker maker :=
    fun m taker maker t hface hq => (hcross _ _ hface).mp (by_contra fun hno => by
      rw [(hx.stop _ _ _).mpr hno] at hq
      cases hq)
  have hquoted := h.walk.walk.quoted hx.toFair hleft hq
  obtain ⟨hamount, hspend⟩ := hx.amount _ _ _ t hq
  have hwalk := h.walk.step roundsDown_id hx.toFair orderRules_resting
    (fun m taker maker t hface hq hlimit => by
      have hreach := hmeets m taker maker t hface hq (hface.type.symm.trans hlimit)
      simpa only [OutOfReach, hface.side, hface.price] using hreach) real hleft hq
  have hmem := h.walk.walk.maker.1
  have hside := h.walk.indexed.book.wf.side _ j (h.walk.walk.mem j List.mem_cons_self)
  have hresting := (h.walk.indexed.each j hmem).fillMaker hquoted hside
  have hfresh := h.fresh j List.mem_cons_self
  have hsame : e.market.order j = e₀.market.order j := h.filled.other j hfresh
  obtain ⟨hj, hids⟩ := List.pairwise_cons.mp h.sorted
  refine ⟨hwalk, ?_, fun i hi => ?_, hids, ?_⟩
  · refine h.filled.trade h.walk.indexed hfresh hmem hquoted hspend
      (executeTrade_trades _ real x e j t) rfl rfl
      (executeTrade_market id real x e t h.walk.walk.book.wf hmem) fun hzero => ?_
    rw [orderStuck_eq_false (hresting.freeze_eq_zero hzero).le]
    exact Bool.false_ne_true
  · rw [List.map_append, List.mem_append, not_or]
    refine ⟨h.fresh i (List.mem_cons_of_mem j hi), fun hij => ?_⟩
    have hne : i ≠ j := fun heq => (hj i hi).ne (congrArg _ heq.symm)
    exact hne (by simpa using hij)
  · have htaker : e.taker.left ≠ 0 := by simpa using hleft
    have hoffer := hmeets _ _ _ _ h.walk.walk.face hq
    rw [h.rest, Market.offers_cons (hsame ▸ hoffer), greedy_cons htaker, ← hsame, ← hamount,
      List.append_assoc]
    exact congrArg (fun l => fills ++ (j, t.amount) :: greedy l _)
      (congrArg (e.taker.left - ·) hspend.symm)

/-- The loop trades the reference fills. -/
theorem filling_end (hx : x.Greedy id crosses)
    (hcross : ∀ taker maker, SameFace e.taker taker →
      (crosses taker maker ↔ Meets e.taker maker)) (real : Bool)
    (h : Indexed False Resting n e.market) (hleft : 0 ≤ e.taker.left)
    (hside : e.taker.side = x.side) :
    ∃ e', x.execute exactDecimal real e = some e' ∧
      Filled e e' (e.market.reference e.taker) ∧ BookOk n e'.market := by
  obtain ⟨e', -, hrun, -⟩ := walk_end roundsDown_id hx.toFair real h.book hleft
  obtain ⟨ids, ⟨fills, hf⟩, hstop⟩ := executeLoop_rule exactDecimal real x
    (P := fun ids e' => ∃ fills, Filling n x e ids e' fills)
    (fun j ids e' t hP hl hq => ⟨_, hP.choose_spec.step hx hcross real hl hq⟩)
    ⟨[], filling_start h hleft hside⟩ hrun
  have hdone : greedy e'.taker.left (e.market.offers e.taker ids) = [] := by
    rcases hstop with rfl | hzero | ⟨j, ids', rfl, hq⟩
    · rfl
    · rw [show e'.taker.left = 0 by simpa using hzero, greedy_zero]
    · have hno : ¬Meets e.taker (e'.market.order j) := fun hmeets =>
        (hx.stop _ _ _).mp hq ((hcross _ _ hf.walk.walk.face).mpr hmeets)
      rw [hf.filled.other j (hf.fresh j List.mem_cons_self)] at hno
      rw [Market.offers_eq_nil hf.sorted hno, greedy_nil]
  have hall : e.market.reference e.taker = fills := by rw [hf.rest, hdone, List.append_nil]
  exact ⟨e', hrun, hall ▸ hf.filled, hf.walk.walk.book⟩

end Walk

/-! ## The loops -/

/-- The loop that matches a taker. -/
def executeOrder {D : Type} (mpd : Mpd D) (real : Bool) (e : Execution D) : Option (Execution D) :=
  match e.taker.type with
  | .limit => executeLimitOrder mpd real e
  | .market => executeMarketOrder mpd real e

/-- The reference is what the loop trades, unless the taker is a market bid. -/
theorem executeOrder_reference {n : ℕ} {e : Execution ℚ} (real : Bool)
    (h : Indexed False Resting n e.market) (hleft : 0 ≤ e.taker.left)
    (hkind : e.taker.type = .limit ∨ e.taker.side = .ask) :
    ∃ e', executeOrder exactDecimal real e = some e' ∧
      Filled e e' (e.market.reference e.taker) ∧ BookOk n e'.market := by
  have hlimit : e.taker.type = .limit →
      ∀ maker, ¬OutOfReach e.taker maker ↔ Meets e.taker maker :=
    fun htype maker => ⟨fun hreach _ => hreach, fun hmeets => hmeets htype⟩
  unfold executeOrder
  cases htype : e.taker.type with
  | limit =>
    have hmeets := hlimit htype
    unfold executeLimitOrder
    cases hs : e.taker.side with
    | ask =>
      refine filling_end (greedy_limitAsk id) (fun taker maker hface => ?_) real h hleft hs
      rw [← hmeets, hface.price]
      simp only [OutOfReach, hs, not_lt]
    | bid =>
      refine filling_end (greedy_limitBid id) (fun taker maker hface => ?_) real h hleft hs
      rw [← hmeets, hface.price]
      simp only [OutOfReach, hs, not_lt]
  | market =>
    have hs : e.taker.side = .ask := hkind.resolve_left (by simp [htype])
    unfold executeMarketOrder
    simp only [hs]
    refine filling_end (greedy_marketAsk id) (fun taker maker hface => ?_) real h hleft hs
    simp [Meets, htype]

namespace Engine

variable {real : Bool} {e₀ e : Engine ℚ} {dictAsset : Dict String AssetType}
  {confs : List (MarketConf ℚ)} {ops : List (Op ℚ)}

/-- A limit order or a market ask trades the reference fills, in price-time priority, and every
maker but the last it touches leaves all containers. -/
theorem price_time_priority (hinit : Engine.init exactDecimal dictAsset confs = some e₀)
    (hrun : e₀.run exactDecimal real ops = some e) {name : String} {m : Market ℚ}
    (hm : e.dictMarket.find name = some m) (s : Statics ℚ) {taker : Order ℚ}
    (hleft : 0 < taker.left) (hkind : taker.type = .limit ∨ taker.side = .ask) :
    ∃ ex, executeOrder exactDecimal real ⟨s, m, taker⟩ = some ex ∧
      Filled ⟨s, m, taker⟩ ex (m.reference taker) ∧
      m.PriceTime taker (m.reference taker) ∧
      ∀ p ∈ (m.reference taker).dropLast, ex.market.Gone p.1 := by
  have hresting := resting_run hinit hrun name m hm
  have hprio := Market.priceTime_reference hresting.book hleft.le
  obtain ⟨ex, hex, hfilled, hbook⟩ :=
    executeOrder_reference (e := ⟨s, m, taker⟩) real hresting hleft.le hkind
  refine ⟨ex, hex, hfilled, hprio, fun p hp => hbook.wf.gone fun hmem => ?_⟩
  rw [hfilled.orders] at hmem
  refine (Finset.mem_filter.mp hmem).2 ?_
  rw [hfilled.maker p (List.dropLast_subset _ hp), hprio.filled p hp, sub_self]

end Engine

/-- Three asks, the first of them at a worse price. -/
def rankedOps : List (Op ℚ) :=
  [deposit 2 "BTC" 1 9, limitOrder 2 .ask 3 2 0 0, limitOrder 2 .ask 2 1 0 0,
    limitOrder 2 .ask 4 1 0 0]

/-- A bid of 5 at 1 fills the older of the two asks at 1, and takes the rest from the other. -/
theorem rankedOps_priority :
    ∃ e₀ e m taker ex, Engine.init exactDecimal exampleAssets [exampleConf 8] = some e₀ ∧
      e₀.run exactDecimal true rankedOps = some e ∧ e.dictMarket.find "BTCCNY" = some m ∧
      m.asks = [2, 3, 1] ∧ executeOrder exactDecimal true ⟨e.statics, m, taker⟩ = some ex ∧
      m.reference taker = [(2, 2), (3, 3)] ∧ ex.taker.left = 0 ∧ ex.market.Gone 2 := by
  obtain ⟨e₀, e, m, hinit, hrun, hm, hcheck⟩ := exampleMarket_spec
    (by decide +kernel : (exampleMarket exactDecimal 8 rankedOps).any (fun m =>
      m.asks = [2, 3, 1] ∧ (m.order 2).left = 2 ∧ (m.order 3).left = 4 ∧ (m.order 1).left = 3 ∧
        (m.order 2).price = 1 ∧ (m.order 3).price = 1 ∧ (m.order 1).price = 2) = true)
  obtain ⟨hasks, h2, h3, h1, hp2, hp3, hp1⟩ := of_decide_eq_true hcheck
  let taker := newOrder exactDecimal 4 .limit m 1 .bid 1 5 0 0 "web"
  have hwf := (Engine.resting_run hinit hrun _ m hm).book.wf
  have href : m.reference taker = [(2, 2), (3, 3)] := by
    have hbook : m.book taker.side.opposite = [2, 3, 1] := hasks
    rw [Market.reference, hwf.ranked, hbook]
    norm_num [Market.offers, Meets, OutOfReach, taker, newOrder, h1, h2, h3, hp1, hp2, hp3, greedy]
  have hleft : 0 < taker.left := by norm_num [taker, newOrder]
  obtain ⟨ex, hex, hfilled, -, hgone⟩ :=
    Engine.price_time_priority hinit hrun hm e.statics hleft (Or.inl rfl)
  refine ⟨e₀, e, m, taker, ex, hinit, hrun, hm, hasks, hex, href, ?_, hgone (2, 2) (by simp [href])⟩
  rw [hfilled.left, href]
  norm_num [taker, newOrder]

end ViabtcExchange
