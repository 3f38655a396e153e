import ViabtcExchange.Quotes
import ViabtcExchange.Runs

/-!
# The book is never crossed

`BookOk n m` says of a market that its containers are well formed, that every resting order has
something left, and that every bid is below every ask. It is preserved by every trade, because a
trade only lowers a maker's `left` and removes the maker when nothing is left; and by an order
that comes to rest, because the loop has then met a maker that does not cross, or none at all
(`sweep`). Balances play no part in it: whatever their calls return, the book is the same.
-/

namespace ViabtcExchange

structure BookOk (n : ℕ) (m : Market ℚ) : Prop where
  wf : m.WF n
  left : ∀ side, ∀ i ∈ m.book side, 0 < (m.order i).left
  price : ∀ side, ∀ i ∈ m.book side, 0 < (m.order i).price
  gap : ∀ i ∈ m.asks, ∀ j ∈ m.bids, (m.order j).price < (m.order i).price

theorem Market.WF.mono {n n' : ℕ} {m : Market ℚ} (h : m.WF n) (hn : n ≤ n') : m.WF n' :=
  ⟨h.sorted, h.mem, h.side, h.named, h.home, fun i hi => (h.le i hi).trans hn, h.users, h.listed⟩

theorem BookOk.mono {n n' : ℕ} {m : Market ℚ} (h : BookOk n m) (hn : n ≤ n') : BookOk n' m :=
  ⟨h.wf.mono hn, h.left, h.price, h.gap⟩

/-- The market only lost resting orders, and those it kept have their old face. -/
theorem BookOk.of_subset {n : ℕ} {m m' : Market ℚ} (h : BookOk n m) (hwf : m'.WF n)
    (hbook : ∀ side, ∀ i ∈ m'.book side, i ∈ m.book side)
    (hface : ∀ i, SameFace (m.order i) (m'.order i))
    (hleft : ∀ side, ∀ i ∈ m'.book side, 0 < (m'.order i).left) : BookOk n m' where
  wf := hwf
  left := hleft
  price side i hi := by
    rw [(hface i).price]
    exact h.price side i (hbook side i hi)
  gap i hi j hj := by
    rw [(hface i).price, (hface j).price]
    exact h.gap i (hbook .ask i hi) j (hbook .bid j hj)

section Trade

variable {round : ℚ → ℚ} {n : ℕ} {m m' : Market ℚ} {i : ℕ} {maker : Order ℚ} {stuck : Prop}

theorem sameFace_refl {D : Type} (o : Order D) : SameFace o o := ⟨rfl, rfl, rfl, rfl, rfl, rfl⟩

theorem sameFace_update {f : ℕ → Order ℚ} (h : SameFace (f i) maker) (j : ℕ) :
    SameFace (f j) (Function.update f i maker j) := by
  rw [Function.update_apply]
  split_ifs with hj
  · rw [hj]
    exact h
  · exact sameFace_refl _

theorem BookOk.traded (h : BookOk n m) (ht : Traded n m m' i maker stuck)
    (hface : SameFace (m.order i) maker) (hleft : 0 ≤ maker.left) : BookOk n m' := by
  have hbook : ∀ side, ∀ j ∈ m'.book side, j ∈ m.book side := fun side j hj => by
    rw [ht.book] at hj
    split_ifs at hj
    · exact List.mem_of_mem_erase hj
    · exact hj
  refine h.of_subset ht.wf hbook (fun j => ht.order ▸ sameFace_update hface j)
    fun side j hj => ?_
  rw [ht.order, Function.update_apply]
  split_ifs with hji
  · subst hji
    refine lt_of_le_of_ne hleft fun h0 => ?_
    rw [ht.book, if_pos h0.symm] at hj
    exact (h.wf.nodup side).not_mem_erase hj
  · exact h.left side j (hbook side j hj)

/-- A trade does not change the face of its parties. -/
theorem sameFace_fillMaker (mpd : Mpd ℚ) (x : Matching ℚ) (maker : Order ℚ) (t : Terms ℚ) :
    SameFace maker (x.fillMaker mpd m maker t) := ⟨rfl, rfl, rfl, rfl, rfl, rfl⟩

theorem sameFace_fillTaker (mpd : Mpd ℚ) (x : Matching ℚ) (taker : Order ℚ) (t : Terms ℚ) :
    SameFace taker (x.fillTaker mpd m taker t) := ⟨rfl, rfl, rfl, rfl, rfl, rfl⟩

theorem SameFace.trans {D : Type} {o o' o'' : Order D} (h : SameFace o o') (h' : SameFace o' o'') :
    SameFace o o'' :=
  ⟨h'.id.trans h.id, h'.type.trans h.type, h'.side.trans h.side, h'.userId.trans h.userId,
    h'.market.trans h.market, h'.price.trans h.price⟩

variable (round) in
/-- The market after a trade. -/
theorem executeTrade_market (real : Bool) (x : Matching ℚ) (e : Execution ℚ) (t : Terms ℚ)
    (h : e.market.WF n) (hi : i ∈ e.market.orders) :
    Traded n e.market (executeTrade (ratMpd round) real x e i t).market i
      (x.fillMaker (ratMpd round) e.market (e.market.order i) t)
      (orderStuck (ratMpd round) (payTrade (ratMpd round) real x e i t)
        (e.market.setOrder i (x.fillMaker (ratMpd round) e.market (e.market.order i) t)) i =
          true) :=
  settleMaker_market real _ h hi (sameFace_fillMaker _ x _ t)

end Trade

/-! ## The walk along the opposite side -/

section Walk

variable {round : ℚ → ℚ} {n : ℕ} {x : Matching ℚ} {e₀ : Execution ℚ}

/-- The loop on its way: a sound book that holds the makers still to visit. -/
structure Walk (n : ℕ) (x : Matching ℚ) (e₀ : Execution ℚ) (ids : List ℕ) (e : Execution ℚ) :
    Prop where
  book : BookOk n e.market
  mem : ∀ i ∈ ids, i ∈ e.market.book x.side.opposite
  nodup : ids.Nodup
  left : 0 ≤ e.taker.left
  face : SameFace e₀.taker e.taker
  conf : e.market.conf = e₀.market.conf

/-- At the start of the loop all makers are to visit. -/
theorem walk_start {e : Execution ℚ} (h : BookOk n e.market) (hleft : 0 ≤ e.taker.left) :
    Walk n x e (e.market.book x.side.opposite) e :=
  ⟨h, fun _ hi => hi, h.wf.nodup _, hleft, sameFace_refl _, rfl⟩

variable {id : ℕ} {ids : List ℕ} {e : Execution ℚ} {t : Terms ℚ}

theorem Walk.left_pos (h : Walk n x e₀ ids e)
    (hleft : (ratMpd round).cmp e.taker.left (ratMpd round).zero ≠ 0) : 0 < e.taker.left :=
  lt_of_le_of_ne h.left fun h0 => hleft (by simp [← h0])

theorem Walk.maker (h : Walk n x e₀ (id :: ids) e) :
    id ∈ e.market.orders ∧ 0 < (e.market.order id).left ∧ 0 < (e.market.order id).price :=
  have hmem := h.mem id List.mem_cons_self
  ⟨h.book.wf.mem _ id hmem, h.book.left _ id hmem, h.book.price _ id hmem⟩

/-- The terms of the next trade. -/
theorem Walk.quoted (hx : x.Fair round) (h : Walk n x e₀ (id :: ids) e)
    (hleft : (ratMpd round).cmp e.taker.left (ratMpd round).zero ≠ 0)
    (hq : x.quote e.market e.taker (e.market.order id) = some (.trade t)) :
    Quoted round x e.market e.taker (e.market.order id) t :=
  hx.quoted _ _ _ t (h.left_pos hleft) h.maker.2.1 h.maker.2.2 hq

theorem Walk.step (hr : RoundsDown round) (hx : x.Fair round) (real : Bool)
    (h : Walk n x e₀ (id :: ids) e)
    (hleft : (ratMpd round).cmp e.taker.left (ratMpd round).zero ≠ 0)
    (hq : x.quote e.market e.taker (e.market.order id) = some (.trade t)) :
    Walk n x e₀ ids (executeTrade (ratMpd round) real x e id t) := by
  have hquoted := h.quoted hx hleft hq
  have htraded := executeTrade_market round real x e t h.book.wf h.maker.1
  obtain ⟨hid, hids⟩ := List.nodup_cons.mp h.nodup
  refine ⟨h.book.traded htraded (sameFace_fillMaker _ x _ t)
    (hr.nonneg (sub_nonneg.mpr hquoted.amount_le)), fun i hi => ?_, hids,
    hr.nonneg (sub_nonneg.mpr hquoted.spend_le), h.face.trans (sameFace_fillTaker _ x _ t),
    htraded.conf.trans h.conf⟩
  have hmem := h.mem i (List.mem_cons_of_mem id hi)
  rw [htraded.book]
  split_ifs
  · exact (List.mem_erase_of_ne fun heq : i = id => hid (heq ▸ hi)).mpr hmem
  · exact hmem

/-- The walk ends, and leaves a sound book. -/
theorem walk_end (hr : RoundsDown round) (hx : x.Fair round) (real : Bool)
    (h : BookOk n e.market) (hleft : 0 ≤ e.taker.left) :
    ∃ e' ids, x.execute (ratMpd round) real e = some e' ∧ Walk n x e ids e' := by
  obtain ⟨e', he'⟩ := executeLoop_isSome (ratMpd round) real x (P := Walk n x e)
    (fun id ids e hw hl => hx.ne_none _ _ _ (hw.left_pos hl) hw.maker.2.2)
    (fun id ids e t hw hl hq => hw.step hr hx real hl hq) (walk_start h hleft)
  obtain ⟨ids, hw, -⟩ := executeLoop_rule (ratMpd round) real x (P := Walk n x e)
    (fun id ids e t hw hl hq => hw.step hr hx real hl hq) (walk_start h hleft) he'
  exact ⟨e', ids, he', hw⟩

/-- A greedy walk that is not over has removed every maker it met. -/
def Swept (x : Matching ℚ) (ids : List ℕ) (e : Execution ℚ) : Prop :=
  e.taker.left = 0 ∨ e.market.book x.side.opposite = ids

theorem Walk.swept {crosses : Order ℚ → Order ℚ → Prop} (hr : RoundsDown round)
    (hx : x.Greedy round crosses) (real : Bool) (h : Walk n x e₀ (id :: ids) e)
    (hs : Swept x (id :: ids) e)
    (hleft : (ratMpd round).cmp e.taker.left (ratMpd round).zero ≠ 0)
    (hq : x.quote e.market e.taker (e.market.order id) = some (.trade t)) :
    Swept x ids (executeTrade (ratMpd round) real x e id t) := by
  have htraded := executeTrade_market round real x e t h.book.wf h.maker.1
  obtain ⟨hamount, hspend⟩ := hx.amount _ _ _ t hq
  rcases le_total e.taker.left (e.market.order id).left with hle | hle
  · left
    change round (e.taker.left - x.spend t) = 0
    rw [hspend, hamount, min_eq_left hle, sub_self, hr.zero]
  · right
    have hzero : (x.fillMaker (ratMpd round) e.market (e.market.order id) t).left = 0 := by
      change round ((e.market.order id).left - t.amount) = 0
      rw [hamount, min_eq_right hle, sub_self, hr.zero]
    have hbook := hs.resolve_left (h.left_pos hleft).ne'
    rw [htraded.book, if_pos hzero, hbook, List.erase_cons_head]

/-- What a greedy walk leaves: the taker is filled, or no resting order crosses it. -/
theorem sweep {crosses : Order ℚ → Order ℚ → Prop} (hr : RoundsDown round)
    (hx : x.Greedy round crosses)
    (hmono : ∀ m : Market ℚ, m.WF n → ∀ taker, ∀ i ∈ m.book x.side.opposite,
      ∀ j ∈ m.book x.side.opposite, m.key x.side.opposite i ≤ m.key x.side.opposite j →
      crosses taker (m.order j) → crosses taker (m.order i))
    (real : Bool) {e' : Execution ℚ} (h : BookOk n e.market) (hleft : 0 ≤ e.taker.left)
    (hrun : x.execute (ratMpd round) real e = some e') :
    (∃ ids, Walk n x e ids e') ∧
      (e'.taker.left = 0 ∨ ∀ j ∈ e'.market.book x.side.opposite,
        ¬crosses e'.taker (e'.market.order j)) := by
  obtain ⟨ids, ⟨hw, hs⟩, hstop⟩ := executeLoop_rule (ratMpd round) real x
    (P := fun ids e₁ => Walk n x e ids e₁ ∧ Swept x ids e₁)
    (fun id ids e t hP hl hq =>
      ⟨hP.1.step hr hx.toFair real hl hq, hP.1.swept hr hx real hP.2 hl hq⟩)
    ⟨walk_start h hleft, Or.inr rfl⟩ hrun
  refine ⟨⟨ids, hw⟩, ?_⟩
  rcases hstop with rfl | hzero | ⟨id, ids', rfl, hq⟩
  · exact hs.imp_right fun hbook => by simp [hbook]
  · exact Or.inl (by simpa using hzero)
  · refine hs.imp_right fun hbook j hj hc => ?_
    have hid : ¬crosses e'.taker (e'.market.order id) := (hx.stop _ _ _).mp hq
    refine hid (hmono e'.market hw.book.wf _ id (hbook ▸ List.mem_cons_self) j hj ?_ hc)
    rw [hbook] at hj
    rcases List.mem_cons.mp hj with rfl | hj
    · exact le_rfl
    · have hsorted := hw.book.wf.sorted x.side.opposite
      rw [hbook] at hsorted
      exact ((List.pairwise_cons.mp hsorted).1 j hj).le

end Walk

/-! ## Requests -/

section Requests

variable {round : ℚ → ℚ} {n : ℕ} {m : Market ℚ}

theorem price_le_of_key_ask {i j : ℕ} (h : m.key .ask i ≤ m.key .ask j) :
    (m.order i).price ≤ (m.order j).price := by
  rcases Prod.Lex.toLex_le_toLex.mp h with h | h
  · exact h.le
  · exact h.1.le

theorem price_le_of_key_bid {i j : ℕ} (h : m.key .bid i ≤ m.key .bid j) :
    (m.order j).price ≤ (m.order i).price := by
  rcases Prod.Lex.toLex_le_toLex.mp h with h | h
  · exact neg_le_neg_iff.mp h.le
  · exact neg_le_neg_iff.mp h.1.le

/-- An order that crosses nothing may rest. -/
theorem BookOk.rested {m' : Market ℚ} {o : Order ℚ} {freeze : ℚ} (h : BookOk n m)
    (hput : Rested m m' o freeze) (hid : n < o.id) (hleft : 0 < o.left) (hprice : 0 < o.price)
    (hcross : ∀ j ∈ m.book o.side.opposite,
      match o.side with
      | .ask => (m.order j).price < o.price
      | .bid => o.price < (m.order j).price) : BookOk o.id m' := by
  have hself : m'.order o.id = { o with freeze := freeze } := by
    rw [hput.order, Function.update_self]
  have hold : ∀ side, ∀ i ∈ m.book side, m'.order i = m.order i := fun side i hi => by
    rw [hput.order, Function.update_of_ne]
    rintro rfl
    exact ((h.wf.le _ (h.wf.mem side _ hi)).trans_lt hid).false
  have hbook : ∀ side, ∀ i ∈ m'.book side, i = o.id ∧ side = o.side ∨ i ∈ m.book side := by
    intro side i hi
    by_cases hs : side = o.side
    · subst hs
      rcases List.mem_cons.mp (hput.book.mem_iff.mp hi) with hi | hi
      · exact Or.inl ⟨hi, rfl⟩
      · exact Or.inr hi
    · exact Or.inr (hput.other side hs ▸ hi)
  refine ⟨hput.wf, fun side i hi => ?_, fun side i hi => ?_, fun i hi j hj => ?_⟩
  · rcases hbook side i hi with ⟨rfl, -⟩ | hi
    · rw [hself]
      exact hleft
    · rw [hold side i hi]
      exact h.left side i hi
  · rcases hbook side i hi with ⟨rfl, -⟩ | hi
    · rw [hself]
      exact hprice
    · rw [hold side i hi]
      exact h.price side i hi
  · rcases hbook .ask i hi with ⟨rfl, hs⟩ | hi' <;> rcases hbook .bid j hj with ⟨rfl, hs'⟩ | hj'
    · rw [← hs] at hs'
      cases hs'
    · rw [hself, hold .bid j hj']
      simp only [← hs] at hcross
      exact hcross j hj'
    · rw [hself, hold .ask i hi']
      simp only [← hs'] at hcross
      exact hcross i hi'
    · rw [hold .ask i hi', hold .bid j hj']
      exact h.gap i hi' j hj'

/-- The resting order `maker` is out of reach of a limit order. -/
def OutOfReach (taker maker : Order ℚ) : Prop :=
  match taker.side with
  | .ask => maker.price < taker.price
  | .bid => taker.price < maker.price

/-- What the matching of a limit order leaves behind. -/
structure LimitEnd (n : ℕ) (e e' : Execution ℚ) : Prop where
  book : BookOk n e'.market
  left : 0 ≤ e'.taker.left
  face : SameFace e.taker e'.taker
  conf : e'.market.conf = e.market.conf
  swept : e'.taker.left = 0 ∨
    ∀ j ∈ e'.market.book e.taker.side.opposite, OutOfReach e'.taker (e'.market.order j)

theorem executeLimitOrder_end (hr : RoundsDown round) (real : Bool) {e e' : Execution ℚ}
    (h : BookOk n e.market) (hleft : 0 ≤ e.taker.left)
    (hrun : executeLimitOrder (ratMpd round) real e = some e') : LimitEnd n e e' := by
  unfold executeLimitOrder at hrun
  cases hs : e.taker.side with
  | ask =>
    simp only [hs] at hrun
    obtain ⟨⟨ids, hw⟩, hend⟩ := sweep hr (greedy_limitAsk round)
      (fun m _ taker i _ j _ hij hc => hc.trans (price_le_of_key_bid hij)) real h hleft hrun
    refine ⟨hw.book, hw.left, hw.face, hw.conf, hend.imp_right fun hno j hj => ?_⟩
    simp only [OutOfReach, hw.face.side, hs]
    exact not_le.mp (hno j (by rw [hs] at hj; exact hj))
  | bid =>
    simp only [hs] at hrun
    obtain ⟨⟨ids, hw⟩, hend⟩ := sweep hr (greedy_limitBid round)
      (fun m _ taker i _ j _ hij hc => (price_le_of_key_ask hij).trans hc) real h hleft hrun
    refine ⟨hw.book, hw.left, hw.face, hw.conf, hend.imp_right fun hno j hj => ?_⟩
    simp only [OutOfReach, hw.face.side, hs]
    exact not_le.mp (hno j (by rw [hs] at hj; exact hj))

theorem executeLimitOrder_fixed {D : Type} {mpd : Mpd D} {real : Bool}
    {e e' : Execution D} (h : executeLimitOrder mpd real e = some e') :
    e'.statics.fixed = e.statics.fixed := by
  unfold executeLimitOrder at h
  cases hs : e.taker.side <;> simp only [hs] at h <;> exact executeLoop_fixed mpd real _ h

theorem executeMarketOrder_fixed {D : Type} {mpd : Mpd D} {real : Bool}
    {e e' : Execution D} (h : executeMarketOrder mpd real e = some e') :
    e'.statics.fixed = e.statics.fixed := by
  unfold executeMarketOrder at h
  cases hs : e.taker.side <;> simp only [hs] at h <;> exact executeLoop_fixed mpd real _ h

/-- The matching of a limit order ends. -/
theorem executeLimitOrder_isSome (hr : RoundsDown round) (real : Bool) {e : Execution ℚ}
    (h : BookOk n e.market) (hleft : 0 ≤ e.taker.left) :
    ∃ e', executeLimitOrder (ratMpd round) real e = some e' := by
  unfold executeLimitOrder
  cases e.taker.side with
  | ask =>
    exact (walk_end hr (greedy_limitAsk round).toFair real h hleft).imp fun _ h => h.choose_spec.1
  | bid =>
    exact (walk_end hr (greedy_limitBid round).toFair real h hleft).imp fun _ h => h.choose_spec.1

/-- The matching of a market order ends, and leaves a sound book. -/
theorem executeMarketOrder_end (hr : RoundsDown round) (real : Bool) {e : Execution ℚ}
    (h : BookOk n e.market) (hleft : 0 ≤ e.taker.left) :
    ∃ e', executeMarketOrder (ratMpd round) real e = some e' ∧ SameFace e.taker e'.taker ∧
      e'.market.conf = e.market.conf ∧ BookOk n e'.market := by
  unfold executeMarketOrder
  cases e.taker.side with
  | ask =>
    obtain ⟨e', ids, hrun, hw⟩ := walk_end hr (greedy_marketAsk round).toFair real h hleft
    exact ⟨e', hrun, hw.face, hw.conf, hw.book⟩
  | bid =>
    obtain ⟨e', ids, hrun, hw⟩ := walk_end hr (fair_marketBid hr) real h hleft
    exact ⟨e', hrun, hw.face, hw.conf, hw.book⟩

/-- The call that freezes what an order keeps when it comes to rest. -/
def Market.freezeCall (mpd : Mpd ℚ) (m : Market ℚ) (o : Order ℚ) : BalanceCall ℚ :=
  .freeze o.userId (m.giveAsset o.side) (restFreeze mpd o)

/-- A limit order that is filled leaves the containers alone. -/
theorem restLimitOrder_filled (mpd : Mpd ℚ) (hmpd : mpd = ratMpd round) (real : Bool)
    {e : Execution ℚ} (hleft : e.taker.left = 0) :
    (restLimitOrder mpd real e).market = e.market ∧
      (restLimitOrder mpd real e).statics.silent = e.statics.silent := by
  subst hmpd
  unfold restLimitOrder
  simp [hleft]

variable (round) in
/-- A limit order that is not filled comes to rest. -/
theorem restLimitOrder_rests (real : Bool) {e : Execution ℚ} (h : e.market.WF n)
    (hid : n < e.taker.id) (htype : e.taker.type = .limit)
    (hmarket : e.taker.market = e.market.name) (hleft : e.taker.left ≠ 0) :
    Rested e.market (restLimitOrder (ratMpd round) real e).market e.taker
        (restFreeze (ratMpd round) e.taker) ∧
      (restLimitOrder (ratMpd round) real e).statics.silent =
        (e.statics.call (ratMpd round) (e.market.freezeCall (ratMpd round) e.taker)).silent := by
  obtain ⟨m', hput, hrest⟩ := orderPut_eq round
    (e.statics.push real (.order .put e.taker e.market.stock e.market.money)) h hid htype hmarket
  unfold restLimitOrder
  simp only [ratMpd_zero, ratMpd_cmp_eq, hleft, if_false, hput, Statics.silent_call,
    Statics.silent_push]
  exact ⟨hrest, rfl⟩

variable {real : Bool} {s : Statics ℚ} {userId : ℕ} {side : OrderSide}
  {amount price takerFee makerFee : ℚ} {source : String} {o : Outcome ℚ}

theorem bookOk_putLimit (hr : RoundsDown round) (h : BookOk s.orderIdStart m)
    (hamount : 0 < amount) (hprice : 0 < price)
    (hput : marketPutLimitOrder (ratMpd round) real s m userId side amount price takerFee makerFee
      source = some o) :
    s.orderIdStart ≤ o.statics.orderIdStart ∧ o.market.conf = m.conf ∧
      BookOk o.statics.orderIdStart o.market := by
  rcases marketPutLimitOrder_cases hput with ⟨ret, -, rfl⟩ | ⟨-, -, e, hrun, rfl⟩
  · exact ⟨le_rfl, rfl, h⟩
  · have hend := executeLimitOrder_end hr real (e := startLimit (ratMpd round) s m userId side
      amount price takerFee makerFee source) h hamount.le hrun
    have hstart : e.statics.orderIdStart = s.orderIdStart + 1 :=
      congrArg Prod.fst (executeLimitOrder_fixed hrun)
    have hid : e.taker.id = s.orderIdStart + 1 := hend.face.id
    by_cases hleft : e.taker.left = 0
    · obtain ⟨hm, hs⟩ := restLimitOrder_filled _ rfl real hleft
      have hn : (restLimitOrder (ratMpd round) real e).statics.orderIdStart =
          s.orderIdStart + 1 := (congrArg Statics.orderIdStart hs).trans hstart
      rw [hn, hm]
      exact ⟨Nat.le_succ _, hend.conf, hend.book.mono (Nat.le_succ _)⟩
    · obtain ⟨hrest, hs⟩ := restLimitOrder_rests round real hend.book.wf
        (by rw [hid]; exact Nat.lt_succ_self _) hend.face.type
        (hend.face.market.trans (congrArg MarketConf.name hend.conf).symm) hleft
      have hn : (restLimitOrder (ratMpd round) real e).statics.orderIdStart =
          e.taker.id := (congrArg Statics.orderIdStart hs).trans (hstart.trans hid.symm)
      rw [hn]
      refine ⟨by rw [hid]; exact Nat.le_succ _, hrest.conf.trans hend.conf, hend.book.rested hrest
        (by rw [hid]; exact Nat.lt_succ_self _) (lt_of_le_of_ne hend.left (Ne.symm hleft))
        (by rw [hend.face.price]; exact hprice) ?_⟩
      have hside : e.taker.side = side := hend.face.side
      intro j hj
      have hout := hend.swept.resolve_left hleft j (by rw [← hend.face.side]; exact hj)
      simpa only [OutOfReach] using hout

theorem bookOk_putMarket (hr : RoundsDown round) (h : BookOk s.orderIdStart m)
    (hamount : 0 < amount)
    (hput : marketPutMarketOrder (ratMpd round) real s m userId side amount takerFee source =
      some o) :
    s.orderIdStart ≤ o.statics.orderIdStart ∧ o.market.conf = m.conf ∧
      BookOk o.statics.orderIdStart o.market := by
  rcases marketPutMarketOrder_cases hput with ⟨ret, -, rfl⟩ | ⟨-, e, hrun, rfl⟩
  · exact ⟨le_rfl, rfl, h⟩
  · obtain ⟨e', hrun', -, hconf, hbook⟩ := executeMarketOrder_end hr real
      (e := startMarket (ratMpd round) s m userId side amount takerFee source) h hamount.le
    obtain rfl := Option.some.inj (hrun.symm.trans hrun')
    have hn : (closeMarketOrder real e).statics.orderIdStart = s.orderIdStart + 1 := by
      have hsilent : (closeMarketOrder real e).statics.silent = e.statics.silent := by
        simp [closeMarketOrder]
      exact (congrArg Statics.orderIdStart hsilent).trans
        (congrArg Prod.fst (executeMarketOrder_fixed hrun))
    rw [hn]
    exact ⟨Nat.le_succ _, hconf, hbook.mono (Nat.le_succ _)⟩

variable (round real s) in
/-- Cancelling takes one order off the book, or none. -/
theorem bookOk_cancel {id : ℕ} (h : BookOk n m) (hid : id ∈ m.orders) :
    (marketCancelOrder (ratMpd round) real s m id).statics.orderIdStart = s.orderIdStart ∧
      (marketCancelOrder (ratMpd round) real s m id).market.conf = m.conf ∧
      BookOk n (marketCancelOrder (ratMpd round) real s m id).market := by
  have hfin := orderFinish_market round real
    (s.push real (.order .finish (m.order id) m.stock m.money)) h.wf hid
  refine ⟨?_, hfin.conf,
    h.of_subset hfin.wf (fun side i hi => ?_) (fun i => ?_) fun side i hi => ?_⟩
  · have hsilent := silent_marketCancelOrder (ratMpd round) real s m id
    have hn : (marketCancelOrder (ratMpd round) false s.silent m id).statics.orderIdStart =
        s.orderIdStart := by
      simp only [marketCancelOrder, Statics.push_false, orderFinish_statics]
      split_ifs <;> rfl
    exact (congrArg (fun o : Outcome ℚ => o.statics.orderIdStart) hsilent).symm.trans hn
  · have hi' : i ∈ (m.book side).erase id := hfin.book side ▸ hi
    exact List.mem_of_mem_erase hi'
  · rw [show (marketCancelOrder (ratMpd round) real s m id).market.order = m.order from hfin.order]
    exact sameFace_refl _
  · rw [show (marketCancelOrder (ratMpd round) real s m id).market.order = m.order from hfin.order]
    have hi' : i ∈ (m.book side).erase id := hfin.book side ▸ hi
    exact h.left side i (List.mem_of_mem_erase hi')

end Requests

/-! ## Runs -/

section Fixed

variable {D : Type} (mpd : Mpd D) (real : Bool)

theorem restLimitOrder_fixed (e : Execution D) :
    (restLimitOrder mpd real e).statics.fixed = e.statics.fixed := by
  unfold restLimitOrder
  dsimp only
  split_ifs
  · simp
  · exact (orderPut_fixed mpd _ _ _).trans (Statics.fixed_push real _ _)

theorem closeMarketOrder_fixed (e : Execution D) :
    (closeMarketOrder real e).statics.fixed = e.statics.fixed := by
  simp [closeMarketOrder]

theorem marketCancelOrder_fixed (s : Statics D) (m : Market D) (id : ℕ) :
    (marketCancelOrder mpd real s m id).statics.fixed = s.fixed := by
  have hfalse : (marketCancelOrder mpd false s.silent m id).statics.fixed = s.silent.fixed := by
    simp only [marketCancelOrder, Statics.push_false]
    exact orderFinish_fixed mpd _ _ _
  rw [Statics.fixed_silent] at hfalse
  rw [← hfalse]
  exact (congrArg (fun o : Outcome D => o.statics.fixed)
    (silent_marketCancelOrder mpd real s m id)).symm

variable {mpd real}

theorem updateUserBalance_fixed {s s' : Statics D} {d d' : Dict UpdateKey ℚ}
    {args : UpdateArgs D} {padding : ℕ} {now : ℚ} {ret : ℤ}
    (h : updateUserBalance mpd real s d args padding now = (ret, s', d')) : s'.fixed = s.fixed := by
  unfold updateUserBalance at h
  dsimp only at h
  split at h
  · exact (congrArg (fun r => r.2.1.fixed) h).symm
  · split at h
    · exact (congrArg (fun r => r.2.1.fixed) h).symm
    · refine (congrArg (fun r => r.2.1.fixed) h).symm.trans ?_
      cases real <;> rfl

/-- No request changes the assets, or takes back an order id. -/
theorem Engine.step_fixed {e e' : Engine D} {op : Op D} (h : e.step mpd real op = some e') :
    e'.statics.ledger.dictAsset = e.statics.ledger.dictAsset ∧
      e.statics.orderIdStart ≤ e'.statics.orderIdStart := by
  have hcases := step_cases h
  cases op with
  | updateBalance args padding now =>
    obtain ⟨s, d, hupd, rfl⟩ := hcases
    have hfixed := updateUserBalance_fixed hupd
    exact ⟨congrArg Prod.snd hfixed, (congrArg Prod.fst hfixed).ge⟩
  | limitOrder args =>
    obtain ⟨m, o, -, -, hput, -, rfl⟩ := hcases
    rcases marketPutLimitOrder_cases hput with ⟨ret, -, rfl⟩ | ⟨-, -, ex, hrun, rfl⟩
    · exact ⟨rfl, le_rfl⟩
    · have hfixed := (restLimitOrder_fixed mpd real ex).trans
        (executeLimitOrder_fixed hrun)
      exact ⟨congrArg Prod.snd hfixed, (Nat.le_succ _).trans (congrArg Prod.fst hfixed).ge⟩
  | marketOrder args =>
    obtain ⟨m, o, -, -, hput, -, rfl⟩ := hcases
    rcases marketPutMarketOrder_cases hput with ⟨ret, -, rfl⟩ | ⟨-, ex, hrun, rfl⟩
    · exact ⟨rfl, le_rfl⟩
    · have hfixed := (closeMarketOrder_fixed real ex).trans
        (executeMarketOrder_fixed hrun)
      exact ⟨congrArg Prod.snd hfixed, (Nat.le_succ _).trans (congrArg Prod.fst hfixed).ge⟩
  | cancelOrder args =>
    obtain ⟨m, -, -, -, rfl⟩ := hcases
    have hfixed := marketCancelOrder_fixed mpd real e.statics m args.orderId
    exact ⟨congrArg Prod.snd hfixed, (congrArg Prod.fst hfixed).ge⟩
  | expire now =>
    rw [hcases]
    exact ⟨rfl, le_rfl⟩

end Fixed

namespace Engine

variable {round : ℚ → ℚ} {real : Bool} {e e' : Engine ℚ}

theorem feeRateOk_iff {fee : ℚ} : feeRateOk (ratMpd round) fee = true ↔ 0 ≤ fee ∧ fee < 1 := by
  simp [feeRateOk]

theorem limitOk_pos {args : LimitArgs ℚ} (h : LimitOk (ratMpd round) args) :
    0 < args.amount ∧ 0 < args.price :=
  ⟨(ratMpd_cmp_pos _ _ _).mp h.amount, (ratMpd_cmp_pos _ _ _).mp h.price⟩

/-- A market with the configuration it has in `d`, and with a sound book. -/
structure Kept (d : Dict String (Market ℚ)) (name : String) (n : ℕ) (m : Market ℚ) : Prop where
  conf : (d.find name).map Market.conf = some m.conf
  book : BookOk n m

/-- An accepted request keeps every book sound. -/
theorem kept_step {d : Dict String (Market ℚ)} (hr : RoundsDown round) {op : Op ℚ}
    (h : e.Markets (Kept d)) (hstep : e.step (ratMpd round) real op = some e') :
    e'.Markets (Kept d) := by
  refine Markets.step (fun _ n n' m hn hm => ⟨hm.conf, hm.book.mono hn⟩)
    (fun args m o _ _ hok hput hm => ?_) (fun args m o _ _ hok hput hm => ?_)
    (fun args m _ _ hmem hm => ?_)
    (fun s d args padding now _ hupd => congrArg Prod.fst (updateUserBalance_fixed hupd)) h hstep
  · obtain ⟨hle, hconf, hbook⟩ :=
      bookOk_putLimit hr hm.book (limitOk_pos hok).1 (limitOk_pos hok).2 hput
    exact ⟨hle, hm.conf.trans (congrArg some hconf.symm), hbook⟩
  · obtain ⟨hle, hconf, hbook⟩ :=
      bookOk_putMarket hr hm.book ((ratMpd_cmp_pos _ _ _).mp hok.amount) hput
    exact ⟨hle, hm.conf.trans (congrArg some hconf.symm), hbook⟩
  · obtain ⟨heq, hconf, hbook⟩ := bookOk_cancel round real e.statics hm.book hmem
    exact ⟨heq, hm.conf.trans (congrArg some hconf.symm), hbook⟩

/-- A new market has a sound book. -/
theorem bookOk_create {dictAsset : Dict String AssetType} {conf : MarketConf ℚ} {m : Market ℚ}
    (n : ℕ) (h : marketCreate (ratMpd round) dictAsset conf = some m) : BookOk n m := by
  obtain ⟨-, horders, husers, hbook⟩ := marketCreate_spec h
  have hasks : m.asks = [] := hbook .ask
  refine ⟨⟨fun side => ?_, ?_, ?_, ?_, ?_, ?_, ?_, ?_⟩, ?_, ?_, ?_⟩
  · rw [hbook]
    exact List.Pairwise.nil
  all_goals simp [hbook, horders, husers, hasks]

theorem kept_init {dictAsset : Dict String AssetType} {confs : List (MarketConf ℚ)}
    (h : Engine.init (ratMpd round) dictAsset confs = some e) : e.Markets (Kept e.dictMarket) := by
  intro name m hm
  obtain ⟨conf, -, -, hcreate⟩ := (init_spec h).2.2 name m hm
  exact ⟨by rw [hm]; rfl, bookOk_create _ hcreate⟩

/-- What every state of a run from `e₀` keeps, whatever the balances do. -/
structure Sane (e₀ e : Engine ℚ) : Prop where
  kept : e.Markets (Kept e₀.dictMarket)
  assets : e.statics.ledger.dictAsset = e₀.statics.ledger.dictAsset

variable {e₀ : Engine ℚ} {dictAsset : Dict String AssetType} {confs : List (MarketConf ℚ)}

theorem sane_init (h : Engine.init (ratMpd round) dictAsset confs = some e₀) : Sane e₀ e₀ :=
  ⟨kept_init h, rfl⟩

theorem Sane.step (hr : RoundsDown round) {op : Op ℚ} (h : Sane e₀ e)
    (hstep : e.step (ratMpd round) real op = some e') : Sane e₀ e' :=
  ⟨kept_step hr h.kept hstep, (step_fixed hstep).1.trans h.assets⟩

/-- The assets of a market are known, and saved with enough digits. -/
theorem Sane.confOk (hinit : Engine.init (ratMpd round) dictAsset confs = some e₀)
    (h : Sane e₀ e) {name : String} {m : Market ℚ} (hm : e.dictMarket.find name = some m) :
    ∃ stock money, ConfOk e.statics.ledger.dictAsset m.conf stock money := by
  obtain ⟨m₀, hm₀, hconf⟩ := Option.map_eq_some_iff.mp (h.kept name m hm).conf
  obtain ⟨hledger, -, hmarkets⟩ := init_spec hinit
  obtain ⟨conf, -, -, hcreate⟩ := hmarkets name m₀ hm₀
  obtain ⟨stock, money, hok⟩ := marketCreate_confOk hcreate
  rw [h.assets, hledger, ← hconf, (marketCreate_spec hcreate).1]
  exact ⟨stock, money, hok⟩

end Engine

end ViabtcExchange
