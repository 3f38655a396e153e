import ViabtcExchange.Uncrossed

/-!
# The containers of a market agree

`Indexed c P n m` strengthens `BookOk`: every order of the dictionary has something left and
satisfies `P`, and when `c` holds it is on its side of the book. Matching and resting keep this, as
long as a maker that is filled freezes nothing any more, so that `order_finish` has nothing to
unfreeze; `OrderRules` lists what this takes of `P`, and of a condition `R` on the makers the taker
meets. Cancelling keeps it too, but a cancelled order that is stuck stays in the dictionary: this
is what `c` excludes.
-/

namespace ViabtcExchange

/-- A sound book, and `P` of every order of the dictionary; under `c`, the book holds them all. -/
structure Indexed (c : Prop) (P : Order ℚ → Prop) (n : ℕ) (m : Market ℚ) : Prop where
  book : BookOk n m
  left : ∀ i ∈ m.orders, 0 < (m.order i).left
  each : ∀ i ∈ m.orders, P (m.order i)
  booked : c → ∀ i ∈ m.orders, i ∈ m.book (m.order i).side

/-- A limit order only meets makers within its limit. -/
def Meets (taker maker : Order ℚ) : Prop := taker.type = .limit → ¬OutOfReach taker maker

/-- How the orders change: `P` is kept by a resting order that is filled, and `T` by a limit order
that takes, which then comes to rest with `P`. A maker with `R` is released by its last fill. -/
structure OrderRules (round : ℚ → ℚ) (P T : Order ℚ → Prop) (R : Order ℚ → Order ℚ → Prop) :
    Prop where
  maker : ∀ {x : Matching ℚ} {m taker maker t}, Quoted round x m taker maker t →
    maker.side = x.side.opposite → P maker → P (x.fillMaker (ratMpd round) m maker t)
  release : ∀ {x : Matching ℚ} {m taker maker t}, Quoted round x m taker maker t →
    maker.side = x.side.opposite → Meets taker maker → P maker → R taker maker →
    (x.fillMaker (ratMpd round) m maker t).left = 0 →
    (x.fillMaker (ratMpd round) m maker t).freeze ≤ 0
  face : ∀ {taker taker' maker}, SameFace taker taker' → R taker maker → R taker' maker
  new : ∀ {id m userId side amount price takerFee makerFee source}, 0 < amount → 0 < price →
    T (newOrder (ratMpd round) id .limit m userId side price amount takerFee makerFee source)
  taker : ∀ {x : Matching ℚ} {m taker maker t}, Quoted round x m taker maker t →
    x.spend t = t.amount → taker.side = x.side → ¬OutOfReach taker maker → T taker →
    T (x.fillTaker (ratMpd round) m taker t)
  rest : ∀ {o : Order ℚ}, T o → 0 < o.left → 0 < o.price →
    P { o with freeze := restFreeze (ratMpd round) o }

theorem opposite_eq_ask {side : OrderSide} (h : .ask = side.opposite) : side = .bid := by
  cases side <;> simp_all [OrderSide.opposite]

theorem opposite_eq_bid {side : OrderSide} (h : .bid = side.opposite) : side = .ask := by
  cases side <;> simp_all [OrderSide.opposite]

/-- An ask gives the amount of the trade. -/
theorem makerLeg_give_ask {D : Type} {x : Matching D} {m : Market D} {maker : Order D}
    {t : Terms D} (h : x.side = .bid) : (x.makerLeg m maker t).give = t.amount := by
  simp [Matching.makerLeg, h, OrderSide.opposite, partyLeg, askLeg]

/-- A bid gives the money of the trade. -/
theorem makerLeg_give_bid {D : Type} {x : Matching D} {m : Market D} {maker : Order D}
    {t : Terms D} (h : x.side = .ask) : (x.makerLeg m maker t).give = t.deal := by
  simp [Matching.makerLeg, h, OrderSide.opposite, partyLeg, bidLeg]

section Walk

variable {round : ℚ → ℚ} {c : Prop} {P T : Order ℚ → Prop} {R : Order ℚ → Order ℚ → Prop} {n : ℕ}
  {x : Matching ℚ} {e₀ e : Execution ℚ} {id : ℕ} {ids : List ℕ} {t : Terms ℚ}

/-- The loop on its way, with all containers. -/
structure IndexedWalk (c : Prop) (P : Order ℚ → Prop) (R : Order ℚ → Order ℚ → Prop) (n : ℕ) (x : Matching ℚ)
    (e₀ : Execution ℚ) (ids : List ℕ) (e : Execution ℚ) : Prop where
  walk : Walk n x e₀ ids e
  indexed : Indexed c P n e.market
  ready : ∀ i ∈ ids, R e.taker (e.market.order i)
  orders : e.market.orders ⊆ e₀.market.orders

/-- The maker a trade leaves behind. -/
def Matching.makerAfter (mpd : Mpd ℚ) (x : Matching ℚ) (e : Execution ℚ) (id : ℕ) (t : Terms ℚ) :
    Order ℚ :=
  x.fillMaker mpd e.market (e.market.order id) t

/-- A maker that freezes nothing any more is not stuck. -/
theorem orderStuck_eq_false {s : Statics ℚ} {m : Market ℚ} {maker : Order ℚ}
    (h : maker.freeze ≤ 0) : orderStuck (ratMpd round) s (m.setOrder id maker) id = false := by
  simp [orderStuck, Market.frozen, h]

theorem Indexed.traded {m m' : Market ℚ} {maker : Order ℚ} {stuck : Prop} (h : Indexed c P n m)
    (hbook : BookOk n m') (ht : Traded n m m' id maker stuck)
    (hface : SameFace (m.order id) maker) (hstuck : maker.left = 0 → ¬stuck)
    (hleft : 0 ≤ maker.left) (hP : id ∈ m.orders → P maker) :
    Indexed c P n m' ∧ m'.orders ⊆ m.orders := by
  have hside : ∀ i, (m'.order i).side = (m.order i).side := fun i => by
    rw [ht.order]
    exact (sameFace_update hface i).side
  have hsub : m'.orders ⊆ m.orders := by
    by_cases hleft : maker.left = 0
    · rw [ht.dropped hleft (hstuck hleft)]
      exact Finset.erase_subset _ _
    · rw [ht.kept (Or.inl hleft)]
  refine ⟨⟨hbook, fun i hi => ?_, fun i hi => ?_, fun hc i hi => ?_⟩, hsub⟩
  · rw [ht.order, Function.update_apply]
    split_ifs with hid
    · refine lt_of_le_of_ne hleft fun hzero => ?_
      rw [ht.dropped hzero.symm (hstuck hzero.symm), hid] at hi
      exact absurd hi (Finset.notMem_erase _ _)
    · exact h.left i (hsub hi)
  · rw [ht.order, Function.update_apply]
    split_ifs with hid
    · exact hP (hid ▸ hsub hi)
    · exact h.each i (hsub hi)
  · have hmem := h.booked hc i (hsub hi)
    rw [hside, ht.book]
    split_ifs with hzero
    · rw [ht.dropped hzero (hstuck hzero)] at hi
      exact (List.mem_erase_of_ne (Finset.ne_of_mem_erase hi)).mpr hmem
    · exact hmem

theorem IndexedWalk.step (hr : RoundsDown round) (hx : x.Fair round)
    (hrules : OrderRules round P T R)
    (hmeets : ∀ m taker maker t, SameFace e₀.taker taker →
      x.quote m taker maker = some (.trade t) → Meets taker maker)
    (real : Bool) (h : IndexedWalk c P R n x e₀ (id :: ids) e)
    (hleft : (ratMpd round).cmp e.taker.left (ratMpd round).zero ≠ 0)
    (hq : x.quote e.market e.taker (e.market.order id) = some (.trade t)) :
    IndexedWalk c P R n x e₀ ids (executeTrade (ratMpd round) real x e id t) := by
  have hquoted := h.walk.quoted hx hleft hq
  have hwalk := h.walk.step hr hx real hleft hq
  have hid := h.walk.mem id List.mem_cons_self
  have hside := h.indexed.book.wf.side _ id hid
  have hio := h.indexed.book.wf.mem _ id hid
  have htraded := executeTrade_market round real x e t h.walk.book.wf hio
  have hP := h.indexed.each id hio
  obtain ⟨hindexed, hsub⟩ := h.indexed.traded hwalk.book htraded (sameFace_fillMaker _ x _ t)
    (fun hzero => by
      rw [orderStuck_eq_false (hrules.release hquoted hside (hmeets _ _ _ _ h.walk.face hq) hP
        (h.ready id List.mem_cons_self) hzero)]
      exact Bool.false_ne_true)
    (hr.nonneg (sub_nonneg.mpr hquoted.amount_le)) fun _ => hrules.maker hquoted hside hP
  refine ⟨hwalk, hindexed, fun i hi => ?_, hsub.trans h.orders⟩
  have hne : i ≠ id := fun heq => (List.nodup_cons.mp h.walk.nodup).1 (heq ▸ hi)
  rw [htraded.order, Function.update_of_ne hne]
  exact hrules.face (sameFace_fillTaker _ x _ t) (h.ready i (List.mem_cons_of_mem id hi))

/-- The loop keeps all containers. -/
theorem indexedWalk_end (hr : RoundsDown round) (hx : x.Fair round)
    (hrules : OrderRules round P T R)
    (hmeets : ∀ m taker maker t, SameFace e₀.taker taker →
      x.quote m taker maker = some (.trade t) → Meets taker maker)
    (real : Bool) {e' : Execution ℚ} (h : Indexed c P n e₀.market) (hleft : 0 ≤ e₀.taker.left)
    (hready : ∀ i ∈ e₀.market.book x.side.opposite, R e₀.taker (e₀.market.order i))
    (hrun : x.execute (ratMpd round) real e₀ = some e') :
    Indexed c P n e'.market ∧ e'.market.orders ⊆ e₀.market.orders := by
  obtain ⟨ids, hw, -⟩ := executeLoop_rule (ratMpd round) real x
    (P := IndexedWalk c P R n x e₀)
    (fun id ids e t hP hl hq => hP.step hr hx hrules hmeets real hl hq)
    ⟨walk_start h.book hleft, h, hready, subset_rfl⟩ hrun
  exact ⟨hw.indexed, hw.orders⟩

/-- A limit order that takes keeps `T`. -/
theorem taker_end {crosses : Order ℚ → Order ℚ → Prop} (hr : RoundsDown round)
    (hx : x.Greedy round crosses) (hrules : OrderRules round P T R)
    (hcross : ∀ taker maker, taker.side = x.side → crosses taker maker → ¬OutOfReach taker maker)
    (real : Bool) {e' : Execution ℚ} (h : BookOk n e₀.market) (hleft : 0 ≤ e₀.taker.left)
    (hside : e₀.taker.side = x.side) (hT : T e₀.taker)
    (hrun : x.execute (ratMpd round) real e₀ = some e') : T e'.taker := by
  obtain ⟨ids, hw, -⟩ := executeLoop_rule (ratMpd round) real x
    (P := fun ids e => Walk n x e₀ ids e ∧ T e.taker)
    (fun id ids e t hP hl hq => by
      refine ⟨hP.1.step hr hx.toFair real hl hq, hrules.taker (hP.1.quoted hx.toFair hl hq)
        (hx.amount _ _ _ t hq).2 (hP.1.face.side.trans hside) ?_ hP.2⟩
      refine hcross _ _ (hP.1.face.side.trans hside) (by_contra fun hno => ?_)
      rw [(hx.stop _ _ _).mpr hno] at hq
      cases hq)
    ⟨walk_start h hleft, hT⟩ hrun
  exact hw.2

end Walk

/-! ## Requests -/

section Requests

variable {round : ℚ → ℚ} {c : Prop} {P T : Order ℚ → Prop} {R : Order ℚ → Order ℚ → Prop} {n : ℕ}
  {m : Market ℚ} {real : Bool} {s : Statics ℚ} {userId : ℕ} {side : OrderSide}
  {amount price takerFee makerFee : ℚ} {source : String} {o : Outcome ℚ} {e e' : Execution ℚ}

theorem indexed_executeLimitOrder (hr : RoundsDown round) (hrules : OrderRules round P T R)
    (h : Indexed c P n e.market) (hleft : 0 ≤ e.taker.left) (hT : T e.taker)
    (hready : ∀ i ∈ e.market.book e.taker.side.opposite, R e.taker (e.market.order i))
    (hrun : executeLimitOrder (ratMpd round) real e = some e') :
    Indexed c P n e'.market ∧ e'.market.orders ⊆ e.market.orders ∧ T e'.taker := by
  unfold executeLimitOrder at hrun
  cases hs : e.taker.side with
  | ask =>
    simp only [hs] at hrun hready
    have hcross : ∀ taker maker : Order ℚ, taker.side = .ask → taker.price ≤ maker.price →
        ¬OutOfReach taker maker := fun taker maker hside hle => by
      simp only [OutOfReach, hside]
      exact not_lt.mpr hle
    obtain ⟨hindexed, hsub⟩ := indexedWalk_end hr (greedy_limitAsk round).toFair hrules
      (fun m taker maker t hface hq _ => hcross _ _ (hface.side.trans hs) (by_contra fun hno => by
        rw [((greedy_limitAsk round).stop _ _ _).mpr hno] at hq
        cases hq)) real h hleft hready hrun
    exact ⟨hindexed, hsub, taker_end hr (greedy_limitAsk round) hrules hcross real h.book hleft hs
      hT hrun⟩
  | bid =>
    simp only [hs] at hrun hready
    have hcross : ∀ taker maker : Order ℚ, taker.side = .bid → maker.price ≤ taker.price →
        ¬OutOfReach taker maker := fun taker maker hside hle => by
      simp only [OutOfReach, hside]
      exact not_lt.mpr hle
    obtain ⟨hindexed, hsub⟩ := indexedWalk_end hr (greedy_limitBid round).toFair hrules
      (fun m taker maker t hface hq _ => hcross _ _ (hface.side.trans hs) (by_contra fun hno => by
        rw [((greedy_limitBid round).stop _ _ _).mpr hno] at hq
        cases hq)) real h hleft hready hrun
    exact ⟨hindexed, hsub, taker_end hr (greedy_limitBid round) hrules hcross real h.book hleft hs
      hT hrun⟩

theorem indexed_executeMarketOrder (hr : RoundsDown round) (hrules : OrderRules round P T R)
    (h : Indexed c P n e.market) (hleft : 0 ≤ e.taker.left) (htype : e.taker.type = .market)
    (hready : ∀ i ∈ e.market.book e.taker.side.opposite, R e.taker (e.market.order i))
    (hrun : executeMarketOrder (ratMpd round) real e = some e') :
    Indexed c P n e'.market ∧ e'.market.orders ⊆ e.market.orders := by
  have hmeets : ∀ taker maker : Order ℚ, SameFace e.taker taker → Meets taker maker :=
    fun taker maker hface hlimit => by
      rw [hface.type, htype] at hlimit
      cases hlimit
  unfold executeMarketOrder at hrun
  cases hs : e.taker.side with
  | ask =>
    simp only [hs] at hrun hready
    exact indexedWalk_end hr (greedy_marketAsk round).toFair hrules
      (fun _ taker maker _ hface _ => hmeets taker maker hface) real h hleft hready hrun
  | bid =>
    simp only [hs] at hrun hready
    exact indexedWalk_end hr (fair_marketBid hr) hrules
      (fun _ taker maker _ hface _ => hmeets taker maker hface) real h hleft hready hrun

/-- An order that comes to rest enters every container. -/
theorem Indexed.rested {m' : Market ℚ} {o : Order ℚ} {freeze : ℚ} (h : Indexed c P n m)
    (hbook : BookOk o.id m') (hput : Rested m m' o freeze) (hid : n < o.id) (hleft : 0 < o.left)
    (hP : P { o with freeze := freeze }) : Indexed c P o.id m' := by
  have hself : m'.order o.id = { o with freeze := freeze } := by
    rw [hput.order, Function.update_self]
  have hold : ∀ i ∈ m.orders, m'.order i = m.order i := fun i hi => by
    rw [hput.order, Function.update_of_ne]
    rintro rfl
    exact ((h.book.wf.le _ hi).trans_lt hid).false
  refine ⟨hbook, fun i hi => ?_, fun i hi => ?_, fun hc i hi => ?_⟩
  all_goals
    rw [hput.orders] at hi
    rcases Finset.mem_insert.mp hi with rfl | hi
  · rw [hself]
    exact hleft
  · rw [hold i hi]
    exact h.left i hi
  · rw [hself]
    exact hP
  · rw [hold i hi]
    exact h.each i hi
  · rw [hself]
    exact hput.book.mem_iff.mpr List.mem_cons_self
  · rw [hold i hi]
    by_cases hs : (m.order i).side = o.side
    · rw [hs]
      exact hput.book.mem_iff.mpr (List.mem_cons_of_mem _ (hs ▸ h.booked hc i hi))
    · rw [hput.other _ hs]
      exact h.booked hc i hi

theorem Indexed.mono {n' : ℕ} (h : Indexed c P n m) (hn : n ≤ n') : Indexed c P n' m :=
  ⟨h.book.mono hn, h.left, h.each, h.booked⟩

/-- What a limit order makes of the containers: the only order it can add is itself. -/
theorem indexed_putLimit (hr : RoundsDown round) (hrules : OrderRules round P T R)
    (h : Indexed c P s.orderIdStart m) (hamount : 0 < amount) (hprice : 0 < price)
    (hready : ∀ i ∈ m.book side.opposite,
      R (startLimit (ratMpd round) s m userId side amount price takerFee makerFee source).taker
        (m.order i))
    (hput : marketPutLimitOrder (ratMpd round) real s m userId side amount price takerFee makerFee
      source = some o) :
    Indexed c P o.statics.orderIdStart o.market ∧
      o.market.orders ⊆ insert (s.orderIdStart + 1) m.orders := by
  have hbook := (bookOk_putLimit hr h.book hamount hprice hput).2.2
  rcases marketPutLimitOrder_cases hput with ⟨ret, -, rfl⟩ | ⟨-, -, e, hrun, rfl⟩
  · exact ⟨h, Finset.subset_insert _ _⟩
  · have hend := executeLimitOrder_end hr real (e := startLimit (ratMpd round) s m userId side
      amount price takerFee makerFee source) h.book hamount.le hrun
    obtain ⟨hindexed, hsub, hT⟩ := indexed_executeLimitOrder hr hrules (e := startLimit
      (ratMpd round) s m userId side amount price takerFee makerFee source) h hamount.le
      (hrules.new hamount hprice) hready hrun
    have hstart : e.statics.orderIdStart = s.orderIdStart + 1 :=
      congrArg Prod.fst (executeLimitOrder_fixed hrun)
    have hid : e.taker.id = s.orderIdStart + 1 := hend.face.id
    by_cases hleft : e.taker.left = 0
    · obtain ⟨hm, hs⟩ := restLimitOrder_filled _ rfl real hleft
      have hn : (restLimitOrder (ratMpd round) real e).statics.orderIdStart =
          s.orderIdStart + 1 := (congrArg Statics.orderIdStart hs).trans hstart
      rw [hm, hn]
      exact ⟨hindexed.mono (Nat.le_succ _), hsub.trans (Finset.subset_insert _ _)⟩
    · have hlt : s.orderIdStart < e.taker.id := by rw [hid]; exact Nat.lt_succ_self _
      obtain ⟨hrest, hs⟩ := restLimitOrder_rests round real hend.book.wf hlt
        hend.face.type (hend.face.market.trans (congrArg MarketConf.name hend.conf).symm) hleft
      have hn : (restLimitOrder (ratMpd round) real e).statics.orderIdStart =
          e.taker.id := (congrArg Statics.orderIdStart hs).trans (hstart.trans hid.symm)
      rw [hn] at hbook ⊢
      have hpos : 0 < e.taker.left := lt_of_le_of_ne hend.left (Ne.symm hleft)
      refine ⟨hindexed.rested hbook hrest hlt hpos (hrules.rest hT hpos
        (by rw [hend.face.price]; exact hprice)), ?_⟩
      rw [hrest.orders, hid]
      exact Finset.insert_subset_insert _ hsub

/-- A market order adds nothing to the containers. -/
theorem indexed_putMarket (hr : RoundsDown round) (hrules : OrderRules round P T R)
    (h : Indexed c P s.orderIdStart m) (hamount : 0 < amount)
    (hready : ∀ i ∈ m.book side.opposite,
      R (startMarket (ratMpd round) s m userId side amount takerFee source).taker (m.order i))
    (hput : marketPutMarketOrder (ratMpd round) real s m userId side amount takerFee source =
      some o) :
    Indexed c P o.statics.orderIdStart o.market ∧ o.market.orders ⊆ m.orders := by
  have hle := (bookOk_putMarket hr h.book hamount hput).1
  rcases marketPutMarketOrder_cases hput with ⟨ret, -, rfl⟩ | ⟨-, e, hrun, rfl⟩
  · exact ⟨h, subset_rfl⟩
  · obtain ⟨hindexed, hsub⟩ := indexed_executeMarketOrder hr hrules (e := startMarket
      (ratMpd round) s m userId side amount takerFee source) h hamount.le rfl hready hrun
    exact ⟨hindexed.mono hle, hsub⟩

variable (real) in
/-- An order that is not stuck leaves every container when it is cancelled. -/
theorem indexed_cancel {id : ℕ} (h : Indexed c P n m) (hid : id ∈ m.orders)
    (hstuck : c → orderStuck (ratMpd round) s m id = false) :
    Indexed c P n (marketCancelOrder (ratMpd round) real s m id).market ∧
      (marketCancelOrder (ratMpd round) real s m id).market.orders ⊆ m.orders ∧
      (c → (marketCancelOrder (ratMpd round) real s m id).market.orders = m.orders.erase id) := by
  have hbook := (bookOk_cancel round real s h.book hid).2.2
  have hfin := orderFinish_market round real
    (s.push real (.order .finish (m.order id) m.stock m.money)) h.book.wf hid
  set m' := (marketCancelOrder (ratMpd round) real s m id).market
  have horder : m'.order = m.order := hfin.order
  have herase : c → m'.orders = m.orders.erase id := fun hc =>
    hfin.dropped fun hs => by
      rw [show orderStuck (ratMpd round) (s.push real _) m id = orderStuck (ratMpd round) s m id by
        cases real <;> rfl, hstuck hc] at hs
      cases hs
  have hsub : m'.orders ⊆ m.orders := by
    by_cases hs : orderStuck (ratMpd round)
        (s.push real (.order .finish (m.order id) m.stock m.money)) m id = true
    · exact (hfin.kept hs).subset
    · exact (hfin.dropped hs).subset.trans (Finset.erase_subset _ _)
  refine ⟨⟨hbook, fun i hi => ?_, fun i hi => ?_, fun hc i hi => ?_⟩, hsub, herase⟩
  · rw [horder]
    exact h.left i (hsub hi)
  · rw [horder]
    exact h.each i (hsub hi)
  · rw [herase hc] at hi
    rw [horder, show m'.book _ = (m.book _).erase id from hfin.book _]
    exact (List.mem_erase_of_ne (Finset.ne_of_mem_erase hi)).mpr
      (h.booked hc i (Finset.mem_of_mem_erase hi))

end Requests

namespace Engine

variable {round : ℚ → ℚ} {c : Prop} {P T : Order ℚ → Prop} {R : Order ℚ → Order ℚ → Prop} {real : Bool}
  {e e' : Engine ℚ}

/-- The makers an order may meet satisfy `R`, and under `c` an order that is cancelled is not
stuck. -/
def Ready (mpd : Mpd ℚ) (c : Prop) (R : Order ℚ → Order ℚ → Prop) (e : Engine ℚ) : Op ℚ → Prop
  | .limitOrder args => ∀ m, e.dictMarket.find args.market = some m →
    ∀ i ∈ m.book args.side.opposite,
      R (startLimit mpd e.statics m args.userId args.side args.amount args.price args.takerFee
        args.makerFee args.source).taker (m.order i)
  | .marketOrder args => ∀ m, e.dictMarket.find args.market = some m →
    ∀ i ∈ m.book args.side.opposite,
      R (startMarket mpd e.statics m args.userId args.side args.amount args.takerFee
        args.source).taker (m.order i)
  | .cancelOrder args => ∀ m, e.dictMarket.find args.market = some m →
    c → orderStuck mpd e.statics m args.orderId = false
  | _ => True

/-- A new market holds no orders. -/
theorem indexed_init {dictAsset : Dict String AssetType} {confs : List (MarketConf ℚ)}
    {e₀ : Engine ℚ} (hinit : Engine.init (ratMpd round) dictAsset confs = some e₀) :
    e₀.Markets fun _ => Indexed c P := by
  intro name m hm
  obtain ⟨conf, -, -, hcreate⟩ := (init_spec hinit).2.2 name m hm
  have horders := (marketCreate_spec hcreate).2.1
  exact ⟨bookOk_create _ hcreate, by simp [horders], by simp [horders], by simp [horders]⟩

/-- An accepted request keeps all containers, and does not bring back an order. -/
theorem indexed_step (hr : RoundsDown round) (hrules : OrderRules round P T R) {op : Op ℚ}
    {absent : String → ℕ → Prop}
    (h : e.Markets fun name n m => Indexed c P n m ∧ ∀ i, absent name i → i ≤ n ∧ i ∉ m.orders)
    (hready : e.Ready (ratMpd round) c R op) (hstep : e.step (ratMpd round) real op = some e') :
    e'.Markets fun name n m => Indexed c P n m ∧ ∀ i, absent name i → i ≤ n ∧ i ∉ m.orders := by
  refine Markets.step (fun _ n n' m hn hm => ⟨hm.1.mono hn, fun i hi =>
      ⟨(hm.2 i hi).1.trans hn, (hm.2 i hi).2⟩⟩)
    (fun args m o hop hfind hok hput hm => ?_) (fun args m o hop hfind hok hput hm => ?_)
    (fun args m hop hfind hmem hm => ?_)
    (fun s d args padding now _ hupd => congrArg Prod.fst (updateUserBalance_fixed hupd)) h hstep
  · subst hop
    have hle := (bookOk_putLimit hr hm.1.book (limitOk_pos hok).1 (limitOk_pos hok).2 hput).1
    obtain ⟨hindexed, hsub⟩ := indexed_putLimit hr hrules hm.1 (limitOk_pos hok).1
      (limitOk_pos hok).2 (hready m hfind) hput
    refine ⟨hle, hindexed, fun i hi => ⟨(hm.2 i hi).1.trans hle, fun hmem => ?_⟩⟩
    rcases Finset.mem_insert.mp (hsub hmem) with hnew | hold
    · exact absurd (hm.2 i hi).1 (by omega)
    · exact (hm.2 i hi).2 hold
  · subst hop
    have hamount := (ratMpd_cmp_pos _ _ _).mp hok.amount
    have hle := (bookOk_putMarket hr hm.1.book hamount hput).1
    obtain ⟨hindexed, hsub⟩ := indexed_putMarket hr hrules hm.1 hamount (hready m hfind) hput
    exact ⟨hle, hindexed, fun i hi => ⟨(hm.2 i hi).1.trans hle, fun hmem =>
      (hm.2 i hi).2 (hsub hmem)⟩⟩
  · subst hop
    obtain ⟨hindexed, hsub, -⟩ := indexed_cancel real hm.1 hmem (hready m hfind)
    exact ⟨(bookOk_cancel round real e.statics hm.1.book hmem).1, hindexed, fun i hi => ⟨(hm.2 i hi).1, fun hmem' =>
      (hm.2 i hi).2 (hsub hmem')⟩⟩

end Engine

end ViabtcExchange
