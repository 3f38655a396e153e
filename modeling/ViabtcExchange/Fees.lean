import ViabtcExchange.Reserves
import ViabtcExchange.Trails

/-!
# In which asset a fee is taken

The limit loops charge the bid in money, at its rate of the deal; the market loops still charge it
in stock, at its rate of the amount. `Engine.BidsFree` is the condition under which the second does
not show: every bid a market order trades with, or is, has the rate zero.

**Theorem (`Engine.bid_fees_in_money`).** In a run under it, every deal charges both parties in
money, and the `deal_fee` of an order is the sum of the fees debited for it, all in one asset.
-/

namespace ViabtcExchange

/-! ## Debits -/

/-- What a step may do to the calls and the fee rows: add to both, every row after its call. -/
structure Debits (s s' : Statics ℚ) : Prop where
  calls : ∀ c ∈ s.ledger.calls, c ∈ s'.ledger.calls
  rows : ∀ i, ∀ f ∈ feeRows i s'.history, f ∈ feeRows i s.history ∨
    ∃ ok, (.sub f.userId .available f.asset f.fee, ok) ∈ s'.ledger.calls

namespace Debits

variable {round : ℚ → ℚ} {s s' s'' : Statics ℚ}

theorem refl (s : Statics ℚ) : Debits s s := ⟨fun _ h => h, fun _ _ h => Or.inl h⟩

theorem trans (h : Debits s s') (h' : Debits s' s'') : Debits s s'' where
  calls c hc := h'.calls c (h.calls c hc)
  rows i f hf := by
    rcases h'.rows i f hf with hf | hf
    · rcases h.rows i f hf with hf | ⟨ok, hf⟩
      · exact Or.inl hf
      · exact Or.inr ⟨ok, h'.calls _ hf⟩
    · exact Or.inr hf

theorem call (mpd : Mpd ℚ) (s : Statics ℚ) (c : BalanceCall ℚ) : Debits s (s.call mpd c) := by
  refine ⟨fun d hd => ?_, fun _ _ h => Or.inl h⟩
  unfold Statics.call Ledger.call
  split <;> exact List.mem_append_left _ hd

/-- Output that is no fee row. -/
theorem quiet (hl : s'.ledger = s.ledger)
    (hrows : ∀ i, feeRows i s'.history = feeRows i s.history) :
    Debits s s' := ⟨fun _ hc => hl ▸ hc, fun i _ hf => Or.inl (hrows i ▸ hf)⟩

theorem push (s : Statics ℚ) (msg : Message ℚ) :
    Debits s (s.push true msg) := quiet rfl fun _ => rfl

theorem append_order (s : Statics ℚ) (o : Order ℚ) : Debits s (s.append true (.order o)) :=
  quiet rfl fun i => congrArg Trail.fees (trail_append_order s i o)

/-- The debit of a fee, and its row. -/
theorem fee (s : Statics ℚ) (order : Order ℚ) (asset : String) (fee price amount rate : ℚ) :
    Debits s ((s.call (ratMpd round) (.sub order.userId .available asset fee)).appendBalanceTradeFee
      (ratMpd round) true order asset fee price amount rate) := by
  have hcall := call (ratMpd round) s (.sub order.userId .available asset fee)
  refine ⟨hcall.calls, fun i f hf => ?_⟩
  by_cases hid : order.id = i
  · simp only [Statics.appendBalanceTradeFee, Statics.appendUserBalanceHistory, Statics.append,
      feeRows, if_true, List.filterMap_append, List.mem_append] at hf
    refine hf.imp_right fun hf => ?_
    simp only [List.filterMap_cons, hid, if_true, List.filterMap_nil, List.mem_singleton] at hf
    subst hf
    simp only [ratMpd_negate, neg_neg]
    change ∃ ok, _ ∈ (s.ledger.call (ratMpd round) (.sub order.userId .available asset fee)).calls
    unfold Ledger.call
    split
    · exact ⟨true, List.mem_append_right _ (List.mem_singleton.mpr rfl)⟩
    · exact ⟨false, List.mem_append_right _ (List.mem_singleton.mpr rfl)⟩
  · refine Or.inl ?_
    simpa [Statics.appendBalanceTradeFee, Statics.appendUserBalanceHistory, Statics.append,
      Statics.call, feeRows, hid] using hf

theorem payLeg (s : Statics ℚ) (order : Order ℚ) (t : Terms ℚ) (leg : Leg ℚ) :
    Debits s (ViabtcExchange.payLeg (ratMpd round) true s order t leg) := by
  have hrow : ∀ (s : Statics ℚ) asset change, Debits s
      (s.appendUserBalanceHistory (ratMpd round) true order.userId asset "trade" change
        (.trade order.market order.id t.price t.amount none)) := fun s asset change =>
    quiet rfl fun i => by
      simp [Statics.appendUserBalanceHistory, Statics.append, feeRows]
  have hgive := (call (ratMpd round) s (.sub order.userId leg.giveType leg.giveAsset leg.give)).trans
    (hrow _ leg.giveAsset ((ratMpd round).negate leg.give))
  have hget := hgive.trans ((call (ratMpd round) _
    (.add order.userId .available leg.getAsset leg.get)).trans (hrow _ leg.getAsset leg.get))
  unfold ViabtcExchange.payLeg
  dsimp only
  by_cases hfee : (ratMpd round).cmp leg.fee (ratMpd round).zero > 0
  · rw [if_pos hfee]
    exact hget.trans (fee _ order leg.feeAsset leg.fee t.price t.amount leg.feeRate)
  · rw [if_neg hfee]
    exact hget

theorem payTrade (x : Matching ℚ) (e : Execution ℚ) (i : ℕ) (t : Terms ℚ) :
    Debits e.statics (ViabtcExchange.payTrade (ratMpd round) true x e i t) := by
  have hreport : ∀ (s : Statics ℚ) (m : Market ℚ) (taker maker : Order ℚ) (dealId : ℕ),
      Debits s (x.reportDeal true m s taker maker t dealId) := fun s m taker maker dealId => by
    refine quiet ?_ fun j => ?_
    · unfold Matching.reportDeal
      cases x.side <;> rfl
    · have htrail := trail_reportDeal s j x m taker maker t dealId
      split_ifs at htrail <;> exact congrArg Trail.fees htrail
  have hopen : Debits e.statics (e.statics.openDeal (x.record e.market t)) := quiet rfl fun _ => rfl
  exact hopen.trans ((hreport _ _ _ _ _).trans ((payLeg _ _ _ _).trans (payLeg _ _ _ _)))

theorem orderFinish (s : Statics ℚ) (m : Market ℚ) (i : ℕ) :
    Debits s (ViabtcExchange.orderFinish (ratMpd round) true s m i).1 := by
  unfold ViabtcExchange.orderFinish
  by_cases hstuck : orderStuck (ratMpd round) s m i = true
  · rw [if_pos hstuck]
    exact call _ _ _
  · rw [if_neg hstuck]
    dsimp only
    by_cases hfrozen : m.frozen (ratMpd round) i = true <;>
      by_cases hdealt : (ratMpd round).cmp (m.order i).dealStock (ratMpd round).zero > 0 <;>
      simp only [hfrozen, hdealt, if_true, if_false]
    · exact (call _ _ _).trans (append_order _ _)
    · exact call _ _ _
    · exact append_order _ _
    · exact refl _

theorem executeTrade (x : Matching ℚ) (e : Execution ℚ) (i : ℕ) (t : Terms ℚ) :
    Debits e.statics (ViabtcExchange.executeTrade (ratMpd round) true x e i t).statics := by
  have hsettle : ∀ (s : Statics ℚ) (m : Market ℚ) (maker : Order ℚ),
      Debits s (settleMaker (ratMpd round) true s m i maker).1 := fun s m maker => by
    unfold settleMaker
    dsimp only
    split_ifs
    · exact (push _ _).trans (orderFinish _ _ _)
    · exact push _ _
  exact (payTrade x e i t).trans (hsettle _ _ _)

theorem orderPut (s : Statics ℚ) (m : Market ℚ) (o : Order ℚ) :
    Debits s (ViabtcExchange.orderPut (ratMpd round) s m o).1 := by
  rcases orderPut_statics (ratMpd round) s m o with h | h
  · rw [h]
    exact refl s
  · rw [h]
    exact call _ _ _

/-- A matching of either kind. -/
theorem execute {x : Matching ℚ} {e e' : Execution ℚ}
    (h : x.execute (ratMpd round) true e = some e') :
    Debits e.statics e'.statics := by
  obtain ⟨-, hdebits, -⟩ := executeLoop_rule (ratMpd round) true x
    (P := fun _ e₁ => Debits e.statics e₁.statics)
    (fun i _ e₁ t hP _ _ => hP.trans (executeTrade x e₁ i t)) (refl e.statics) h
  exact hdebits

end Debits

/-- No request writes a fee row without the debit. -/
theorem Engine.debits_step {round : ℚ → ℚ} {e e' : Engine ℚ} {op : Op ℚ}
    (h : e.step (ratMpd round) true op = some e') : Debits e.statics e'.statics := by
  have hcases := step_cases h
  cases op with
  | updateBalance args padding now =>
    obtain ⟨s, d, hupd, rfl⟩ := hcases
    obtain ⟨b, -, hl, -, hrow⟩ := updateUserBalance_cases hupd
    refine ⟨fun c hc => ?_, fun i f hf => Or.inl ?_⟩
    · change c ∈ s.ledger.calls
      rw [hl]
      exact hc
    · change f ∈ feeRows i s.history at hf
      rw [hrow] at hf
      simpa [Statics.appendUserBalanceHistory, Statics.append, feeRows] using hf
  | limitOrder args =>
    obtain ⟨m, o, -, -, hput, -, rfl⟩ := hcases
    rcases marketPutLimitOrder_cases hput with ⟨ret, -, rfl⟩ | ⟨-, -, ex, hrun, rfl⟩
    · exact Debits.refl _
    · rw [executeLimitOrder_eq] at hrun
      have hopen : Debits e.statics (startLimit (ratMpd round) e.statics m args.userId args.side
        args.amount args.price args.takerFee args.makerFee args.source).statics :=
        Debits.quiet rfl fun _ => rfl
      refine hopen.trans ((Debits.execute hrun).trans ?_)
      change Debits _ (restLimitOrder (ratMpd round) true ex).statics
      unfold restLimitOrder
      dsimp only
      split_ifs
      · exact (Debits.append_order _ _).trans (Debits.push _ _)
      · exact (Debits.push _ _).trans (Debits.orderPut _ _ _)
  | marketOrder args =>
    obtain ⟨m, o, -, -, hput, -, rfl⟩ := hcases
    rcases marketPutMarketOrder_cases hput with ⟨ret, -, rfl⟩ | ⟨-, ex, hrun, rfl⟩
    · exact Debits.refl _
    · rw [executeMarketOrder_eq] at hrun
      have hopen : Debits e.statics (startMarket (ratMpd round) e.statics m args.userId args.side
        args.amount args.takerFee args.source).statics := Debits.quiet rfl fun _ => rfl
      exact hopen.trans ((Debits.execute hrun).trans
        ((Debits.append_order _ _).trans (Debits.push _ _)))
  | cancelOrder args =>
    obtain ⟨m, -, -, -, rfl⟩ := hcases
    exact (Debits.push _ _).trans (Debits.orderFinish _ _ _)
  | expire now =>
    subst hcases
    exact Debits.refl _

/-! ## What the deals charge -/

/-- The rate of the bid: its taker fee if it took, its maker fee if it rested. -/
def Deal.bidRate (d : Deal) : ℚ :=
  match d.side with
  | .ask => d.bid.makerFee
  | .bid => d.bid.takerFee

/-- The fees of a deal that an order has to pay, all of them in money. -/
def Deal.charge (d : Deal) (i : ℕ) : List Fee :=
  (if d.ask.id = i ∧ 0 < d.terms.askFee then [⟨d.ask.userId, d.money, d.terms.askFee⟩] else []) ++
    if d.bid.id = i ∧ 0 < d.terms.bidFee then [⟨d.bid.userId, d.money, d.terms.bidFee⟩] else []

/-- A matching that charges the bid its rate of the deal, in money. -/
def Matching.InMoney (round : ℚ → ℚ) (x : Matching ℚ) : Prop :=
  ∀ m taker maker t, x.quote m taker maker = some (.trade t) →
    x.bidFeeAsset m = m.money ∧ t.bidFee = round (t.deal * x.bidRate taker maker)

/-- `total` adds up fees, all of them in one asset. -/
structure SumIn (round : ℚ → ℚ) (asset : String) (fees : List Fee) (total : ℚ) : Prop where
  asset : ∀ f ∈ fees, f.asset = asset
  total : total = (fees.map Fee.fee).foldl (fun x y => round (x + y)) 0

section Rules

variable {round : ℚ → ℚ} {conf : MarketConf ℚ} {v : Trail} {o o' : Order ℚ} {d : Deal} {u : ℕ}
  {leg : Leg ℚ} {x : Matching ℚ} {m : Market ℚ} {taker maker : Order ℚ} {t : Terms ℚ}

theorem inMoney_limitMatching (side : OrderSide) :
    (limitMatching (ratMpd round) side).InMoney round := by
  intro m taker maker t hq
  cases side with
  | ask =>
    refine ⟨rfl, ?_⟩
    simp only [limitMatching, limitAsk] at hq
    split_ifs at hq
    · cases hq
    · obtain rfl := Quote.trade.inj (Option.some.inj hq)
      rfl
  | bid =>
    refine ⟨rfl, ?_⟩
    simp only [limitMatching, limitBid] at hq
    split_ifs at hq
    · cases hq
    · obtain rfl := Quote.trade.inj (Option.some.inj hq)
      rfl

/-- What the trail of an order says about its fees. -/
structure Charged (round : ℚ → ℚ) (conf : MarketConf ℚ) (v : Trail) (o : Order ℚ) : Prop where
  takerFee : 0 ≤ o.takerFee
  makerFee : 0 ≤ o.makerFee
  held : round o.dealFee = o.dealFee
  rates : ∀ d ∈ v.deals, d.terms.bidFee = round (d.terms.deal * d.bidRate)
  money : ∀ d ∈ v.deals, d.money = conf.money
  fees : v.fees = v.deals.flatMap fun d => d.charge o.id
  total : o.dealFee = (v.fees.map Fee.fee).foldl (fun x y => round (x + y)) 0

/-- One deal more. -/
theorem Charged.trade (hidem : ∀ y, round (round y) = round y) (h : Charged round conf v o)
    (hid : o'.id = o.id) (htaker : o'.takerFee = o.takerFee) (hmaker : o'.makerFee = o.makerFee)
    (hfee : o'.dealFee = round (o.dealFee + leg.fee)) (hnonneg : 0 ≤ leg.fee)
    (hrate : d.terms.bidFee = round (d.terms.deal * d.bidRate)) (hmoney : d.money = conf.money)
    (hcharge : d.charge o.id = if 0 < leg.fee then [⟨u, leg.feeAsset, leg.fee⟩] else []) :
    Charged round conf (v.trade d u leg) o' := by
  refine ⟨htaker ▸ h.takerFee, hmaker ▸ h.makerFee, by rw [hfee, hidem], fun d' hd => ?_,
    fun d' hd => ?_, ?_, ?_⟩
  · rcases List.mem_append.mp hd with hd | hd
    · exact h.rates d' hd
    · exact List.mem_singleton.mp hd ▸ hrate
  · rcases List.mem_append.mp hd with hd | hd
    · exact h.money d' hd
    · exact List.mem_singleton.mp hd ▸ hmoney
  · rw [hid]
    change v.fees ++ _ = (v.deals ++ [d]).flatMap _
    rw [List.flatMap_append, ← h.fees, List.flatMap_singleton, hcharge]
  · change o'.dealFee = ((v.fees ++ _).map Fee.fee).foldl _ 0
    rw [hfee, List.map_append, List.foldl_append, ← h.total]
    by_cases hpos : 0 < leg.fee
    · rw [if_pos hpos]
      rfl
    · rw [if_neg hpos, le_antisymm (not_lt.mp hpos) hnonneg, add_zero, h.held]
      rfl

/-- The fees of a trade that charges the bid in money, or nothing. -/
theorem Bargain.bidFee (hr : RoundsDown round) (h : Bargain round x m taker maker t)
    (hK : x.InMoney round ∨ x.bidRate taker maker = 0) :
    t.bidFee = round (t.deal * x.bidRate taker maker) ∧
      (0 < t.bidFee → x.bidFeeAsset m = m.money) := by
  rcases hK with hK | hK
  · obtain ⟨hasset, hfee⟩ := hK m taker maker t h.quote
    exact ⟨hfee, fun _ => hasset⟩
  · have hzero : t.bidFee = 0 := by
      rcases h.quoted.bidFee with ⟨-, hfee⟩ | ⟨-, hfee⟩ <;> rw [hfee, hK, mul_zero, hr.zero]
    refine ⟨by rw [hzero, hK, mul_zero, hr.zero], fun hpos => ?_⟩
    rw [hzero] at hpos
    exact absurd hpos (lt_irrefl 0)

theorem bidRate_dealOf : (x.dealOf m taker maker t).bidRate = x.bidRate taker maker := by
  unfold Matching.dealOf Matching.bidRate
  cases x.side <;> rfl

theorem terms_dealOf : (x.dealOf m taker maker t).terms = t := by
  unfold Matching.dealOf
  cases x.side <;> rfl

theorem money_dealOf : (x.dealOf m taker maker t).money = m.money := by
  unfold Matching.dealOf
  cases x.side <;> rfl

theorem charge_taker (h : Bargain round x m taker maker t)
    (hasset : 0 < t.bidFee → x.bidFeeAsset m = m.money) :
    (x.dealOf m taker maker t).charge taker.id =
      if 0 < (x.takerLeg m taker t).fee then
        [⟨taker.userId, (x.takerLeg m taker t).feeAsset, (x.takerLeg m taker t).fee⟩] else [] := by
  unfold Matching.dealOf Matching.takerLeg Deal.charge
  cases x.side with
  | ask => by_cases hpos : 0 < t.askFee <;> simp [Ne.symm h.ne, partyLeg, askLeg, hpos]
  | bid =>
    by_cases hpos : 0 < t.bidFee
    · simp [Ne.symm h.ne, partyLeg, bidLeg, hpos, hasset hpos]
    · simp [Ne.symm h.ne, partyLeg, bidLeg, hpos]

theorem charge_maker (h : Bargain round x m taker maker t)
    (hasset : 0 < t.bidFee → x.bidFeeAsset m = m.money) :
    (x.dealOf m taker maker t).charge maker.id =
      if 0 < (x.makerLeg m maker t).fee then
        [⟨maker.userId, (x.makerLeg m maker t).feeAsset, (x.makerLeg m maker t).fee⟩] else [] := by
  unfold Matching.dealOf Matching.makerLeg Deal.charge
  cases x.side with
  | ask =>
    by_cases hpos : 0 < t.bidFee
    · simp [h.ne, OrderSide.opposite, partyLeg, bidLeg, hpos, hasset hpos]
    · simp [h.ne, OrderSide.opposite, partyLeg, bidLeg, hpos]
  | bid => by_cases hpos : 0 < t.askFee <;> simp [h.ne, OrderSide.opposite, partyLeg, askLeg, hpos]

/-- The fee of a party is its rate of the deal. -/
theorem takerLeg_fee (h : Bargain round x m taker maker t)
    (hbid : t.bidFee = round (t.deal * x.bidRate taker maker)) :
    (x.takerLeg m taker t).fee = round (t.deal * taker.takerFee) := by
  have hask := h.quoted.askFee
  unfold Matching.takerLeg
  unfold Matching.askRate at hask
  unfold Matching.bidRate at hbid
  cases hside : x.side <;> simp only [hside] at hask hbid
  · exact hask
  · exact hbid

theorem makerLeg_fee (h : Bargain round x m taker maker t)
    (hbid : t.bidFee = round (t.deal * x.bidRate taker maker)) :
    (x.makerLeg m maker t).fee = round (t.deal * maker.makerFee) := by
  have hask := h.quoted.askFee
  unfold Matching.makerLeg
  unfold Matching.askRate at hask
  unfold Matching.bidRate at hbid
  cases hside : x.side <;> simp only [hside] at hask hbid
  · exact hbid
  · exact hask

theorem Charged.fillTaker (hr : RoundsDown round) (hidem : ∀ y, round (round y) = round y)
    (hd : Bargain round x m taker maker t) (hK : x.InMoney round ∨ x.bidRate taker maker = 0)
    (h : Charged round m.conf v taker) :
    Charged round m.conf (v.trade (x.dealOf m taker maker t) taker.userId (x.takerLeg m taker t))
      (x.fillTaker (ratMpd round) m taker t) := by
  obtain ⟨hbid, hasset⟩ := hd.bidFee hr hK
  refine h.trade hidem rfl rfl rfl rfl ?_ ?_ money_dealOf (charge_taker hd hasset)
  · rw [takerLeg_fee hd hbid]
    exact hr.nonneg (mul_nonneg hd.deal h.takerFee)
  · rw [terms_dealOf, bidRate_dealOf]
    exact hbid

theorem Charged.fillMaker (hr : RoundsDown round) (hidem : ∀ y, round (round y) = round y)
    (hd : Bargain round x m taker maker t) (hK : x.InMoney round ∨ x.bidRate taker maker = 0)
    (h : Charged round m.conf v maker) :
    Charged round m.conf (v.trade (x.dealOf m taker maker t) maker.userId (x.makerLeg m maker t))
      (x.fillMaker (ratMpd round) m maker t) := by
  obtain ⟨hbid, hasset⟩ := hd.bidFee hr hK
  refine h.trade hidem rfl rfl rfl rfl ?_ ?_ money_dealOf (charge_maker hd hasset)
  · rw [makerLeg_fee hd hbid]
    exact hr.nonneg (mul_nonneg hd.deal h.makerFee)
  · rw [terms_dealOf, bidRate_dealOf]
    exact hbid

/-- A message, or a freeze, is not about fees. -/
theorem Charged.event (h : Charged round conf v o) (ev : OrderEvent) (o' : Order ℚ) (freeze : ℚ) :
    Charged round conf (v.event ev o') { o with freeze := freeze } :=
  ⟨h.takerFee, h.makerFee, h.held, h.rates, h.money, h.fees, h.total⟩

/-- The fees of an order, open or not, are right as long as every bid fee is in money, or zero. -/
theorem trailRules_fees (hr : RoundsDown round) (hidem : ∀ y, round (round y) = round y) :
    TrailRules round (fun x taker maker => x.InMoney round ∨ x.bidRate taker maker = 0) True
      (fun conf v o => Charged round conf v o ∧ v.events = [])
      (fun conf v o => Charged round conf v o ∧ ∀ ev ∈ v.events, ev.1 ≠ .finish)
      (fun conf v o => Charged round conf v o ∧
        ∀ ev ∈ v.events, ev.1 = .finish → ev.2.dealFee = o.dealFee) where
  steady {x m taker maker t} hK := by
    refine hK.imp_right fun hzero => ?_
    unfold Matching.bidRate at hzero ⊢
    exact hzero
  new htaker hmaker :=
    ⟨⟨htaker, hmaker, hr.zero, by simp [Trail.start], by simp [Trail.start], rfl, rfl⟩, rfl⟩
  taker hd hK h := ⟨h.1.fillTaker hr hidem hd hK, h.2⟩
  update {x m taker maker t v} hd hK h _ := by
    refine ⟨(h.1.fillMaker hr hidem hd hK).event .update _ _, fun ev hev => ?_⟩
    rcases List.mem_append.mp hev with hev | hev
    · exact h.2 ev hev
    · rw [List.mem_singleton.mp hev]
      exact OrderEvent.noConfusion
  finish {x m taker maker t v} hd hK h _ := by
    refine ⟨(h.1.fillMaker hr hidem hd hK).event .finish _ _, fun ev hev hfin => ?_⟩
    rcases List.mem_append.mp hev with hev | hev
    · exact absurd hfin (h.2 ev hev)
    · rw [List.mem_singleton.mp hev]
  put {conf v o freeze} h := by
    refine ⟨h.1.event .put o freeze, fun ev hev => ?_⟩
    rcases List.mem_append.mp hev with hev | hev
    · rw [h.2] at hev
      cases hev
    · rw [List.mem_singleton.mp hev]
      exact OrderEvent.noConfusion
  filled {conf v o} h := by
    refine ⟨h.1.event .finish o o.freeze, fun ev hev _ => ?_⟩
    rcases List.mem_append.mp hev with hev | hev
    · rw [h.2] at hev
      cases hev
    · rw [List.mem_singleton.mp hev]
  cancel {conf v o} h := by
    refine ⟨h.1.event .finish o o.freeze, fun ev hev hfin => ?_⟩
    rcases List.mem_append.mp hev with hev | hev
    · exact absurd hfin (h.2 ev hev)
    · rw [List.mem_singleton.mp hev]
  again {conf v o} _ h := by
    refine ⟨h.1.event .finish o o.freeze, fun ev hev hfin => ?_⟩
    rcases List.mem_append.mp hev with hev | hev
    · exact h.2 ev hev hfin
    · rw [List.mem_singleton.mp hev]

end Rules

namespace Engine

variable {e₀ e : Engine ℚ} {dictAsset : Dict String AssetType} {confs : List (MarketConf ℚ)}
  {ops : List (Op ℚ)}

/-- The condition on a request: the bids of the trades a market order is going to make pay no
fee. -/
def BidsFree (e : Engine ℚ) : Op ℚ → Prop
  | .marketOrder args => ∀ m, e.dictMarket.find args.market = some m →
    PlanKeeps (roundDown 34) (fun x taker maker => x.bidRate taker maker = 0)
      (marketMatching decimal128 args.side) (m.book args.side.opposite)
      (startMarket decimal128 e.statics m args.userId args.side args.amount args.takerFee args.source)
  | _ => True

theorem BidsFree.ready {op : Op ℚ} (h : e.BidsFree op) :
    e.TrailReady (roundDown 34)
      (fun x taker maker => x.InMoney (roundDown 34) ∨ x.bidRate taker maker = 0) True op := by
  cases op with
  | limitOrder args => exact fun _ _ _ _ => Or.inl (inMoney_limitMatching args.side)
  | marketOrder args => exact fun m hm p hp => Or.inr (h m hm p hp)
  | cancelOrder args => exact fun _ _ _ => Or.inl trivial
  | updateBalance args padding now => trivial
  | expire now => trivial

/-- The fees of every order and of every deal, after any run whose market orders charge no bid. -/
theorem bid_fees_in_money (hinit : Engine.init decimal128 dictAsset confs = some e₀)
    (hrun : e₀.run decimal128 true ops = some e) (hfree : Along decimal128 true BidsFree e₀ ops) :
    (∀ market ask bid t side dealId stock money,
      .deal market ask bid t side dealId stock money ∈ e.statics.messages →
      t.bidFee = decimal128.mul t.deal (match side with | .ask => bid.makerFee | .bid => bid.takerFee)) ∧
    (∀ i, feeRows i e.statics.history =
        (orderDeals i e.statics.messages).flatMap (fun d => d.charge i) ∧
      ∀ f ∈ feeRows i e.statics.history,
        ∃ ok, (.sub f.userId .available f.asset f.fee, ok) ∈ e.statics.ledger.calls) ∧
    (∀ name m side i, e.dictMarket.find name = some m → i ∈ m.book side →
      SumIn (roundDown 34) m.money (feeRows i e.statics.history) (m.order i).dealFee) ∧
    ∀ o stock money, .order .finish o stock money ∈ e.statics.messages →
      ∃ asset, SumIn (roundDown 34) asset (feeRows o.id e.statics.history) o.dealFee := by
  have hr := roundsDown_roundDown
  obtain ⟨hsane, h⟩ := trailed_run hr (trailRules_fees hr (roundDown_idem 34)) hinit
    (fun pre op post e₁ hops hpre => (hfree pre op post e₁ hops hpre).ready) hrun
  have hdebits : Debits e₀.statics e.statics :=
    run_induction (Q := fun _ _ => True) (P := fun e => Debits e₀.statics e.statics)
      (fun _ _ _ h _ hstep => h.trans (debits_step hstep)) (fun _ _ _ _ _ _ => trivial)
      (Debits.refl _) hrun
  have hstart := init_statics hinit
  have hsum : ∀ {conf : MarketConf ℚ} {v : Trail} {o : Order ℚ}, Charged (roundDown 34) conf v o →
      SumIn (roundDown 34) conf.money v.fees o.dealFee := fun {conf v o} hc => by
    refine ⟨fun f hf => ?_, hc.total⟩
    rw [hc.fees] at hf
    obtain ⟨d, hd, hf⟩ := List.mem_flatMap.mp hf
    rw [← hc.money d hd]
    unfold Deal.charge at hf
    rcases List.mem_append.mp hf with hf | hf <;> split_ifs at hf
    · rw [List.mem_singleton.mp hf]
    · cases hf
    · rw [List.mem_singleton.mp hf]
    · cases hf
  -- what is known of the trail of any id
  have htrail : ∀ i, e.statics.trail i = .start ∨
      ∃ conf o, o.id = i ∧ Charged (roundDown 34) conf (e.statics.trail i) o ∧
        ∀ ev ∈ (e.statics.trail i).events, ev.1 = .finish → ev.2.dealFee = o.dealFee := fun i => by
    rcases h.cases hsane i with ⟨-, hi⟩ | ⟨name, m, side, -, -, hid, hc, hev⟩ |
      ⟨name, m, o, -, hid, hc⟩
    · exact Or.inl hi
    · exact Or.inr ⟨m.conf, m.order i, hid, hc, fun ev hmem hfin => absurd hfin (hev ev hmem)⟩
    · exact Or.inr ⟨m.conf, o, hid, hc⟩
  refine ⟨fun market ask bid t side dealId stock money hmsg => ?_, fun i => ⟨?_, fun f hf => ?_⟩,
    fun name m side i hm hi => hsum ((h.market name m hm).booked side i hi).1,
    fun o stock money hmsg => ?_⟩
  · have hdeal : ⟨ask, bid, t, side, money⟩ ∈ (e.statics.trail bid.id).deals :=
      List.mem_filterMap.mpr ⟨_, hmsg, by simp⟩
    rcases htrail bid.id with hi | ⟨conf, o, -, hc, -⟩
    · rw [hi] at hdeal
      cases hdeal
    · exact hc.rates _ hdeal
  · rcases htrail i with hi | ⟨conf, o, hid, hc, -⟩
    · have hfees : feeRows i e.statics.history = [] := congrArg Trail.fees hi
      have hdeals : orderDeals i e.statics.messages = [] := congrArg Trail.deals hi
      rw [hfees, hdeals]
      rfl
    · exact hid ▸ hc.fees
  · refine (hdebits.rows i f hf).resolve_left fun hno => ?_
    rw [hstart] at hno
    cases hno
  · have hev : (.finish, o) ∈ (e.statics.trail o.id).events :=
      List.mem_filterMap.mpr ⟨_, hmsg, by simp⟩
    rcases htrail o.id with hi | ⟨conf, o', -, hc, hfin⟩
    · rw [hi] at hev
      cases hev
    · refine ⟨conf.money, ?_⟩
      rw [show o.dealFee = o'.dealFee from hfin _ hev rfl]
      exact hsum hc

end Engine

/-- A resting bid is hit by a limit ask and then by a market ask. -/
def mixedOps : List (Op ℚ) :=
  [deposit 1 "CNY" 1 100, deposit 2 "BTC" 2 10, limitOrder 1 .bid 4 2 0 (1 / 100),
    limitOrder 2 .ask 1 2 0 0, .marketOrder ⟨2, "BTCCNY", .ask, 1, 0, "web"⟩]

/-- The same bid pays a fiftieth of a CNY for the one, and a hundredth of a BTC for the other. -/
theorem mixed_fees :
    ∃ e₀ e m, Engine.init decimal128 exampleAssets [exampleConf 8] = some e₀ ∧
      e₀.run decimal128 true mixedOps = some e ∧ e.dictMarket.find "BTCCNY" = some m ∧ 1 ∈ m.bids ∧
      feeRows 1 e.statics.history = [⟨1, "CNY", 1 / 50⟩, ⟨1, "BTC", 1 / 100⟩] ∧
      (m.order 1).dealFee = 3 / 100 ∧
      (orderDeals 1 e.statics.messages).map (fun d => (d.terms.deal * d.bidRate, d.terms.bidFee)) =
        [(1 / 50, 1 / 50), (1 / 50, 1 / 100)] ∧
      ¬∀ d ∈ orderDeals 1 e.statics.messages,
        d.terms.bidFee = decimal128.mul d.terms.deal d.bidRate := by
  obtain ⟨e₀, e, hinit, hrun, hcheck⟩ := exampleRun_spec
    (by decide +kernel : (exampleRun decimal128 8 mixedOps).any (fun e =>
      (e.dictMarket.find "BTCCNY").any fun m => decide (1 ∈ m.bids ∧
        feeRows 1 e.statics.history = [⟨1, "CNY", 1 / 50⟩, ⟨1, "BTC", 1 / 100⟩] ∧
        (m.order 1).dealFee = 3 / 100 ∧
        (orderDeals 1 e.statics.messages).map (fun d => (d.terms.deal * d.bidRate, d.terms.bidFee)) =
          [(1 / 50, 1 / 50), (1 / 50, 1 / 100)] ∧
        ¬∀ d ∈ orderDeals 1 e.statics.messages,
          d.terms.bidFee = decimal128.mul d.terms.deal d.bidRate)) = true)
  obtain ⟨m, hm, hcheck⟩ := (Option.any_eq_true _ _).mp hcheck
  exact ⟨e₀, e, m, hinit, hrun, hm, of_decide_eq_true hcheck⟩

/-- The market ask meets a bid without a fee instead. -/
def freeBidOps : List (Op ℚ) :=
  [deposit 1 "CNY" 1 100, deposit 2 "BTC" 2 10, limitOrder 1 .bid 1 2 0 (1 / 100),
    limitOrder 2 .ask 1 2 0 0, limitOrder 1 .bid 1 1 0 0,
    .marketOrder ⟨2, "BTCCNY", .ask, 1, 1 / 10, "web"⟩]

instance (round : ℚ → ℚ) (K : Matching ℚ → Order ℚ → Order ℚ → Prop)
    [∀ x taker maker, Decidable (K x taker maker)] (x : Matching ℚ) (ids : List ℕ)
    (e : Execution ℚ) : Decidable (PlanKeeps round K x ids e) := by
  unfold PlanKeeps
  infer_instance

instance (e : Engine ℚ) (op : Op ℚ) : Decidable (e.BidsFree op) := by
  refine op.casesOn ?_ ?_ ?_ ?_ ?_ <;> intros <;> dsimp only [Engine.BidsFree]
  all_goals infer_instance

theorem freeBidOps_fees :
    ∃ e₀ e, Engine.init decimal128 exampleAssets [exampleConf 8] = some e₀ ∧
      e₀.run decimal128 true freeBidOps = some e ∧
      feeRows 1 e.statics.history = [⟨1, "CNY", 1 / 50⟩] ∧
      feeRows 1 e.statics.history =
        (orderDeals 1 e.statics.messages).flatMap fun d => d.charge 1 := by
  obtain ⟨e₀, e, hinit, hrun, hcheck⟩ := exampleRun_spec
    (by decide +kernel : (exampleRun decimal128 8 freeBidOps).any (fun e =>
      decide (feeRows 1 e.statics.history = [⟨1, "CNY", 1 / 50⟩])) = true)
  have hfree : Engine.Along decimal128 true Engine.BidsFree e₀ freeBidOps :=
    of_decide_eq_true (exampleInit_spec (fun e₀ => decide (Engine.Along decimal128 true
      Engine.BidsFree e₀ freeBidOps)) hinit (by decide +kernel))
  exact ⟨e₀, e, hinit, hrun, of_decide_eq_true hcheck,
    ((Engine.bid_fees_in_money hinit hrun hfree).2.1 1).1⟩

end ViabtcExchange
