import ViabtcExchange.Solvency

/-!
# Takers and their funds

A taker gives what it has AVAILABLE, so the trades it makes fit into the supply of both assets;
`Sizes` says this of a kind of taker, and the three kinds follow: asks, limit bids and market bids.

**Theorem (`SolventWalk.step`).** The matching loop keeps a market solvent as long as the calls of
the order cover their AVAILABLE postings.
-/

namespace ViabtcExchange

section Kinds

/-- An ask, with what it has left in whole ticks. -/
structure AskTaker (S : String → ℚ) (c : MarketConf ℚ) (o : Order ℚ) : Prop where
  side : o.side = .ask
  grid : OnGrid c.stockPrec o.left
  nonneg : 0 ≤ o.left
  le : o.left ≤ S c.stock

structure LimitBidTaker (S : String → ℚ) (c : MarketConf ℚ) (o : Order ℚ) : Prop where
  side : o.side = .bid
  grid : OnGrid c.stockPrec o.left
  nonneg : 0 ≤ o.left
  priceGrid : OnGrid c.moneyPrec o.price
  pricePos : 0 < o.price
  le : o.price * o.left ≤ S c.money

/-- A bid for as much as its money buys. -/
structure MarketBidTaker (S : String → ℚ) (c : MarketConf ℚ) (money : AssetType) (o : Order ℚ) :
    Prop where
  side : o.side = .bid
  grid : OnGrid money.precSave o.left
  nonneg : 0 ≤ o.left
  le : o.left ≤ S c.money

/-- Takers with `T` trade in sizes that fit, and keep `T`. -/
structure Sizes (round : ℚ → ℚ) (F : ℚ → Prop) (S : String → ℚ) (other : ℕ → String → ℚ)
    (dictAsset : Dict String AssetType) (stock money : AssetType) (c : MarketConf ℚ)
    (x : Matching ℚ) (T : Order ℚ → Prop) : Prop where
  side : ∀ {taker}, T taker → taker.side = x.side
  nonneg : ∀ {taker}, T taker → 0 ≤ taker.left
  step : ∀ {m : Market ℚ} {taker maker : Order ℚ} {t : Terms ℚ}, m.conf = c →
    Setting round S other dictAsset m stock money → T taker →
    Backed F m.stockPrec m.moneyPrec maker → maker.side = x.side.opposite → 0 < maker.left →
    0 < maker.price → maker.freeze ≤ S (m.giveAsset x.side.opposite) → 0 < taker.left →
    x.quote m taker maker = some (.trade t) →
    Sized S m maker t ∧ T (x.fillTaker (ratMpd round) m taker t)

variable {round : ℚ → ℚ} {F : ℚ → Prop} {S : String → ℚ} {other : ℕ → String → ℚ}
  {dictAsset : Dict String AssetType} {stock money : AssetType} {c : MarketConf ℚ} {x : Matching ℚ}
  {crosses : Order ℚ → Order ℚ → Prop}

theorem sizes_ask (hx : x.Greedy round crosses) (hside : x.side = .ask) :
    Sizes round F S other dictAsset stock money c x (AskTaker S c) where
  side h := h.side.trans hside.symm
  nonneg h := h.nonneg
  step {m taker maker t} hc hset hT hmaker hms hleft hprice hbound htaker hq := by
    subst hc
    obtain ⟨hamount, hspend⟩ := hx.amount _ _ _ t hq
    have hquoted := hx.quoted _ _ _ t htaker hleft hprice hq
    have hbid : maker.side = .bid := by rw [hms, hside]; rfl
    have hfreeze : maker.freeze = maker.price * maker.left := by
      rw [hmaker.freeze]
      simp [restFreeze, hbid]
    rw [hside] at hbound
    have hmoney : maker.price * maker.left ≤ S m.money := hfreeze ▸ hbound
    have hgrid : OnGrid m.stockPrec t.amount := hamount ▸ hT.grid.min hmaker.left
    have hle : t.amount ≤ taker.left := hspend ▸ hquoted.spend_le
    have hrest : 0 ≤ taker.left - t.amount := sub_nonneg.mpr hle
    have hstock : taker.left ≤ S m.stock := hT.le
    have hkeep : round (taker.left - t.amount) = taker.left - t.amount := by
      refine hset.stock_exact (hT.grid.sub hgrid) ?_
      rw [abs_of_nonneg hrest]
      linarith [hquoted.amount_pos]
    have hafter : (x.fillTaker (ratMpd round) m taker t).left = taker.left - t.amount := by
      change round (taker.left - x.spend t) = _
      rw [hspend, hkeep]
    refine ⟨⟨hgrid, hle.trans hstock, ?_⟩, hT.side, ?_, ?_, ?_⟩
    · exact (mul_le_mul_of_nonneg_left hquoted.amount_le hprice.le).trans hmoney
    · rw [hafter]
      exact hT.grid.sub hgrid
    · rw [hafter]
      exact hrest
    · rw [hafter]
      exact (sub_le_self _ hquoted.amount_pos.le).trans hT.le

theorem sizes_limitBid :
    Sizes round F S other dictAsset stock money c (limitBid (ratMpd round))
      (LimitBidTaker S c) where
  side h := h.side
  nonneg h := h.nonneg
  step {m taker maker t} hc hset hT hmaker hms hleft hprice hbound htaker hq := by
    subst hc
    have hx := greedy_limitBid round
    obtain ⟨hamount, hspend⟩ := hx.amount _ _ _ t hq
    have hquoted := hx.quoted _ _ _ t htaker hleft hprice hq
    have hcross : maker.price ≤ taker.price := by_contra fun hno => by
      rw [(hx.stop _ _ _).mpr hno] at hq
      cases hq
    have hask : maker.side = .ask := hms
    have hfreeze : maker.freeze = maker.left := by
      rw [hmaker.freeze]
      simp [restFreeze, hask]
    have hstock : maker.left ≤ S m.stock := hfreeze ▸ hbound
    have hgrid : OnGrid m.stockPrec t.amount := hamount ▸ hT.grid.min hmaker.left
    have hle : t.amount ≤ taker.left := hspend ▸ hquoted.spend_le
    have hrest : 0 ≤ taker.left - t.amount := sub_nonneg.mpr hle
    have hcost : ∀ y, y ≤ taker.left → taker.price * y ≤ S m.money := fun y hy =>
      (mul_le_mul_of_nonneg_left hy hT.pricePos.le).trans hT.le
    have hkeep : round (taker.left - t.amount) = taker.left - t.amount :=
      hset.left_exact (hT.grid.sub hgrid) hrest hT.priceGrid hT.pricePos
        (hcost _ (sub_le_self _ hquoted.amount_pos.le))
    have hafter : ((limitBid (ratMpd round)).fillTaker (ratMpd round) m taker t).left =
        taker.left - t.amount := by
      change round (taker.left - (limitBid (ratMpd round)).spend t) = _
      rw [hspend, hkeep]
    refine ⟨⟨hgrid, hquoted.amount_le.trans hstock, ?_⟩, hT.side, ?_, ?_, hT.priceGrid, hT.pricePos,
      ?_⟩
    · exact (mul_le_mul_of_nonneg_right hcross hquoted.amount_pos.le).trans (hcost _ hle)
    · rw [hafter]
      exact hT.grid.sub hgrid
    · rw [hafter]
      exact hrest
    · rw [hafter]
      exact hcost _ (sub_le_self _ hquoted.amount_pos.le)

theorem sizes_marketBid (hround : RoundsDigits round) :
    Sizes round F S other dictAsset stock money c (marketBid (ratMpd round))
      (MarketBidTaker S c money) where
  side h := h.side
  nonneg h := h.nonneg
  step {m taker maker t} hc hset hT hmaker hms hleft hprice hbound htaker hq := by
    subst hc
    have hr := hround.toRoundsDown
    have hquoted := (fair_marketBid hr).quoted _ _ _ t htaker hleft hprice hq
    rw [marketBid_quote hr hT.nonneg hprice] at hq
    dsimp only at hq
    split_ifs at hq with hzero
    · cases hq
    have hamount : t.amount = min (affordable round m taker maker) maker.left := by
      obtain rfl := Quote.trade.inj (Option.some.inj hq)
      rfl
    have hask : maker.side = .ask := hms
    have hfreeze : maker.freeze = maker.left := by
      rw [hmaker.freeze]
      simp [restFreeze, hask]
    have hstock : maker.left ≤ S m.stock := hfreeze ▸ hbound
    have hgrid : OnGrid m.stockPrec t.amount :=
      hamount ▸ (onGrid_truncTo _ _).min hmaker.left
    have hcost : maker.price * t.amount ≤ taker.left := by
      have haff := @affordable_mul_le _ m taker _ hr hT.nonneg hprice
      have hle : t.amount ≤ affordable round m taker maker := hamount ▸ min_le_left _ _
      rw [mul_comm]
      exact (mul_le_mul_of_nonneg_right hle hprice.le).trans haff
    have hsized : Sized S m maker t :=
      ⟨hgrid, hquoted.amount_le.trans hstock, hcost.trans hT.le⟩
    have hdeal := hsized.deal hset hquoted hmaker.price hprice
    have hdealgrid : OnGrid money.precSave t.deal :=
      hdeal ▸ hset.money_grid (hsized.cost_grid hmaker.price)
    have hdealpos : 0 < t.deal := hdeal ▸ mul_pos hprice hquoted.amount_pos
    have hrest : 0 ≤ taker.left - t.deal := by
      rw [hdeal]
      exact sub_nonneg.mpr hcost
    have hmoney : taker.left ≤ S m.money := hT.le
    have hkeep : round (taker.left - t.deal) = taker.left - t.deal := by
      refine hset.room _ money _ hset.conf.findMoney (hT.grid.sub hdealgrid) ?_
      rw [abs_of_nonneg hrest]
      change _ ≤ 4 * S m.money
      linarith
    have hafter : ((marketBid (ratMpd round)).fillTaker (ratMpd round) m taker t).left =
        taker.left - t.deal := hkeep
    refine ⟨hsized, hT.side, ?_, ?_, ?_⟩
    · rw [hafter]
      exact hT.grid.sub hdealgrid
    · rw [hafter]
      exact hrest
    · rw [hafter]
      exact (sub_le_self _ hdealpos.le).trans hT.le

end Kinds

/-! ## The walk -/

section Walk

variable {round : ℚ → ℚ} {F : ℚ → Prop} {S : String → ℚ} {other : ℕ → String → ℚ}
  {dictAsset : Dict String AssetType} {stock money : AssetType} {n : ℕ} {x : Matching ℚ}
  {T : Order ℚ → Prop} {Funds : List ℕ → Execution ℚ → Prop} {e₀ e : Execution ℚ} {i : ℕ}
  {ids : List ℕ} {t : Terms ℚ}

/-- The AVAILABLE postings of the next trade. -/
def tradeAvailable (round : ℚ → ℚ) (x : Matching ℚ) (e : Execution ℚ) (i : ℕ) (t : Terms ℚ) :
    List (BalanceKey × ℚ) :=
  (postings (tradeCalls (ratMpd round) x e.market e.taker (e.market.order i) t)).filter
    fun p => p.1.isAvailable

/-- The loop on its way, with a solvent market. -/
structure SolventWalk (F : ℚ → Prop) (S : String → ℚ) (other : ℕ → String → ℚ)
    (dictAsset : Dict String AssetType) (n : ℕ) (x : Matching ℚ) (T : Order ℚ → Prop)
    (e₀ : Execution ℚ) (ids : List ℕ) (e : Execution ℚ) : Prop where
  walk : Walk n x e₀ ids e
  solvent : Solvent F S other n e.statics.ledger e.market
  taker : T e.taker
  assets : e.statics.ledger.dictAsset = dictAsset

theorem Setting.congr {m m' : Market ℚ} (h : Setting round S other dictAsset m stock money)
    (hconf : m'.conf = m.conf) : Setting round S other dictAsset m' stock money :=
  ⟨h.digits, h.room, hconf ▸ h.conf, h.other⟩

/-- The trade at hand: its terms, and the calls that pay for it. -/
structure TradeOk (round : ℚ → ℚ) (S : String → ℚ) (x : Matching ℚ) (e e' : Execution ℚ) (i : ℕ)
    (t : Terms ℚ) : Prop where
  quoted : Quoted round x e.market e.taker (e.market.order i) t
  sized : Sized S e.market (e.market.order i) t
  posted : Posted round e.statics.ledger e'.statics.ledger
    (tradeCalls (ratMpd round) x e.market e.taker (e.market.order i) t)

/-- `Funds` pays for the next trade, and is left in place by it. -/
def Finances (round : ℚ → ℚ) (F : ℚ → Prop) (S : String → ℚ) (other : ℕ → String → ℚ)
    (dictAsset : Dict String AssetType) (n : ℕ) (x : Matching ℚ) (T : Order ℚ → Prop)
    (e₀ : Execution ℚ) (Funds : List ℕ → Execution ℚ → Prop) : Prop :=
  ∀ (real : Bool) {e : Execution ℚ} {i : ℕ} {ids : List ℕ} {t : Terms ℚ},
    SolventWalk F S other dictAsset n x T e₀ (i :: ids) e →
    (ratMpd round).cmp e.taker.left (ratMpd round).zero ≠ 0 →
    x.quote e.market e.taker (e.market.order i) = some (.trade t) →
    Sized S e.market (e.market.order i) t → Funds (i :: ids) e →
    Covers (saved round dictAsset) e.statics.ledger.balance (tradeAvailable round x e i t) ∧
      (TradeOk round S x e (executeTrade (ratMpd round) real x e i t) i t →
        T (executeTrade (ratMpd round) real x e i t).taker →
        Funds ids (executeTrade (ratMpd round) real x e i t))

theorem SolventWalk.step (hx : x.Fair round)
    (hsizes : Sizes round F S other dictAsset stock money e₀.market.conf x T)
    (hfunds : Finances round F S other dictAsset n x T e₀ Funds)
    (hset : Setting round S other dictAsset e₀.market stock money) (real : Bool)
    (h : SolventWalk F S other dictAsset n x T e₀ (i :: ids) e) (hf : Funds (i :: ids) e)
    (hleft : (ratMpd round).cmp e.taker.left (ratMpd round).zero ≠ 0)
    (hq : x.quote e.market e.taker (e.market.order i) = some (.trade t)) :
    SolventWalk F S other dictAsset n x T e₀ ids (executeTrade (ratMpd round) real x e i t) ∧
      Funds ids (executeTrade (ratMpd round) real x e i t) ∧
      TradeOk round S x e (executeTrade (ratMpd round) real x e i t) i t := by
  have hset' := hset.congr h.walk.conf
  have hi := h.walk.mem i List.mem_cons_self
  have hquoted := h.walk.quoted hx hleft hq
  obtain ⟨hio, hmleft, hprice⟩ := h.walk.maker
  obtain ⟨hsized, hT⟩ := hsizes.step h.walk.conf hset' h.taker (h.solvent.maker hi)
    (h.solvent.indexed.book.wf.side _ i hi) hmleft hprice
    (h.solvent.freeze_le_bound hset.other hi) (h.walk.left_pos hleft) hq
  obtain ⟨hcov, hnext⟩ := hfunds real h hleft hq hsized hf
  have hassets := h.assets
  subst hassets
  obtain ⟨hsolvent, hposted⟩ := h.solvent.trade real hset' hquoted hsized hi hcov
  have hok : TradeOk round S x e (executeTrade (ratMpd round) real x e i t) i t :=
    ⟨hquoted, hsized, hposted⟩
  exact ⟨⟨h.walk.step hset.digits.toRoundsDown hx real hleft hq, hsolvent, hT,
    congrArg Prod.snd (executeTrade_fixed (ratMpd round) real x e i t)⟩, hnext hok hT, hok⟩

/-- The loop keeps a solvent market, and what `I` says of its trades. -/
theorem solventWalk_end {I : List ℕ → Execution ℚ → Prop} (hx : x.Fair round)
    (hsizes : Sizes round F S other dictAsset stock money e₀.market.conf x T)
    (hfunds : Finances round F S other dictAsset n x T e₀ Funds)
    (hset : Setting round S other dictAsset e₀.market stock money) (real : Bool)
    (hI : ∀ {e i ids t}, SolventWalk F S other dictAsset n x T e₀ (i :: ids) e →
      TradeOk round S x e (executeTrade (ratMpd round) real x e i t) i t →
      (ratMpd round).cmp e.taker.left (ratMpd round).zero ≠ 0 →
      x.quote e.market e.taker (e.market.order i) = some (.trade t) →
      I (i :: ids) e → I ids (executeTrade (ratMpd round) real x e i t))
    (h : Solvent F S other n e₀.statics.ledger e₀.market) (hT : T e₀.taker)
    (hassets : e₀.statics.ledger.dictAsset = dictAsset)
    (hf : Funds (e₀.market.book x.side.opposite) e₀)
    (hstart : I (e₀.market.book x.side.opposite) e₀) {e' : Execution ℚ}
    (hrun : x.execute (ratMpd round) real e₀ = some e') :
    ∃ ids, SolventWalk F S other dictAsset n x T e₀ ids e' ∧ Funds ids e' ∧ I ids e' ∧
      Stopped (ratMpd round) x ids e' := by
  obtain ⟨ids, ⟨hw, hf, hi⟩, hstop⟩ := executeLoop_rule (ratMpd round) real x
    (P := fun ids e => SolventWalk F S other dictAsset n x T e₀ ids e ∧ Funds ids e ∧ I ids e)
    (fun i ids e t ⟨hw, hf, hi⟩ hleft hq => by
      obtain ⟨hw', hf', hok⟩ := hw.step hx hsizes hfunds hset real hf hleft hq
      exact ⟨hw', hf', hI hw hok hleft hq hi⟩)
    ⟨⟨walk_start h.indexed.book (hsizes.nonneg hT), h, hT, hassets⟩, hf, hstart⟩ hrun
  exact ⟨ids, hw, hf, hi, hstop⟩

end Walk

end ViabtcExchange
