import ViabtcExchange.SolventRequests
import ViabtcExchange.Units

/-!
# Matching in 34 digits (`me_market.c`)

Every amount of a trade is a whole number of units of its asset, and no larger than a balance or
the rest of an order that once was covered by one. What the context computes of it is then exact, so
that matching does what it would do in exact arithmetic: `Agrees` says this of a matching and a kind
of taker, and it holds of all four. The exception are the fees in money: they have the digits of the
stock, the price and the rate together, and `market_create` does not ask for room for them.
-/

namespace ViabtcExchange

/-! ## What the context holds -/

section Held

variable {dictAsset : Dict String AssetType} {a : String} {c : MarketConf ℚ}
  {stock money : AssetType} {x y price : ℚ}

/-- Up to the ceiling a number on the grid is kept. -/
theorem roundDown_of_le {p k : ℤ} (hx : OnGrid p x) (hx0 : 0 ≤ x) (hk : k ≤ 34 - p)
    (hle : x ≤ 10 ^ k) : roundDown 34 x = x := by
  rcases hle.eq_or_lt with rfl | hlt
  · have h := roundDown_unit (n := 34) (by norm_num) (-k)
    rwa [neg_neg] at h
  · refine roundDown_of_onGrid hx ?_
    rw [abs_of_nonneg hx0]
    exact hlt.trans_le (zpow_le_zpow_right₀ (by norm_num) hk)

theorem held (hx : OnGrid (assetPrec dictAsset a) x) (hx0 : 0 ≤ x) (hle : x ≤ ceiling dictAsset a) :
    roundDown 34 x = x :=
  roundDown_of_le hx hx0 le_rfl hle

/-- An amount of stock is held when what it costs is. -/
theorem held_of_cost (hconf : Engine.ConfOk dictAsset c stock money) (hy : OnGrid c.stockPrec y)
    (hy0 : 0 ≤ y) (hp : OnGrid c.moneyPrec price) (hp0 : 0 < price)
    (hle : price * y ≤ ceiling dictAsset c.money) : roundDown 34 y = y := by
  have htick : (10 : ℚ) ^ (-(c.moneyPrec : ℤ)) ≤ price := unit_le_of_onGrid hp hp0
  have hdeal := hconf.deal
  have hscaled : y * 10 ^ (-(c.moneyPrec : ℤ)) ≤ ceiling dictAsset c.money := by
    rw [mul_comm]
    exact (mul_le_mul_of_nonneg_right htick hy0).trans hle
  refine roundDown_of_le (k := 34 - money.precSave + c.moneyPrec) hy hy0 (by omega) ?_
  rw [ceiling, assetPrec_eq hconf.findMoney, zpow_neg, ← div_eq_mul_inv,
    div_le_iff₀ (ten_zpow_pos _), ← zpow_add₀ (by norm_num : (10 : ℚ) ≠ 0)] at hscaled
  exact hscaled

end Held

/-! ## The parties -/

/-- A rate of fees, with the digits of the market. -/
def IsFee (feePrec : ℕ) (y : ℚ) : Prop := OnGrid feePrec y ∧ 0 ≤ y ∧ y ≤ 1

/-- An order at rest, in whole ticks, that froze no more than the context holds. -/
structure Rests (dictAsset : Dict String AssetType) (m : Market ℚ) (o : Order ℚ) : Prop
    extends Backed (IsFee m.feePrec) m.stockPrec m.moneyPrec o where
  held : o.freeze ≤ ceiling dictAsset (m.giveAsset o.side)

/-- Orders that differ in their totals alone. -/
structure Alike (o o' : Order ℚ) : Prop where
  side : o'.side = o.side
  userId : o'.userId = o.userId
  price : o'.price = o.price
  left : o'.left = o.left
  freeze : o'.freeze = o.freeze
  takerFee : o'.takerFee = o.takerFee
  makerFee : o'.makerFee = o.makerFee

theorem Alike.rests {dictAsset : Dict String AssetType} {m : Market ℚ} {o o' : Order ℚ}
    (h : Alike o o') (hrests : Rests dictAsset m o) : Rests dictAsset m o' := by
  obtain ⟨⟨hleft, hprice, hfreeze, hfee⟩, hheld⟩ := hrests
  refine ⟨⟨h.left ▸ hleft, h.price ▸ hprice, ?_, h.makerFee ▸ hfee⟩, ?_⟩
  · rw [h.freeze, hfreeze]
    unfold restFreeze
    rw [h.side, h.left, h.price]
  · rw [h.freeze, h.side]
    exact hheld

/-- The fees in money of exact terms, as far as they are taken. -/
def MoneyFees (dictAsset : Dict String AssetType) (x : Matching ℚ) (m : Market ℚ) (t : Terms ℚ) :
    Prop :=
  OnGrid (assetPrec dictAsset m.money) t.askFee ∧
    (x.bidFeeAsset m = m.money → OnGrid (assetPrec dictAsset m.money) t.bidFee)

/-- For a taker with `T` the matching `x` in 34 digits does what `x'` does in exact arithmetic. -/
structure Agrees (dictAsset : Dict String AssetType) (stock money : AssetType) (c : MarketConf ℚ)
    (x x' : Matching ℚ) (T : Order ℚ → Prop) : Prop where
  sizes : Sizes id (IsFee c.feePrec) (ceiling dictAsset) (fun _ _ => 0) dictAsset stock money c x' T
  fair : x'.Fair id
  acts : x.Local
  acts' : x'.Local
  side : x'.side = x.side
  spend : x'.spend = x.spend
  bidFeeAsset : x'.bidFeeAsset = x.bidFeeAsset
  takerFee : ∀ {taker}, T taker → IsFee c.feePrec taker.takerFee
  alike : ∀ {taker taker'}, Alike taker taker' →
    (T taker → T taker') ∧ ∀ m maker, x'.quote m taker' maker = x'.quote m taker maker
  quote : ∀ {m : Market ℚ} {taker maker : Order ℚ}, m.conf = c →
    Engine.ConfOk dictAsset m.conf stock money → T taker → Rests dictAsset m maker →
    maker.side = x.side.opposite → 0 < taker.left → 0 < maker.left → 0 < maker.price →
    (∀ t, x'.quote m taker maker = some (.trade t) → MoneyFees dictAsset x' m t) →
    x.quote m taker maker = x'.quote m taker maker
  held : ∀ {taker : Order ℚ}, Engine.ConfOk dictAsset c stock money → T taker →
    roundDown 34 taker.left = taker.left

/-! ## The quotes -/

section Quotes

variable {dictAsset : Dict String AssetType} {a : String} {m : Market ℚ} {stock money : AssetType}
  {c : MarketConf ℚ} {x : Matching ℚ} {taker maker : Order ℚ} {t : Terms ℚ} {deal rate : ℚ}
  {feePrec : ℕ}

theorem fee_held (hrate : IsFee feePrec rate) (hdeal : 0 ≤ deal) (hle : deal ≤ ceiling dictAsset a)
    (hgrid : OnGrid (assetPrec dictAsset a) (deal * rate)) :
    roundDown 34 (deal * rate) = deal * rate :=
  held hgrid (mul_nonneg hdeal hrate.2.1) ((mul_le_of_le_one_right hdeal hrate.2.2).trans hle)

/-- A fee in stock has room. -/
theorem stockFee_grid (hconf : Engine.ConfOk dictAsset m.conf stock money) {amount : ℚ}
    (hamount : OnGrid m.stockPrec amount) (hrate : IsFee m.feePrec rate) :
    OnGrid (assetPrec dictAsset m.stock) (amount * rate) := by
  have hfee : m.stockPrec + m.feePrec ≤ stock.precSave := hconf.stockFee
  have hfind : dictAsset.find m.stock = some stock := hconf.findStock
  rw [assetPrec_eq hfind]
  exact (hamount.mul hrate.1).mono (by exact_mod_cast hfee)

theorem cost_grid (hconf : Engine.ConfOk dictAsset m.conf stock money) {amount : ℚ}
    (hprice : OnGrid m.moneyPrec maker.price) (hamount : OnGrid m.stockPrec amount) :
    OnGrid (assetPrec dictAsset m.money) (maker.price * amount) := by
  have hdeal : m.stockPrec + m.moneyPrec ≤ money.precSave := hconf.deal
  have hfind : dictAsset.find m.money = some money := hconf.findMoney
  rw [assetPrec_eq hfind]
  exact (hprice.mul hamount).mono (by omega)

/-- Nothing is asked of the setting where nothing is rounded. -/
theorem setting_exact (hconf : Engine.ConfOk dictAsset m.conf stock money) :
    Setting id (ceiling dictAsset) (fun _ _ => 0) dictAsset m stock money :=
  ⟨roundsDigits_id, fun _ _ _ _ _ _ => rfl, hconf, fun _ _ => le_rfl⟩

/-- Terms of a trade that the context holds. -/
structure Priced (dictAsset : Dict String AssetType) (m : Market ℚ) (maker : Order ℚ) (amount : ℚ) :
    Prop where
  pos : 0 < amount
  grid : OnGrid m.stockPrec amount
  amount_le : amount ≤ ceiling dictAsset m.stock
  cost_le : maker.price * amount ≤ ceiling dictAsset m.money

theorem Priced.cost_held {amount : ℚ} (h : Priced dictAsset m maker amount)
    (hconf : Engine.ConfOk dictAsset m.conf stock money) (hmaker : Rests dictAsset m maker)
    (hprice : 0 < maker.price) : roundDown 34 (maker.price * amount) = maker.price * amount :=
  held (cost_grid hconf hmaker.price h.grid) (mul_pos hprice h.pos).le h.cost_le

theorem Priced.moneyFee {amount : ℚ} (h : Priced dictAsset m maker amount)
    (hprice : 0 < maker.price) (hrate : IsFee feePrec rate)
    (hgrid : OnGrid (assetPrec dictAsset m.money) (maker.price * amount * rate)) :
    roundDown 34 (maker.price * amount * rate) = maker.price * amount * rate :=
  fee_held hrate (mul_pos hprice h.pos).le h.cost_le hgrid

theorem Priced.stockFee {amount : ℚ} (h : Priced dictAsset m maker amount)
    (hconf : Engine.ConfOk dictAsset m.conf stock money) (hrate : IsFee m.feePrec rate) :
    roundDown 34 (amount * rate) = amount * rate :=
  fee_held hrate h.pos.le h.amount_le (stockFee_grid hconf h.grid hrate)

theorem termsOf_agree {amount : ℚ} {askFee askFee' bidFee bidFee' : ℚ → ℚ}
    (hcost : roundDown 34 (maker.price * amount) = maker.price * amount)
    (hask : askFee (maker.price * amount) = askFee' (maker.price * amount))
    (hbid : bidFee (maker.price * amount) = bidFee' (maker.price * amount)) :
    termsOf decimal128 maker amount askFee bidFee =
      termsOf exactDecimal maker amount askFee' bidFee' := by
  unfold termsOf
  simp only [ratMpd_mul, hcost, id_eq, hask, hbid]

/-- The terms of an exact trade are held, and so is what the taker has left. -/
theorem Sizes.priced {T : Order ℚ → Prop}
    (h : Sizes id (IsFee c.feePrec) (ceiling dictAsset) (fun _ _ => 0) dictAsset stock money c x T)
    (hx : x.Fair id) (hc : m.conf = c) (hconf : Engine.ConfOk dictAsset m.conf stock money)
    (hT : T taker) (hmaker : Rests dictAsset m maker) (hside : maker.side = x.side.opposite)
    (htaker : 0 < taker.left) (hleft : 0 < maker.left) (hprice : 0 < maker.price)
    (hq : x.quote m taker maker = some (.trade t)) :
    Priced dictAsset m maker t.amount ∧ T (x.fillTaker exactDecimal m taker t) := by
  have hquoted := hx.quoted _ _ _ t htaker hleft hprice hq
  have hbacked := hmaker.toBacked
  rw [show m.feePrec = c.feePrec from congrArg MarketConf.feePrec hc] at hbacked
  obtain ⟨hsized, hnext⟩ := h.step hc (setting_exact hconf) hT hbacked hside hleft hprice
    (hside ▸ hmaker.held) htaker hq
  exact ⟨⟨hquoted.amount_pos, hsized.grid, hsized.amount_le, hsized.cost_le⟩, hnext⟩

/-- An ask with a rate of fees. -/
def FeeAsk (dictAsset : Dict String AssetType) (c : MarketConf ℚ) (o : Order ℚ) : Prop :=
  AskTaker (ceiling dictAsset) c o ∧ IsFee c.feePrec o.takerFee

theorem FeeAsk.alike {taker taker' : Order ℚ} (h : Alike taker taker')
    (hT : FeeAsk dictAsset c taker) : FeeAsk dictAsset c taker' := by
  obtain ⟨⟨hside, hgrid, hnonneg, hle⟩, hfee⟩ := hT
  exact ⟨⟨h.side.trans hside, h.left ▸ hgrid, h.left ▸ hnonneg, h.left ▸ hle⟩, h.takerFee ▸ hfee⟩

theorem FeeAsk.held (hconf : Engine.ConfOk dictAsset c stock money)
    (hT : FeeAsk dictAsset c taker) :
    roundDown 34 taker.left = taker.left := by
  have hfee := hconf.stockFee
  refine ViabtcExchange.held (a := c.stock) ?_ hT.1.nonneg hT.1.le
  rw [assetPrec_eq hconf.findStock]
  exact hT.1.grid.mono (by omega)

theorem agrees_limitAsk :
    Agrees dictAsset stock money c (limitAsk decimal128) (limitAsk exactDecimal)
    (FeeAsk dictAsset c) where
  sizes := (sizes_ask (greedy_limitAsk id) rfl).withFee _
  fair := (greedy_limitAsk id).toFair
  acts := local_limitAsk _
  acts' := local_limitAsk _
  side := rfl
  spend := rfl
  bidFeeAsset := rfl
  takerFee hT := hT.2
  alike h := by
    refine ⟨FeeAsk.alike h, fun m maker => ?_⟩
    rw [limitAsk_quote, limitAsk_quote, h.left, h.price, h.takerFee]
  quote {m taker maker} hc hconf hT hmaker hside htaker hleft hprice hfees := by
    subst hc
    have hexact := @limitAsk_quote id m taker maker
    rw [limitAsk_quote]
    by_cases hstop : maker.price < taker.price
    · rw [if_pos hstop, hexact, if_pos hstop]
    · rw [if_neg hstop] at hexact ⊢
      obtain ⟨hpriced, -⟩ := ((sizes_ask (greedy_limitAsk id) rfl).withFee _).priced
        (greedy_limitAsk id).toFair rfl hconf hT hmaker hside htaker hleft hprice hexact
      obtain ⟨hask, hbid⟩ := hfees _ hexact
      rw [hexact]
      refine congrArg (fun t => some (Quote.trade t))
        (termsOf_agree (hpriced.cost_held hconf hmaker hprice) ?_ ?_)
      · exact hpriced.moneyFee hprice hT.2 hask
      · exact hpriced.moneyFee hprice hmaker.fee (hbid rfl)
  held hconf hT := FeeAsk.held hconf hT

theorem agrees_marketAsk :
    Agrees dictAsset stock money c (marketAsk decimal128) (marketAsk exactDecimal)
      (FeeAsk dictAsset c) where
  sizes := (sizes_ask (greedy_marketAsk id) rfl).withFee _
  fair := (greedy_marketAsk id).toFair
  acts := local_marketAsk _
  acts' := local_marketAsk _
  side := rfl
  spend := rfl
  bidFeeAsset := rfl
  takerFee hT := hT.2
  alike h := by
    refine ⟨FeeAsk.alike h, fun m maker => ?_⟩
    rw [marketAsk_quote, marketAsk_quote, h.left, h.takerFee]
  quote {m taker maker} hc hconf hT hmaker hside htaker hleft hprice hfees := by
    subst hc
    have hexact := @marketAsk_quote id m taker maker
    obtain ⟨hpriced, -⟩ := ((sizes_ask (greedy_marketAsk id) rfl).withFee _).priced
      (greedy_marketAsk id).toFair rfl hconf hT hmaker hside htaker hleft hprice hexact
    rw [marketAsk_quote, hexact]
    refine congrArg (fun t => some (Quote.trade t))
      (termsOf_agree (hpriced.cost_held hconf hmaker hprice) ?_ ?_)
    · exact hpriced.moneyFee hprice hT.2 (hfees _ hexact).1
    · exact hpriced.stockFee hconf hmaker.fee
  held hconf hT := FeeAsk.held hconf hT

theorem agrees_limitBid :
    Agrees dictAsset stock money c (limitBid decimal128) (limitBid exactDecimal)
    fun o => LimitBidTaker (ceiling dictAsset) c o ∧ IsFee c.feePrec o.takerFee where
  sizes := sizes_limitBid.withFee _
  fair := (greedy_limitBid id).toFair
  acts := local_limitBid _
  acts' := local_limitBid _
  side := rfl
  spend := rfl
  bidFeeAsset := rfl
  takerFee hT := hT.2
  alike h := by
    refine ⟨fun ⟨⟨hside, hgrid, hnonneg, hpgrid, hpos, hle⟩, hfee⟩ => ⟨⟨h.side.trans hside,
      h.left ▸ hgrid, h.left ▸ hnonneg, h.price ▸ hpgrid, h.price ▸ hpos, ?_⟩, h.takerFee ▸ hfee⟩,
      fun m maker => ?_⟩
    · rw [h.price, h.left]
      exact hle
    · rw [limitBid_quote, limitBid_quote, h.left, h.price, h.takerFee]
  quote {m taker maker} hc hconf hT hmaker hside htaker hleft hprice hfees := by
    subst hc
    have hexact := @limitBid_quote id m taker maker
    rw [limitBid_quote]
    by_cases hstop : taker.price < maker.price
    · rw [if_pos hstop, hexact, if_pos hstop]
    · rw [if_neg hstop] at hexact ⊢
      obtain ⟨hpriced, -⟩ := (sizes_limitBid.withFee _).priced
        (greedy_limitBid id).toFair rfl hconf hT hmaker hside htaker hleft hprice hexact
      obtain ⟨hask, hbid⟩ := hfees _ hexact
      rw [hexact]
      refine congrArg (fun t => some (Quote.trade t))
        (termsOf_agree (hpriced.cost_held hconf hmaker hprice) ?_ ?_)
      · exact hpriced.moneyFee hprice hmaker.fee hask
      · exact hpriced.moneyFee hprice hT.2 (hbid rfl)
  held hconf hT := held_of_cost hconf hT.1.grid hT.1.nonneg hT.1.priceGrid hT.1.pricePos hT.1.le

/-- The ticks that the money pays for are held. -/
theorem affordable_held (hconf : Engine.ConfOk dictAsset m.conf stock money)
    (hleft : 0 ≤ taker.left) (hle : taker.left ≤ ceiling dictAsset m.money)
    (hgrid : OnGrid m.moneyPrec maker.price) (hprice : 0 < maker.price) :
    affordable (roundDown 34) m taker maker = affordable id m taker maker := by
  have hq : 0 ≤ taker.left / maker.price := div_nonneg hleft hprice.le
  have hcost := affordable_mul_le (m := m) roundsDown_id hleft hprice
  refine (truncTo_roundDown (by norm_num) m.stockPrec hq).mpr (held_of_cost hconf
    (onGrid_truncTo _ _) (truncTo_nonneg _ hq) hgrid hprice (le_trans ?_ hle))
  rw [mul_comm]
  exact hcost

theorem agrees_marketBid :
    Agrees dictAsset stock money c (marketBid decimal128) (marketBid exactDecimal)
      fun o => MarketBidTaker (ceiling dictAsset) c money o ∧ IsFee c.feePrec o.takerFee where
  sizes := (sizes_marketBid roundsDigits_id).withFee _
  fair := fair_marketBid roundsDown_id
  acts := local_marketBid _
  acts' := local_marketBid _
  side := rfl
  spend := rfl
  bidFeeAsset := rfl
  takerFee hT := hT.2
  alike h := by
    refine ⟨fun ⟨⟨hside, hgrid, hnonneg, hle⟩, hfee⟩ => ⟨⟨h.side.trans hside, h.left ▸ hgrid,
      h.left ▸ hnonneg, h.left ▸ hle⟩, h.takerFee ▸ hfee⟩, fun m maker => ?_⟩
    unfold marketBid
    dsimp only
    rw [h.left, h.takerFee]
  quote {m taker maker} hc hconf hT hmaker hside htaker hleft hprice hfees := by
    subst hc
    have hexact := marketBid_quote (m := m) roundsDown_id htaker.le hprice
    rw [marketBid_quote roundsDown_roundDown htaker.le hprice,
      affordable_held hconf htaker.le hT.1.le hmaker.price hprice]
    dsimp only at hexact ⊢
    by_cases hstop : min (affordable id m taker maker) maker.left = 0
    · rw [if_pos hstop] at hexact ⊢
      exact hexact.symm
    · rw [if_neg hstop] at hexact ⊢
      obtain ⟨hpriced, -⟩ := ((sizes_marketBid roundsDigits_id).withFee _).priced
        (fair_marketBid roundsDown_id) rfl hconf hT hmaker hside htaker hleft hprice hexact
      rw [hexact]
      refine congrArg (fun t => some (Quote.trade t))
        (termsOf_agree (hpriced.cost_held hconf hmaker hprice) ?_ ?_)
      · exact hpriced.moneyFee hprice hmaker.fee (hfees _ hexact).1
      · exact hpriced.stockFee hconf hT.2
  held hconf hT := by
    refine ViabtcExchange.held (a := c.money) ?_ hT.1.nonneg hT.1.le
    rw [assetPrec_eq hconf.findMoney]
    exact hT.1.grid

end Quotes

/-! ## One trade -/

section Trade

variable {dictAsset : Dict String AssetType} {m m' : Market ℚ} {stock money : AssetType}
  {c : MarketConf ℚ} {x x' : Matching ℚ} {T : Order ℚ → Prop} {taker maker o : Order ℚ} {t : Terms ℚ}

theorem Rests.congr (h : Rests dictAsset m o) (hconf : m'.conf = m.conf) :
    Rests dictAsset m' o := by
  have hstock : m'.stockPrec = m.stockPrec := congrArg MarketConf.stockPrec hconf
  have hmoney : m'.moneyPrec = m.moneyPrec := congrArg MarketConf.moneyPrec hconf
  have hfee : m'.feePrec = m.feePrec := congrArg MarketConf.feePrec hconf
  obtain ⟨hbacked, hheld⟩ := h
  refine ⟨?_, ?_⟩
  · rw [hstock, hmoney, hfee]
    exact hbacked
  · rw [giveAsset_eq_of_conf hconf]
    exact hheld

/-- What an order at rest freezes is a number of units. -/
theorem Rests.freeze_grid (h : Rests dictAsset m o)
    (hconf : Engine.ConfOk dictAsset m.conf stock money) :
    OnGrid (assetPrec dictAsset (m.giveAsset o.side)) o.freeze := by
  have hgrid := (setting_exact hconf).fits_restFreeze (o := o) h.left h.price 0 .freeze
  rw [h.freeze]
  cases hside : o.side with
  | ask =>
    rw [hside] at hgrid
    have hfind : dictAsset.find m.stock = some stock := hconf.findStock
    rw [Market.giveAsset, assetPrec_eq hfind]
    exact hgrid stock hfind
  | bid =>
    rw [hside] at hgrid
    have hfind : dictAsset.find m.money = some money := hconf.findMoney
    rw [Market.giveAsset, assetPrec_eq hfind]
    exact hgrid money hfind

theorem Rests.freeze_held (h : Rests dictAsset m o)
    (hconf : Engine.ConfOk dictAsset m.conf stock money) (hnonneg : 0 ≤ o.freeze) :
    roundDown 34 o.freeze = o.freeze :=
  ViabtcExchange.held (h.freeze_grid hconf) hnonneg h.held

theorem Rests.left_held (h : Rests dictAsset m o)
    (hconf : Engine.ConfOk dictAsset m.conf stock money) (hleft : 0 ≤ o.left)
    (hprice : 0 < o.price) :
    roundDown 34 o.left = o.left := by
  have hfreeze := h.freeze
  have hheld := h.held
  have hgrid := h.freeze_grid hconf
  unfold restFreeze at hfreeze
  cases hside : o.side with
  | ask =>
    simp only [hside] at hfreeze
    rw [hfreeze, hside] at hheld hgrid
    exact ViabtcExchange.held hgrid hleft hheld
  | bid =>
    simp only [hside] at hfreeze
    rw [hfreeze, hside] at hheld
    exact held_of_cost hconf h.left hleft h.price hprice hheld

/-- What a trade in exact arithmetic makes of the maker. -/
theorem Rests.fillMaker (h : Rests dictAsset m maker)
    (hconf : Engine.ConfOk dictAsset m.conf stock money) (hq : Quoted id x m taker maker t)
    (hpriced : Priced dictAsset m maker t.amount) (hside : maker.side = x.side.opposite)
    (hprice : 0 < maker.price) :
    Rests dictAsset m (x.fillMaker exactDecimal m maker t) ∧
      0 ≤ (x.fillMaker exactDecimal m maker t).left ∧
      0 ≤ (x.fillMaker exactDecimal m maker t).freeze := by
  obtain ⟨hbacked, hleft, hfreeze⟩ := h.toBacked.fillMaker (setting_exact hconf) hq
    ⟨hpriced.grid, hpriced.amount_le, hpriced.cost_le⟩ hside hprice h.held
  have hleft0 : 0 ≤ (x.fillMaker exactDecimal m maker t).left := by
    rw [hleft]
    exact sub_nonneg.mpr hq.amount_le
  have hfreeze0 : 0 ≤ (x.fillMaker exactDecimal m maker t).freeze := by
    rw [hbacked.freeze]
    unfold restFreeze
    cases (x.fillMaker exactDecimal m maker t).side with
    | ask => exact hleft0
    | bid => exact mul_nonneg hprice.le hleft0
  refine ⟨⟨hbacked, ?_⟩, hleft0, hfreeze0⟩
  have hgive : 0 ≤ (x.makerLeg m maker t).give := by
    rw [give_eq hside hq.deal]
    unfold restFreeze
    cases maker.side with
    | ask => exact hq.amount_pos.le
    | bid => exact mul_nonneg hprice.le hq.amount_pos.le
  rw [hfreeze]
  exact (sub_le_self _ hgive).trans h.held

namespace Agrees

variable (hagrees : Agrees dictAsset stock money c x x' T)
include hagrees

theorem takerLeg : x'.takerLeg m taker t = x.takerLeg m taker t := by
  unfold Matching.takerLeg
  rw [hagrees.side, hagrees.bidFeeAsset]

theorem makerLeg : x'.makerLeg m maker t = x.makerLeg m maker t := by
  unfold Matching.makerLeg
  rw [hagrees.side, hagrees.bidFeeAsset]

theorem askRate (hc : m.conf = c) (hT : T taker) (hmaker : Rests dictAsset m maker) :
    IsFee m.feePrec (x'.askRate taker maker) := by
  have htaker := hagrees.takerFee hT
  rw [← hc] at htaker
  unfold Matching.askRate
  cases x'.side with
  | ask => exact htaker
  | bid => exact hmaker.fee

theorem bidRate (hc : m.conf = c) (hT : T taker) (hmaker : Rests dictAsset m maker) :
    IsFee m.feePrec (x'.bidRate taker maker) := by
  have htaker := hagrees.takerFee hT
  rw [← hc] at htaker
  unfold Matching.bidRate
  cases x'.side with
  | ask => exact hmaker.fee
  | bid => exact htaker

/-- The facts of a trade. -/
theorem trade (hc : m.conf = c) (hconf : Engine.ConfOk dictAsset m.conf stock money) (hT : T taker)
    (hmaker : Rests dictAsset m maker) (hside : maker.side = x.side.opposite)
    (htaker : 0 < taker.left) (hleft : 0 < maker.left) (hprice : 0 < maker.price)
    (hq : x'.quote m taker maker = some (.trade t)) :
    Priced dictAsset m maker t.amount ∧
      Alike (x'.fillTaker exactDecimal m taker t) (x.fillTaker decimal128 m taker t) ∧
      T (x.fillTaker decimal128 m taker t) ∧
      Alike (x'.fillMaker exactDecimal m maker t) (x.fillMaker decimal128 m maker t) ∧
      Rests dictAsset m (x.fillMaker decimal128 m maker t) := by
  have hside' : maker.side = x'.side.opposite := by rw [hside, hagrees.side]
  obtain ⟨hpriced, hnext⟩ := hagrees.sizes.priced hagrees.fair hc hconf hT hmaker hside'
    htaker hleft hprice hq
  have hquoted := hagrees.fair.quoted _ _ _ t htaker hleft hprice hq
  have hrest := hagrees.held (hc ▸ hconf) hnext
  have hfillTaker :
      Alike (x'.fillTaker exactDecimal m taker t) (x.fillTaker decimal128 m taker t) := by
    refine ⟨rfl, rfl, rfl, ?_, rfl, rfl, rfl⟩
    change roundDown 34 (taker.left - x.spend t) = taker.left - x'.spend t
    rw [← hagrees.spend]
    exact hrest
  obtain ⟨hrests, hleft0, hfreeze0⟩ := hmaker.fillMaker hconf hquoted hpriced hside' hprice
  have hfillMaker :
      Alike (x'.fillMaker exactDecimal m maker t) (x.fillMaker decimal128 m maker t) := by
    refine ⟨rfl, rfl, rfl, hrests.left_held hconf hleft0 hprice, ?_, rfl, rfl⟩
    change roundDown 34 (maker.freeze - (x.makerLeg m maker t).give) =
      maker.freeze - (x'.makerLeg m maker t).give
    rw [← hagrees.makerLeg]
    exact hrests.freeze_held hconf hfreeze0
  exact ⟨hpriced, hfillTaker, (hagrees.alike hfillTaker).1 hnext, hfillMaker,
    hfillMaker.rests hrests⟩

/-- Every call of a trade is for a number of units. -/
theorem whole (hc : m.conf = c) (hconf : Engine.ConfOk dictAsset m.conf stock money) (hT : T taker)
    (hmaker : Rests dictAsset m maker) (hside : maker.side = x.side.opposite)
    (htaker : 0 < taker.left) (hleft : 0 < maker.left) (hprice : 0 < maker.price)
    (hq : x'.quote m taker maker = some (.trade t)) (hfees : MoneyFees dictAsset x' m t) :
    ∀ call ∈ tradeCalls decimal128 x m taker maker t, call.Whole dictAsset := by
  obtain ⟨hpriced, -⟩ := hagrees.trade hc hconf hT hmaker hside htaker hleft hprice hq
  have hquoted := hagrees.fair.quoted _ _ _ t htaker hleft hprice hq
  have hfind : dictAsset.find m.stock = some stock := hconf.findStock
  have hstock : m.stockPrec + m.feePrec ≤ stock.precSave := hconf.stockFee
  have hamount : OnGrid (assetPrec dictAsset m.stock) t.amount := by
    rw [assetPrec_eq hfind]
    exact hpriced.grid.mono (by omega)
  have hdeal : OnGrid (assetPrec dictAsset m.money) t.deal := by
    rw [hquoted.deal]
    exact cost_grid hconf hmaker.price hpriced.grid
  have hbid : OnGrid (assetPrec dictAsset (x.bidFeeAsset m)) t.bidFee := by
    rw [← hagrees.bidFeeAsset]
    rcases hquoted.bidFee with ⟨hasset, -⟩ | ⟨hasset, hfee⟩
    · rw [hasset]
      exact hfees.2 hasset
    · rw [hasset, hfee]
      exact stockFee_grid hconf hpriced.grid (hagrees.bidRate hc hT hmaker)
  have hleg : ∀ side type rate (o : Order ℚ), ∀ call ∈ legCalls decimal128 o
      (partyLeg m (x.bidFeeAsset m) t side type rate), call.Whole dictAsset := by
    intro side type rate o call hcall
    unfold legCalls at hcall
    cases side with
    | ask =>
      rcases List.mem_cons.mp hcall with rfl | hcall
      · exact hamount
      rcases List.mem_cons.mp hcall with rfl | hcall
      · exact hdeal
      split_ifs at hcall
      · obtain rfl := List.mem_singleton.mp hcall
        exact hfees.1
      · cases hcall
    | bid =>
      rcases List.mem_cons.mp hcall with rfl | hcall
      · exact hdeal
      rcases List.mem_cons.mp hcall with rfl | hcall
      · exact hamount
      split_ifs at hcall
      · obtain rfl := List.mem_singleton.mp hcall
        exact hbid
      · cases hcall
  intro call hcall
  rcases List.mem_append.mp hcall with hcall | hcall
  · exact hleg _ _ _ _ call hcall
  · exact hleg _ _ _ _ call hcall

end Agrees

end Trade

/-! ## The plan -/

section Plan

variable {dictAsset : Dict String AssetType} {m : Market ℚ} {stock money : AssetType}
  {c : MarketConf ℚ} {x x' : Matching ℚ} {T : Order ℚ → Prop} {taker taker' : Order ℚ}
  {ids : List ℕ} {n i : ℕ} {t : Terms ℚ}

/-- The totals of an order have no more digits than the context. -/
def TotalsHeld (o : Order ℚ) : Prop :=
  roundDown 34 o.dealStock = o.dealStock ∧ roundDown 34 o.dealMoney = o.dealMoney ∧
    roundDown 34 o.dealFee = o.dealFee

/-- The taker after some trades, in exact arithmetic. -/
def filledBy (x' : Matching ℚ) (m : Market ℚ) (taker : Order ℚ) (ts : List (ℕ × Terms ℚ)) : Order ℚ :=
  ts.foldl (fun o p => x'.fillTaker exactDecimal m o p.2) taker

/-- The trades of an order are those of exact arithmetic, with their terms, and so is what it and
the makers are left with, and their totals as far as they have no more digits than the context. -/
structure PlansExactly (x x' : Matching ℚ) (m : Market ℚ) (ids : List ℕ) (taker : Order ℚ) : Prop where
  trades : (x.plan decimal128 m ids taker).1 = (x'.plan exactDecimal m ids taker).1
  left : (x.plan decimal128 m ids taker).2.left = (x'.plan exactDecimal m ids taker).2.left
  makers : ∀ p ∈ (x.plan decimal128 m ids taker).1,
    Alike (x'.fillMaker exactDecimal m (m.order p.1) p.2)
      (x.fillMaker decimal128 m (m.order p.1) p.2)
  takerTotals : (∀ ts, ts <+: (x'.plan exactDecimal m ids taker).1 → TotalsHeld (filledBy x' m taker ts)) →
    (x.plan decimal128 m ids taker).2 = (x'.plan exactDecimal m ids taker).2
  makerTotals : ∀ p ∈ (x.plan decimal128 m ids taker).1,
    TotalsHeld (x'.fillMaker exactDecimal m (m.order p.1) p.2) →
      x.fillMaker decimal128 m (m.order p.1) p.2 = x'.fillMaker exactDecimal m (m.order p.1) p.2

theorem fill_eq {o : Order ℚ} {spend fee : ℚ}
    (hleft : roundDown 34 (o.left - spend) = o.left - spend)
    (hheld : TotalsHeld (o.fill exactDecimal t spend fee)) :
    o.fill decimal128 t spend fee = o.fill exactDecimal t spend fee := by
  obtain ⟨hstock, hmoney, hfee⟩ := hheld
  simp only [Order.fill, ratMpd_add, ratMpd_sub, id_eq] at hstock hmoney hfee ⊢
  rw [hleft, hstock, hmoney, hfee]

theorem Agrees.fillTaker_eq (hagrees : Agrees dictAsset stock money c x x' T)
    (h : Alike (x'.fillTaker exactDecimal m taker t) (x.fillTaker decimal128 m taker t))
    (hheld : TotalsHeld (x'.fillTaker exactDecimal m taker t)) :
    x.fillTaker decimal128 m taker t = x'.fillTaker exactDecimal m taker t := by
  unfold Matching.fillTaker at h hheld ⊢
  rw [hagrees.takerLeg, hagrees.spend] at h hheld ⊢
  exact fill_eq h.left hheld

theorem Agrees.fillMaker_eq (hagrees : Agrees dictAsset stock money c x x' T) {maker : Order ℚ}
    (h : Alike (x'.fillMaker exactDecimal m maker t) (x.fillMaker decimal128 m maker t))
    (hheld : TotalsHeld (x'.fillMaker exactDecimal m maker t)) :
    x.fillMaker decimal128 m maker t = x'.fillMaker exactDecimal m maker t := by
  have hfreeze := h.freeze
  unfold Matching.fillMaker at h hheld hfreeze ⊢
  rw [hagrees.makerLeg] at h hheld hfreeze ⊢
  rw [fill_eq h.left hheld]
  exact congrArg (fun f => { maker.fill exactDecimal t t.amount (x.makerLeg m maker t).fee with
    freeze := f }) hfreeze

theorem Alike.fillTaker (h : Alike taker taker') :
    Alike (x'.fillTaker exactDecimal m taker t) (x'.fillTaker exactDecimal m taker' t) := by
  refine ⟨h.side, h.userId, h.price, ?_, h.freeze, h.takerFee, h.makerFee⟩
  change taker'.left - x'.spend t = taker.left - x'.spend t
  rw [h.left]

theorem Alike.trans {o o' o'' : Order ℚ} (h : Alike o o') (h' : Alike o' o'') : Alike o o'' :=
  ⟨h'.side.trans h.side, h'.userId.trans h.userId, h'.price.trans h.price, h'.left.trans h.left,
    h'.freeze.trans h.freeze, h'.takerFee.trans h.takerFee, h'.makerFee.trans h.makerFee⟩

variable (ids) in
/-- A plan does not depend on the totals of the taker. -/
theorem Agrees.plan_alike (hagrees : Agrees dictAsset stock money c x x' T)
    (h : Alike taker taker') :
    (x'.plan exactDecimal m ids taker').1 = (x'.plan exactDecimal m ids taker).1 ∧
      Alike (x'.plan exactDecimal m ids taker).2 (x'.plan exactDecimal m ids taker').2 := by
  induction ids generalizing taker taker' with
  | nil => exact ⟨rfl, h⟩
  | cons i ids ih =>
    unfold Matching.plan
    rw [h.left, (hagrees.alike h).2]
    by_cases hzero : exactDecimal.cmp taker.left exactDecimal.zero = 0
    · rw [if_pos hzero, if_pos hzero]
      exact ⟨rfl, h⟩
    · rw [if_neg hzero, if_neg hzero]
      cases hq : x'.quote m taker (m.order i) with
      | none => exact ⟨rfl, h⟩
      | some q =>
        cases q with
        | stop => exact ⟨rfl, h⟩
        | trade t =>
          have hfilled :
              Alike (x'.fillTaker exactDecimal m taker t) (x'.fillTaker exactDecimal m taker' t) :=
            h.fillTaker
          obtain ⟨htrades, hend⟩ := ih hfilled
          exact ⟨congrArg ((i, t) :: ·) htrades, hend⟩

/-- A maker that may be met. -/
structure Met (dictAsset : Dict String AssetType) (x : Matching ℚ) (m : Market ℚ) (maker : Order ℚ) :
    Prop where
  rests : Rests dictAsset m maker
  side : maker.side = x.side.opposite
  left : 0 < maker.left
  price : 0 < maker.price

/-- With room for the product of three numbers of the market a fee in money is in whole units. -/
theorem Agrees.moneyFees_of_room (hagrees : Agrees dictAsset stock money c x x' T) (hc : m.conf = c)
    (hconf : Engine.ConfOk dictAsset m.conf stock money)
    (hroom : m.stockPrec + m.moneyPrec + m.feePrec ≤ money.precSave)
    (hmet : ∀ i ∈ ids, Met dictAsset x m (m.order i)) (hT : T taker) :
    ∀ p ∈ (x'.plan exactDecimal m ids taker).1, MoneyFees dictAsset x' m p.2 := by
  induction ids generalizing taker with
  | nil => exact List.forall_mem_nil _
  | cons i ids ih =>
    obtain ⟨hmaker, hmet⟩ := List.forall_mem_cons.mp hmet
    by_cases hzero : taker.left = 0
    · rw [plan_of_left (by simp [hzero])]
      exact List.forall_mem_nil _
    have htaker : 0 < taker.left := lt_of_le_of_ne (hagrees.sizes.nonneg hT) (Ne.symm hzero)
    cases hq : x'.quote m taker (m.order i) with
    | none => exact absurd hq (hagrees.fair.ne_none _ _ _ htaker hmaker.price)
    | some q =>
      cases q with
      | stop =>
        rw [plan_of_stop hq]
        exact List.forall_mem_nil _
      | trade t =>
        have hside : (m.order i).side = x'.side.opposite := by rw [hmaker.side, hagrees.side]
        obtain ⟨hpriced, hnext⟩ := hagrees.sizes.priced hagrees.fair hc hconf hT hmaker.rests hside
          htaker hmaker.left hmaker.price hq
        have hquoted := hagrees.fair.quoted _ _ _ t htaker hmaker.left hmaker.price hq
        have hmoney : ∀ rate, IsFee m.feePrec rate →
            OnGrid (assetPrec dictAsset m.money) (t.deal * rate) := fun rate hrate => by
          have hfind : dictAsset.find m.money = some money := hconf.findMoney
          rw [assetPrec_eq hfind, hquoted.deal]
          exact ((hmaker.rests.price.mul hpriced.grid).mul hrate.1).mono (by omega)
        have hbid := hagrees.bidRate hc hT hmaker.rests
        rw [plan_of_trade (by simpa using hzero) hq]
        refine List.forall_mem_cons.mpr ⟨⟨?_, fun hasset => ?_⟩, ih hmet hnext⟩
        · rw [hquoted.askFee]
          exact hmoney _ (hagrees.askRate hc hT hmaker.rests)
        · rcases hquoted.bidFee with ⟨-, hfee⟩ | ⟨hstock, hfee⟩
          · rw [hfee]
            exact hmoney _ hbid
          · rw [hfee, ← hasset, hstock]
            exact stockFee_grid hconf hpriced.grid hbid

/-- A plan of a taker is exact, keeps its kind, and comes to calls for numbers of units. -/
structure PlanWhole (dictAsset : Dict String AssetType) (x x' : Matching ℚ) (T : Order ℚ → Prop)
    (m : Market ℚ) (ids : List ℕ) (taker : Order ℚ) : Prop where
  exactly : PlansExactly x x' m ids taker
  keeps : T (x.plan decimal128 m ids taker).2
  calls : ∀ call ∈ planCalls decimal128 x m taker (x.plan decimal128 m ids taker).1,
    call.Whole dictAsset

theorem planWhole_nil (h : x.plan decimal128 m ids taker = ([], taker))
    (h' : x'.plan exactDecimal m ids taker = ([], taker)) (hT : T taker) :
    PlanWhole dictAsset x x' T m ids taker := by
  refine ⟨⟨?_, ?_, fun p hp => ?_, fun _ => ?_, fun p hp => ?_⟩, ?_, fun call hcall => ?_⟩
  · rw [h, h']
  · rw [h, h']
  · rw [h] at hp
    cases hp
  · rw [h, h']
  · rw [h] at hp
    cases hp
  · rw [h]
    exact hT
  · rw [h] at hcall
    cases hcall

/-- The matching in 34 digits is the one in exact arithmetic. -/
theorem Agrees.plan (hagrees : Agrees dictAsset stock money c x x' T) (hc : m.conf = c)
    (hconf : Engine.ConfOk dictAsset m.conf stock money)
    (hmet : ∀ i ∈ ids, Met dictAsset x m (m.order i)) (hT : T taker)
    (hfees : ∀ p ∈ (x'.plan exactDecimal m ids taker).1, MoneyFees dictAsset x' m p.2) :
    PlanWhole dictAsset x x' T m ids taker := by
  induction ids generalizing taker with
  | nil => exact planWhole_nil rfl rfl hT
  | cons i ids ih =>
    obtain ⟨hmaker, hmet⟩ := List.forall_mem_cons.mp hmet
    by_cases hzero : taker.left = 0
    · exact planWhole_nil (plan_of_left (by simp [hzero])) (plan_of_left (by simp [hzero])) hT
    have htaker : 0 < taker.left := lt_of_le_of_ne (hagrees.sizes.nonneg hT) (Ne.symm hzero)
    have hcmp : ∀ round, (ratMpd round).cmp taker.left (ratMpd round).zero ≠ 0 := fun round => by
      simpa using hzero
    have hquote := hagrees.quote hc hconf hT hmaker.rests hmaker.side htaker hmaker.left hmaker.price
      fun t hq => hfees (i, t) (by rw [plan_of_trade (hcmp id) hq]; exact List.mem_cons_self)
    cases hq : x'.quote m taker (m.order i) with
    | none => exact absurd hq (hagrees.fair.ne_none _ _ _ htaker hmaker.price)
    | some q =>
      rw [hq] at hquote
      cases q with
      | stop => exact planWhole_nil (plan_of_stop hquote) (plan_of_stop hq) hT
      | trade t =>
        have hplan : x.plan decimal128 m (i :: ids) taker = _ :=
          plan_of_trade (hcmp (roundDown 34)) hquote
        have hplan' : x'.plan exactDecimal m (i :: ids) taker = _ := plan_of_trade (hcmp id) hq
        obtain ⟨-, htakers, hnext, hmakers, -⟩ := hagrees.trade hc hconf hT hmaker.rests hmaker.side
          htaker hmaker.left hmaker.price hq
        obtain ⟨htrades, hend⟩ := hagrees.plan_alike ids (m := m) htakers
        rw [hplan'] at hfees
        obtain ⟨hfee, hfees⟩ := List.forall_mem_cons.mp hfees
        obtain ⟨⟨htrades', hleft, hmakers', htotals, htotals'⟩, hT', hcalls⟩ :=
          ih hmet hnext (by rwa [htrades])
        refine ⟨⟨?_, ?_, ?_, fun hheld => ?_, ?_⟩, ?_, ?_⟩
        · rw [hplan, hplan', htrades', htrades]
        · rw [hplan, hplan']
          exact hleft.trans hend.left
        · rw [hplan]
          exact List.forall_mem_cons.mpr ⟨hmakers, hmakers'⟩
        · rw [hplan'] at hheld
          have heq := hagrees.fillTaker_eq htakers
            (hheld [(i, t)] (List.prefix_cons_inj _ |>.mpr List.nil_prefix))
          rw [hplan, hplan', heq]
          rw [heq] at htotals
          exact htotals fun ts hts => hheld ((i, t) :: ts) ((List.prefix_cons_inj _).mpr hts)
        · rw [hplan]
          exact List.forall_mem_cons.mpr ⟨hagrees.fillMaker_eq hmakers, htotals'⟩
        · rw [hplan]
          exact hT'
        · rw [hplan, planCalls_cons]
          intro call hcall
          rcases List.mem_append.mp hcall with hcall | hcall
          · exact hagrees.whole hc hconf hT hmaker.rests hmaker.side htaker hmaker.left hmaker.price
              hq hfee call hcall
          · refine hcalls call ?_
            have hsame : ∀ ts, planCalls decimal128 x m (x.fillTaker decimal128 m taker t) ts =
                planCalls decimal128 x m taker ts := fun ts =>
              planCalls_congr hagrees.acts rfl rfl fun _ _ => rfl
            rwa [hsame]

end Plan

end ViabtcExchange
