import ViabtcExchange.Takers

/-!
# Orders that pay for themselves

A party whose fee is no more than what it gets, in the same asset, never needs more AVAILABLE
than what it gives (`Modest`). When both parties of every trade are modest, a taker that has what
it may still have to give can pay for the whole of the matching (`finances_modest`). So it is for
market orders, whose fees are below what they get, and for orders without fees.
-/

namespace ViabtcExchange

section Gains

variable {round : ℚ → ℚ} {S : String → ℚ} {other : ℕ → String → ℚ}
  {dictAsset : Dict String AssetType} {m : Market ℚ} {stock money : AssetType}
  {b : BalanceKey → ℚ} {order taker maker : Order ℚ} {leg : Leg ℚ} {c : ℚ} {k : BalanceKey}

/-- Accounts of non-negative amounts on their grids, up to `c` times the bound. -/
structure Within (dictAsset : Dict String AssetType) (S : String → ℚ) (c : ℚ)
    (b : BalanceKey → ℚ) : Prop where
  nonneg : ∀ k, 0 ≤ b k
  fits : ∀ k, Fits dictAsset k (b k)
  le : ∀ k, b k ≤ c * S k.asset
  bound : ∀ a, 0 ≤ S a

/-- A fee that is paid from what the party gets. -/
def Modest (leg : Leg ℚ) : Prop :=
  leg.fee ≤ 0 ∨ leg.feeAsset = leg.getAsset ∧ leg.fee ≤ leg.get

theorem saved_mono (hd : RoundsDigits round) {x y : ℚ} (hx : 0 ≤ x) (h : x ≤ y) :
    saved round dictAsset k x ≤ saved round dictAsset k y := by
  have hround := hd.mono x y hx h
  unfold saved
  cases dictAsset.find k.asset with
  | none => exact hround
  | some ty => exact truncTo_mono _ (hd.toRoundsDown.nonneg hx) hround

theorem fits_saved (x : ℚ) : Fits dictAsset k (saved round dictAsset k x) := by
  intro ty hty
  rw [saved_of_find hty]
  exact onGrid_truncTo _ _

/-- Two accounts of one posting. -/
theorem Within.post {p : BalanceKey × ℚ} (h : Within dictAsset S c b)
    (hlow : 0 ≤ saved round dictAsset p.1 (b p.1 + p.2)) {d : ℚ} (hcd : c ≤ d)
    (hhigh : saved round dictAsset p.1 (b p.1 + p.2) ≤ d * S p.1.asset) :
    Within dictAsset S d (post (saved round dictAsset) b p) := by
  refine ⟨fun k => ?_, fun k => ?_, fun k => ?_, h.bound⟩
  all_goals
    by_cases hk : p.1 = k
    · subst hk
      rw [post_self]
      first
        | exact hlow
        | exact fits_saved _
        | exact hhigh
    · rw [post_of_ne _ _ hk]
      first
        | exact h.nonneg k
        | exact h.fits k
        | exact (h.le k).trans (mul_le_mul_of_nonneg_right hcd (h.bound _))

/-- What a modest party gets and pays never lowers an account. -/
theorem covers_gains (hset : Setting round S other dictAsset m stock money)
    (h : Within dictAsset S c b) (hc : c + 1 ≤ 4) (hmodest : Modest leg) (hget : 0 ≤ leg.get)
    (hfits : Fits dictAsset ⟨order.userId, .available, leg.getAsset⟩ leg.get)
    (hle : leg.get ≤ S leg.getAsset) (hknown : ∃ ty, dictAsset.find leg.getAsset = some ty) :
    Covers (saved round dictAsset) b (gains order leg) ∧
      Within dictAsset S (c + 1) (postAll (saved round dictAsset) b (gains order leg)) ∧
      ∀ k, b k ≤ postAll (saved round dictAsset) b (gains order leg) k := by
  set k₁ : BalanceKey := ⟨order.userId, .available, leg.getAsset⟩ with hk₁
  have hS := h.bound leg.getAsset
  have hb := h.nonneg k₁
  have hbS : b k₁ ≤ c * S leg.getAsset := h.le k₁
  have hroom : (c + 1) * S leg.getAsset ≤ 4 * S leg.getAsset := mul_le_mul_of_nonneg_right hc hS
  have hfirst : saved round dictAsset k₁ (b k₁ + leg.get) = b k₁ + leg.get := by
    refine hset.saved_exact hknown ((h.fits k₁).add hfits) ?_
    rw [abs_of_nonneg (add_nonneg hb hget)]
    change _ ≤ 4 * S leg.getAsset
    linarith
  have hself : saved round dictAsset k₁ (b k₁) = b k₁ := by
    refine hset.saved_exact hknown (h.fits k₁) ?_
    rw [abs_of_nonneg hb]
    change _ ≤ 4 * S leg.getAsset
    linarith
  have hup : ∀ k, b k ≤ post (saved round dictAsset) b (k₁, leg.get) k := fun k => by
    by_cases hk : k₁ = k
    · subst hk
      rw [post_self]
      change b k₁ ≤ saved round dictAsset k₁ (b k₁ + leg.get)
      linarith
    · rw [post_of_ne _ _ hk]
  have hwithin : Within dictAsset S (c + 1) (post (saved round dictAsset) b (k₁, leg.get)) := by
    refine h.post (p := (k₁, leg.get)) ?_ (by linarith) ?_
    · change 0 ≤ saved round dictAsset k₁ (b k₁ + leg.get)
      rw [hfirst]
      exact add_nonneg hb hget
    · change saved round dictAsset k₁ (b k₁ + leg.get) ≤ (c + 1) * S leg.getAsset
      linarith
  unfold gains feePosting
  by_cases hfee : 0 < leg.fee
  · obtain ⟨hasset, hfeele⟩ := hmodest.resolve_left (not_le.mpr hfee)
    rw [if_pos hfee, hasset, ← hk₁]
    set b₁ := post (saved round dictAsset) b (k₁, leg.get) with hb₁
    have hval : b₁ k₁ = b k₁ + leg.get := by
      rw [hb₁, post_self]
      exact hfirst
    have hlow : b k₁ ≤ saved round dictAsset k₁ (b₁ k₁ + -leg.fee) := by
      rw [hval]
      calc
        b k₁ = saved round dictAsset k₁ (b k₁) := hself.symm
        _ ≤ saved round dictAsset k₁ (b k₁ + leg.get + -leg.fee) :=
          saved_mono hset.digits hb (by linarith)
    have hhigh : saved round dictAsset k₁ (b₁ k₁ + -leg.fee) ≤ b₁ k₁ + -leg.fee :=
      (drops_saved hset.digits.toRoundsDown dictAsset k₁ _ (by rw [hval]; linarith)).2
    refine ⟨⟨add_nonneg hb hget, ?_, trivial⟩, ?_, fun k => ?_⟩
    · change 0 ≤ b₁ k₁ + -leg.fee
      rw [hval]
      linarith
    · refine hwithin.post (p := (k₁, -leg.fee)) (hb.trans hlow) le_rfl (hhigh.trans ?_)
      have h₁ := hwithin.le k₁
      change b₁ k₁ + -leg.fee ≤ (c + 1) * S leg.getAsset
      have h₁' : b₁ k₁ ≤ (c + 1) * S leg.getAsset := h₁
      linarith
    · change b k ≤ post (saved round dictAsset) b₁ (k₁, -leg.fee) k
      by_cases hk : k₁ = k
      · subst hk
        rw [post_self]
        exact hlow
      · rw [post_of_ne _ _ hk]
        exact hup k
  · rw [if_neg hfee]
    exact ⟨⟨add_nonneg hb hget, trivial⟩, hwithin, hup⟩

/-- Amounts that both accounts of a party have room for. -/
structure LegOk (dictAsset : Dict String AssetType) (S : String → ℚ) (leg : Leg ℚ) : Prop where
  give : 0 ≤ leg.give
  get : 0 ≤ leg.get
  giveFits : ∀ u type, Fits dictAsset ⟨u, type, leg.giveAsset⟩ leg.give
  getFits : ∀ u type, Fits dictAsset ⟨u, type, leg.getAsset⟩ leg.get
  giveLe : leg.give ≤ S leg.giveAsset
  getLe : leg.get ≤ S leg.getAsset
  giveKnown : ∃ ty, dictAsset.find leg.giveAsset = some ty
  getKnown : ∃ ty, dictAsset.find leg.getAsset = some ty

variable {x : Matching ℚ} {t : Terms ℚ}

theorem Sized.legOk (h : Sized S m maker t) (hset : Setting round S other dictAsset m stock money)
    (hq : Quoted round x m taker maker t) (hprice : OnGrid m.moneyPrec maker.price)
    (hpos : 0 < maker.price) (a : String) (side : OrderSide) (type : BalanceType) (rate : ℚ) :
    LegOk dictAsset S (partyLeg m a t side type rate) := by
  have hdeal := h.deal hset hq hprice hpos
  have hamount : ∀ u type, Fits dictAsset ⟨u, type, m.stock⟩ t.amount := fun u type ty hty => by
    obtain rfl := Option.some.inj (hset.conf.findStock.symm.trans hty)
    exact hset.stock_grid h.grid
  have hmoney : ∀ u type, Fits dictAsset ⟨u, type, m.money⟩ t.deal := fun u type ty hty => by
    obtain rfl := Option.some.inj (hset.conf.findMoney.symm.trans hty)
    rw [hdeal]
    exact hset.money_grid (h.cost_grid hprice)
  have hamount0 : 0 ≤ t.amount := hq.amount_pos.le
  have hdeal0 : 0 ≤ t.deal := hdeal ▸ (mul_pos hpos hq.amount_pos).le
  have hdealle : t.deal ≤ S m.money := hdeal ▸ h.cost_le
  cases side with
  | ask =>
    exact ⟨hamount0, hdeal0, hamount, hmoney, h.amount_le, hdealle, hset.known.stock,
      hset.known.money⟩
  | bid =>
    exact ⟨hdeal0, hamount0, hmoney, hamount, hdealle, h.amount_le, hset.known.money,
      hset.known.stock⟩

/-- A taker that has what it gives can pay for a trade of modest parties, and then has no less
than what remains. -/
theorem covers_modest (hset : Setting round S other dictAsset m stock money)
    (h : Within dictAsset S 1 b) (htaker : LegOk dictAsset S (x.takerLeg m taker t))
    (hmaker : LegOk dictAsset S (x.makerLeg m maker t)) (hmt : Modest (x.takerLeg m taker t))
    (hmm : Modest (x.makerLeg m maker t))
    (hgive : (x.takerLeg m taker t).give ≤ b ⟨taker.userId, .available, m.giveAsset x.side⟩) :
    let ps := (postings (tradeCalls (ratMpd round) x m taker maker t)).filter
      fun p => p.1.isAvailable
    Covers (saved round dictAsset) b ps ∧
      b ⟨taker.userId, .available, m.giveAsset x.side⟩ - (x.takerLeg m taker t).give ≤
        postAll (saved round dictAsset) b ps ⟨taker.userId, .available, m.giveAsset x.side⟩ := by
  have hasset : (x.takerLeg m taker t).giveAsset = m.giveAsset x.side := takerLeg_give.2
  have hfits := htaker.giveFits taker.userId .available
  have hknown := htaker.giveKnown
  rw [hasset] at hfits hknown
  set k₀ : BalanceKey := ⟨taker.userId, .available, m.giveAsset x.side⟩ with hk₀
  set give := (x.takerLeg m taker t).give
  have hb := h.nonneg k₀
  have hS := h.bound k₀.asset
  have hbS : b k₀ ≤ 1 * S k₀.asset := h.le k₀
  have hfirst : saved round dictAsset k₀ (b k₀ + -give) = b k₀ + -give := by
    refine hset.saved_exact hknown ((h.fits k₀).add fun ty hty => (hfits ty hty).neg) ?_
    rw [abs_of_nonneg (by linarith)]
    linarith [htaker.give]
  have hwithin : Within dictAsset S 1 (post (saved round dictAsset) b (k₀, -give)) := by
    refine h.post (p := (k₀, -give)) ?_ le_rfl ?_
    · change 0 ≤ saved round dictAsset k₀ (b k₀ + -give)
      linarith
    · change saved round dictAsset k₀ (b k₀ + -give) ≤ 1 * S k₀.asset
      linarith [htaker.give]
  obtain ⟨hcov₁, hwithin₁, hup₁⟩ := @covers_gains _ _ _ _ _ _ _ _ taker _ _ hset hwithin
    (by norm_num) hmt htaker.get (htaker.getFits _ _) htaker.getLe htaker.getKnown
  obtain ⟨hcov₂, -, hup₂⟩ := @covers_gains _ _ _ _ _ _ _ _ maker _ _ hset hwithin₁
    (by norm_num) hmm hmaker.get (hmaker.getFits _ _) hmaker.getLe hmaker.getKnown
  intro ps
  have hps : ps = (k₀, -give) :: (gains taker (x.takerLeg m taker t) ++
      gains maker (x.makerLeg m maker t)) := filter_available
  rw [hps, postAll_cons, postAll_append]
  refine ⟨⟨by change 0 ≤ b k₀ + -give; linarith, (covers_append _ _ _).mpr ⟨hcov₁, hcov₂⟩⟩, ?_⟩
  calc
    b k₀ - give = post (saved round dictAsset) b (k₀, -give) k₀ := by
      rw [post_self, sub_eq_add_neg]
      exact hfirst.symm
    _ ≤ _ := (hup₁ k₀).trans (hup₂ k₀)

end Gains

/-! ## The walk of a taker that pays for itself -/

section Walk

variable {round : ℚ → ℚ} {F : ℚ → Prop} {S : String → ℚ} {other : ℕ → String → ℚ}
  {dictAsset : Dict String AssetType} {stock money : AssetType} {n : ℕ} {x : Matching ℚ}
  {T : Order ℚ → Prop} {e₀ e : Execution ℚ} {l : Ledger ℚ} {m : Market ℚ}

theorem Solvent.within (h : Solvent F S other n l m) : Within l.dictAsset S 1 l.balance where
  nonneg k := h.sound.nonneg k
  fits k := h.sound.fits k
  le k := (h.balance_le k).trans_eq (one_mul _).symm
  bound a := (h.sound.nonneg ⟨0, .available, a⟩).trans (h.balance_le _)

/-- A trade of a taker with `T` is between modest parties, and takes what the taker gives off what
it needs. -/
def Thrifty (round : ℚ → ℚ) (F : ℚ → Prop) (x : Matching ℚ) (T : Order ℚ → Prop)
    (need : Order ℚ → ℚ) : Prop :=
  ∀ (m : Market ℚ) (taker maker : Order ℚ) (t : Terms ℚ), Quoted round x m taker maker t →
    t.deal = maker.price * t.amount → T taker → F maker.makerFee → 0 < maker.price →
    x.quote m taker maker = some (.trade t) → T (x.fillTaker (ratMpd round) m taker t) →
    Modest (x.takerLeg m taker t) ∧ Modest (x.makerLeg m maker t) ∧
      (x.takerLeg m taker t).give ≤ need taker ∧
      need (x.fillTaker (ratMpd round) m taker t) ≤ need taker - (x.takerLeg m taker t).give

/-- The taker has what it needs. -/
def HasNeed (need : Order ℚ → ℚ) (e : Execution ℚ) : Prop :=
  need e.taker ≤ e.statics.ledger.balance
    ⟨e.taker.userId, .available, e.market.giveAsset e.taker.side⟩

theorem finances_thrifty {need : Order ℚ → ℚ} (hx : x.Fair round)
    (hsizes : Sizes round F S other dictAsset stock money e₀.market.conf x T)
    (hset : Setting round S other dictAsset e₀.market stock money)
    (hthrifty : Thrifty round F x T need) :
    Finances round F S other dictAsset n x T e₀ fun _ e => HasNeed need e := by
  intro real e i ids t h hleft hq hsized hneed
  have hset' := hset.congr h.walk.conf
  have hquoted := h.walk.quoted hx hleft hq
  have hi := h.walk.mem i List.mem_cons_self
  have hmaker := h.solvent.maker hi
  obtain ⟨-, hmleft, hprice⟩ := h.walk.maker
  have hdeal := hsized.deal hset' hquoted hmaker.price hprice
  have hT := (hsizes.step h.walk.conf hset' h.taker hmaker (h.solvent.indexed.book.wf.side _ i hi)
    hmleft hprice (h.solvent.freeze_le_bound hset.other hi) (h.walk.left_pos hleft) hq).2
  obtain ⟨hmt, hmm, hgive, hnext⟩ :=
    hthrifty _ _ _ t hquoted hdeal h.taker hmaker.fee hprice hq hT
  have hside := hsizes.side h.taker
  have hassets := h.assets
  subst hassets
  unfold HasNeed at hneed
  rw [hside] at hneed
  obtain ⟨hcov, hrest⟩ := @covers_modest _ _ _ _ _ _ _ _ e.taker _ _ _ hset' h.solvent.within
    (hsized.legOk hset' hquoted hmaker.price hprice _ _ _ _)
    (hsized.legOk hset' hquoted hmaker.price hprice _ _ _ _) hmt hmm (hgive.trans hneed)
  refine ⟨hcov, fun hok hT' => ?_⟩
  have hconf : (executeTrade (ratMpd round) real x e i t).market.conf = e.market.conf :=
    (executeTrade_market round real x e t h.walk.book.wf h.walk.maker.1).conf
  change HasNeed need _
  unfold HasNeed
  rw [hsizes.side hT', giveAsset_eq_of_conf hconf, hok.posted.balance,
    postAll_filter (P := BalanceKey.isAvailable) _ _ rfl]
  change need (x.fillTaker (ratMpd round) e.market e.taker t) ≤ _
  have hstart : need e.taker ≤
      e.statics.ledger.balance ⟨e.taker.userId, .available, e.market.giveAsset x.side⟩ := hneed
  exact hnext.trans ((sub_le_sub_right hstart _).trans hrest)

/-- Takers that also have a fee rate with `G`, which no trade changes. -/
theorem Sizes.withFee {c : MarketConf ℚ} (h : Sizes round F S other dictAsset stock money c x T)
    (G : ℚ → Prop) :
    Sizes round F S other dictAsset stock money c x fun o => T o ∧ G o.takerFee where
  side hT := h.side hT.1
  nonneg hT := h.nonneg hT.1
  step hc hset hT hmaker hms hleft hprice hbound htaker hq := by
    obtain ⟨hsized, hnext⟩ := h.step hc hset hT.1 hmaker hms hleft hprice hbound htaker hq
    exact ⟨hsized, hnext, hT.2⟩

end Walk

/-! ## Fees that are paid from what a party gets -/

section Kinds

variable {round : ℚ → ℚ} {F : ℚ → Prop} {S : String → ℚ} {x : Matching ℚ} {m : Market ℚ}
  {taker maker : Order ℚ} {t : Terms ℚ} {c : MarketConf ℚ}

/-- A fee at a rate up to one is no more than what it is a part of. -/
theorem round_mul_le (hr : RoundsDown round) {y rate : ℚ} (hy : 0 ≤ y) (hrate : rate ≤ 1) :
    round (y * rate) ≤ y := by
  rcases le_or_gt rate 0 with hneg | hpos
  · exact (hr.nonpos (mul_nonpos_of_nonneg_of_nonpos hy hneg)).trans hy
  · calc
      round (y * rate) ≤ y * rate := hr.le _ (mul_nonneg hy hpos.le)
      _ ≤ y * 1 := mul_le_mul_of_nonneg_left hrate hy
      _ = y := mul_one y

/-- The fee rate of the party on a side. -/
def Matching.rate (x : Matching ℚ) (taker maker : Order ℚ) : OrderSide → ℚ
  | .ask => x.askRate taker maker
  | .bid => x.bidRate taker maker

/-- A party whose rate is up to one pays from what it gets, if a bid is charged a part of the
stock, or nothing. -/
theorem Quoted.modest (hr : RoundsDown round) (hq : Quoted round x m taker maker t)
    (hdeal : 0 ≤ t.deal) {side : OrderSide} (type : BalanceType) (feeRate : ℚ)
    (hrate : x.rate taker maker side ≤ 1)
    (hbid : x.bidFeeAsset m = m.stock ∧ t.bidFee = round (t.amount * x.bidRate taker maker) ∨
      x.rate taker maker side ≤ 0) :
    Modest (partyLeg m (x.bidFeeAsset m) t side type feeRate) := by
  have hzero : ∀ y, 0 ≤ y → x.rate taker maker side ≤ 0 →
      round (y * x.rate taker maker side) ≤ 0 := fun y hy hle =>
    hr.nonpos (mul_nonpos_of_nonneg_of_nonpos hy hle)
  cases side with
  | ask =>
    refine Or.inr ⟨rfl, ?_⟩
    change t.askFee ≤ t.deal
    rw [hq.askFee]
    exact round_mul_le hr hdeal hrate
  | bid =>
    rcases hbid with ⟨hasset, hfee⟩ | hle
    · refine Or.inr ⟨hasset, ?_⟩
      change t.bidFee ≤ t.amount
      rw [hfee]
      exact round_mul_le hr hq.amount_pos.le hrate
    · left
      change t.bidFee ≤ 0
      rcases hq.bidFee with ⟨-, hfee⟩ | ⟨-, hfee⟩ <;> rw [hfee]
      · exact hzero _ hdeal hle
      · exact hzero _ hq.amount_pos.le hle

/-- Both parties of a trade, from their rates. -/
theorem Quoted.modest_both (hr : RoundsDown round) (hq : Quoted round x m taker maker t)
    (hdeal : 0 ≤ t.deal) (htaker : taker.takerFee ≤ 1) (hmaker : maker.makerFee ≤ 1)
    (hbid : x.bidFeeAsset m = m.stock ∧ t.bidFee = round (t.amount * x.bidRate taker maker) ∨
      taker.takerFee ≤ 0 ∧ maker.makerFee ≤ 0) :
    Modest (x.takerLeg m taker t) ∧ Modest (x.makerLeg m maker t) := by
  unfold Matching.takerLeg Matching.makerLeg
  have htake : x.rate taker maker x.side = taker.takerFee := by
    unfold Matching.rate Matching.askRate Matching.bidRate
    cases x.side <;> rfl
  have hmake : x.rate taker maker x.side.opposite = maker.makerFee := by
    unfold Matching.rate Matching.askRate Matching.bidRate
    cases x.side <;> rfl
  refine ⟨hq.modest hr hdeal _ _ (htake.trans_le htaker) (hbid.imp_right fun h => ?_),
    hq.modest hr hdeal _ _ (hmake.trans_le hmaker) (hbid.imp_right fun h => ?_)⟩
  · exact htake.trans_le h.1
  · exact hmake.trans_le h.2

/-- What a taker gives. -/
theorem takerLeg_give_ask (h : x.side = .ask) : (x.takerLeg m taker t).give = t.amount := by
  simp [Matching.takerLeg, h, partyLeg, askLeg]

theorem takerLeg_give_bid (h : x.side = .bid) : (x.takerLeg m taker t).give = t.deal := by
  simp [Matching.takerLeg, h, partyLeg, bidLeg]

/-- A taker that spends what it gives needs what it has left. -/
theorem thrifty_spend {T : Order ℚ → Prop} (hr : RoundsDown round)
    (hspend : ∀ m taker t, x.spend t = (x.takerLeg m taker t).give)
    (hmodest : ∀ m taker maker t, Quoted round x m taker maker t → 0 ≤ t.deal → T taker →
      F maker.makerFee → 0 < maker.price → x.quote m taker maker = some (.trade t) →
      Modest (x.takerLeg m taker t) ∧ Modest (x.makerLeg m maker t)) :
    Thrifty round F x T Order.left := by
  intro m taker maker t hq hdeal hT hF hprice hquote _
  obtain ⟨hmt, hmm⟩ := hmodest _ _ _ t hq (hdeal ▸ (mul_pos hprice hq.amount_pos).le) hT hF hprice
    hquote
  refine ⟨hmt, hmm, hspend m taker t ▸ hq.spend_le, ?_⟩
  rw [← hspend m taker t]
  exact hr.le _ (sub_nonneg.mpr hq.spend_le)

theorem thrifty_marketAsk (hr : RoundsDown round) (hF : ∀ y, F y → y ≤ 1) :
    Thrifty round F (marketAsk (ratMpd round)) (fun o => AskTaker S c o ∧ o.takerFee ≤ 1)
      Order.left := by
  refine thrifty_spend hr (fun m taker t => (takerLeg_give_ask rfl).symm) ?_
  intro m taker maker t hq hdeal hT hm _ hquote
  rw [marketAsk_quote] at hquote
  obtain rfl := Quote.trade.inj (Option.some.inj hquote)
  exact hq.modest_both hr hdeal hT.2 (hF _ hm) (Or.inl ⟨rfl, rfl⟩)

theorem thrifty_marketBid (hr : RoundsDown round) (hF : ∀ y, F y → y ≤ 1) {money : AssetType} :
    Thrifty round F (marketBid (ratMpd round))
      (fun o => MarketBidTaker S c money o ∧ o.takerFee ≤ 1)
      Order.left := by
  refine thrifty_spend hr (fun m taker t => (takerLeg_give_bid rfl).symm) ?_
  intro m taker maker t hq hdeal hT hm hprice hquote
  rw [marketBid_quote hr hT.1.nonneg hprice] at hquote
  dsimp only at hquote
  split_ifs at hquote
  · cases hquote
  obtain rfl := Quote.trade.inj (Option.some.inj hquote)
  exact hq.modest_both hr hdeal hT.2 (hF _ hm) (Or.inl ⟨rfl, rfl⟩)

/-- A limit ask without fees, among makers without fees. -/
theorem thrifty_limitAsk (hr : RoundsDown round) (hF : ∀ y, F y → y = 0) :
    Thrifty round F (limitAsk (ratMpd round)) (fun o => AskTaker S c o ∧ o.takerFee = 0)
      Order.left := by
  refine thrifty_spend hr (fun m taker t => (takerLeg_give_ask rfl).symm) ?_
  intro m taker maker t hq hdeal hT hm _ _
  exact hq.modest_both hr hdeal (hT.2.trans_le zero_le_one) ((hF _ hm).trans_le zero_le_one)
    (Or.inr ⟨hT.2.le, (hF _ hm).le⟩)

/-- A limit bid without fees needs what is left of it at its own price. -/
theorem thrifty_limitBid (hr : RoundsDown round) (hF : ∀ y, F y → y = 0) :
    Thrifty round F (limitBid (ratMpd round)) (fun o => LimitBidTaker S c o ∧ o.takerFee = 0)
      fun o => o.price * o.left := by
  intro m taker maker t hq hdeal hT hm hprice hquote _
  obtain ⟨-, hspend⟩ := (greedy_limitBid round).amount _ _ _ t hquote
  have hcross : maker.price ≤ taker.price := by_contra fun hno => by
    rw [((greedy_limitBid round).stop _ _ _).mpr hno] at hquote
    cases hquote
  obtain ⟨hmt, hmm⟩ := hq.modest_both hr (hdeal ▸ (mul_pos hprice hq.amount_pos).le)
    (hT.2.trans_le zero_le_one) ((hF _ hm).trans_le zero_le_one) (Or.inr ⟨hT.2.le, (hF _ hm).le⟩)
  have hle : t.amount ≤ taker.left := hspend ▸ hq.spend_le
  have hcost : t.deal ≤ taker.price * t.amount :=
    hdeal.trans_le (mul_le_mul_of_nonneg_right hcross hq.amount_pos.le)
  have hrest : round (taker.left - t.amount) ≤ taker.left - t.amount :=
    hr.le _ (sub_nonneg.mpr hle)
  refine ⟨hmt, hmm, ?_, ?_⟩
  · rw [takerLeg_give_bid rfl]
    exact hcost.trans (mul_le_mul_of_nonneg_left hle hT.1.pricePos.le)
  · rw [takerLeg_give_bid rfl]
    calc
      taker.price * round (taker.left - (limitBid (ratMpd round)).spend t)
          ≤ taker.price * (taker.left - t.amount) := by
        rw [hspend]
        exact mul_le_mul_of_nonneg_left hrest hT.1.pricePos.le
      _ ≤ taker.price * taker.left - t.deal := by linarith

end Kinds


end ViabtcExchange
