import ViabtcExchange.Funds

/-!
# Limit orders that are paid for

The fees of bids in limit matching are debited from AVAILABLE money that nobody has set aside, so
whether a limit order goes through depends on the balances. `LimitFunds` is the condition on what
is ahead: the AVAILABLE postings in money of the planned calls are covered one after the other.
With it the whole order goes through (`finances_limit`). Only money needs looking at: what an ask
gives was checked at its admission, and stock is charged no fee.
-/

namespace ViabtcExchange

section Limit

variable {round : ℚ → ℚ} {F : ℚ → Prop} {S : String → ℚ} {other : ℕ → String → ℚ}
  {dictAsset : Dict String AssetType} {stock money : AssetType} {n : ℕ} {x : Matching ℚ}
  {T : Order ℚ → Prop} {m : Market ℚ} {taker maker order : Order ℚ} {t : Terms ℚ} {leg : Leg ℚ}
  {b : BalanceKey → ℚ} {a : String}

/-- Whether an account is an AVAILABLE balance of an asset. -/
def BalanceKey.availableIn (a : String) (k : BalanceKey) : Bool := k.isAvailable && k.asset = a

/-- What a party that pays its fee in `a` gets of other assets. -/
theorem filter_gains_other (hfee : leg.feeAsset = a) :
    (gains order leg).filter (fun p => !decide (p.1.asset = a)) =
      if leg.getAsset = a then [] else [(⟨order.userId, .available, leg.getAsset⟩, leg.get)] := by
  have hnone : (feePosting order.userId leg.feeAsset leg.fee).filter
      (fun p => !decide (p.1.asset = a)) = [] := by
    unfold feePosting
    split_ifs
    · simp [hfee]
    · rfl
  unfold gains
  by_cases hget : leg.getAsset = a
  · rw [List.filter_cons_of_neg (by simp [hget]), hnone, if_pos hget]
  · rw [List.filter_cons_of_pos (by simp [hget]), hnone, if_neg hget]

/-- The AVAILABLE postings of a trade in stock, where this is another asset than money. -/
def stockPostings (x : Matching ℚ) (m : Market ℚ) (taker maker : Order ℚ) (t : Terms ℚ) :
    List (BalanceKey × ℚ) :=
  match x.side with
  | .ask => [(⟨taker.userId, .available, m.stock⟩, -t.amount),
      (⟨maker.userId, .available, m.stock⟩, t.amount)]
  | .bid => [(⟨taker.userId, .available, m.stock⟩, t.amount)]

theorem filter_stock (hfee : x.bidFeeAsset m = m.money) :
    ((postings (tradeCalls (ratMpd round) x m taker maker t)).filter
        fun p => p.1.isAvailable).filter (fun p => !decide (p.1.asset = m.money)) =
      if m.stock = m.money then [] else stockPostings x m taker maker t := by
  rw [filter_available]
  unfold stockPostings Matching.takerLeg Matching.makerLeg
  cases x.side with
  | ask =>
    simp only [List.filter_cons, List.filter_append]
    rw [filter_gains_other (a := m.money) rfl, filter_gains_other (a := m.money) hfee]
    simp only [partyLeg, askLeg, bidLeg, OrderSide.opposite, Market.giveAsset, if_true]
    by_cases hs : m.stock = m.money <;> simp [hs]
  | bid =>
    simp only [List.filter_cons, List.filter_append]
    rw [filter_gains_other (a := m.money) hfee, filter_gains_other (a := m.money) rfl]
    simp only [partyLeg, askLeg, bidLeg, OrderSide.opposite, Market.giveAsset, if_true]
    by_cases hs : m.stock = m.money <;> simp [hs]

/-- An ask that has the stock it gives can give it, and keeps the rest. -/
theorem covers_stock (hset : Setting round S other dictAsset m stock money)
    (h : Within dictAsset S 1 b) (hsized : Sized S m maker t) (hamount : 0 < t.amount)
    (hhas : x.side = .ask → t.amount ≤ b ⟨taker.userId, .available, m.stock⟩) :
    Covers (saved round dictAsset) b (stockPostings x m taker maker t) ∧
      (x.side = .ask → b ⟨taker.userId, .available, m.stock⟩ - t.amount ≤
        postAll (saved round dictAsset) b (stockPostings x m taker maker t)
          ⟨taker.userId, .available, m.stock⟩) := by
  unfold stockPostings
  cases hside : x.side with
  | bid =>
    exact ⟨⟨add_nonneg (h.nonneg _) hamount.le, trivial⟩, fun hno => by cases hno⟩
  | ask =>
    have hhas := hhas hside
    set k₀ : BalanceKey := ⟨taker.userId, .available, m.stock⟩ with hk₀
    have hfits : Fits dictAsset k₀ t.amount := fun ty hty => by
      obtain rfl := Option.some.inj (hset.conf.findStock.symm.trans hty)
      exact hset.stock_grid hsized.grid
    have hle : b k₀ ≤ 1 * S m.stock := h.le k₀
    have hS := h.bound m.stock
    have hexact : ∀ y, Fits dictAsset k₀ y → 0 ≤ y → y ≤ S m.stock →
        saved round dictAsset k₀ y = y := fun y hy hy0 hyS =>
      hset.saved_exact hset.known.stock hy (by
        rw [abs_of_nonneg hy0]
        change y ≤ 4 * S m.stock
        linarith)
    have hfirst : saved round dictAsset k₀ (b k₀ + -t.amount) = b k₀ - t.amount := by
      rw [← sub_eq_add_neg]
      exact hexact _ (fun ty hty => (h.fits k₀ ty hty).sub (hfits ty hty)) (by linarith)
        (by linarith)
    set b₁ := post (saved round dictAsset) b (k₀, -t.amount) with hb₁
    have hval : b₁ k₀ = b k₀ - t.amount := by
      rw [hb₁, post_self]
      exact hfirst
    have hnonneg : ∀ u, 0 ≤ b₁ ⟨u, .available, m.stock⟩ := fun u => by
      by_cases hu : k₀ = ⟨u, .available, m.stock⟩
      · rw [← hu, hval]
        linarith
      · rw [hb₁, post_of_ne _ _ hu]
        exact h.nonneg _
    refine ⟨⟨?_, add_nonneg (hnonneg _) hamount.le, trivial⟩, fun _ => ?_⟩
    · change 0 ≤ b k₀ + -t.amount
      linarith
    · rw [postAll_cons, postAll_cons, postAll_nil, ← hb₁]
      by_cases hu : (⟨maker.userId, .available, m.stock⟩ : BalanceKey) = k₀
      · rw [hu, post_self]
        change b k₀ - t.amount ≤ saved round dictAsset k₀ (b₁ k₀ + t.amount)
        rw [hval, sub_add_cancel, hexact _ (h.fits k₀) (h.nonneg k₀) (by linarith)]
        linarith
      · rw [post_of_ne _ _ hu, hval]

/-- What an order takes for granted: the AVAILABLE money its trades and its rest are going to
take is there, and so is the stock of an ask. -/
def LimitFunds (round : ℚ → ℚ) (dictAsset : Dict String AssetType) (x : Matching ℚ)
    (ids : List ℕ) (e : Execution ℚ) : Prop :=
  Covers (saved round dictAsset) e.statics.ledger.balance
      ((postings (limitCalls (ratMpd round) x e.market ids e.taker)).filter
        fun p => p.1.availableIn e.market.money) ∧
    (x.side = .ask → e.market.stock ≠ e.market.money →
      e.taker.left ≤ e.statics.ledger.balance ⟨e.taker.userId, .available, e.market.stock⟩)

variable {e₀ : Execution ℚ}

/-- A limit order that is covered to its end pays for each of its trades. -/
theorem finances_limit (hx : x.Fair round) (hlocal : x.Local)
    (hfee : ∀ m, x.bidFeeAsset m = m.money) (hspend : ∀ t, x.spend t = t.amount)
    (hset : Setting round S other dictAsset e₀.market stock money) :
    Finances round F S other dictAsset n x T e₀ fun ids e =>
      LimitFunds round dictAsset x ids e := by
  rintro real e i ids t h hleft hq hsized ⟨hmoney, hstock⟩
  have hset' := hset.congr h.walk.conf
  have hquoted := h.walk.quoted hx hleft hq
  have hi := h.walk.maker.1
  have hni := (List.nodup_cons.mp h.walk.nodup).1
  have hassets := h.assets
  subst hassets
  have hspent : t.amount ≤ e.taker.left := hspend t ▸ hquoted.spend_le
  rw [limitCalls_trade real hlocal h.walk.book.wf hi hni hleft hq, postings_append,
    covers_filter_append] at hmoney
  have hkey : ∀ p : BalanceKey × ℚ, p.1.availableIn e.market.money =
      (decide (p.1.asset = e.market.money) && p.1.isAvailable) := fun p => Bool.and_comm _ _
  have hpart : Covers (saved round e.statics.ledger.dictAsset) e.statics.ledger.balance
      ((tradeAvailable round x e i t).filter fun p => decide (p.1.asset = e.market.money)) := by
    unfold tradeAvailable
    rw [List.filter_filter]
    simpa only [hkey] using hmoney.1
  have hother : Covers (saved round e.statics.ledger.dictAsset) e.statics.ledger.balance
      ((tradeAvailable round x e i t).filter fun p => !decide (p.1.asset = e.market.money)) ∧
      (x.side = .ask → e.market.stock ≠ e.market.money →
        e.statics.ledger.balance ⟨e.taker.userId, .available, e.market.stock⟩ - t.amount ≤
          postAll (saved round e.statics.ledger.dictAsset) e.statics.ledger.balance
            (tradeAvailable round x e i t) ⟨e.taker.userId, .available, e.market.stock⟩) := by
    have hfilter := @filter_stock round x e.market e.taker (e.market.order i) t
      (hfee e.market)
    by_cases hs : e.market.stock = e.market.money
    · rw [if_pos hs] at hfilter
      rw [tradeAvailable, hfilter]
      exact ⟨trivial, fun _ hne => absurd hs hne⟩
    · rw [if_neg hs] at hfilter
      obtain ⟨hcov, hrest⟩ := @covers_stock _ _ _ _ _ _ _ _ e.taker _ _ _ hset' h.solvent.within
        hsized
        hquoted.amount_pos fun hask => hspent.trans (hstock hask hs)
      refine ⟨by rw [tradeAvailable, hfilter]; exact hcov, fun hask _ => ?_⟩
      rw [postAll_filter (P := fun k => !decide (k.asset = e.market.money)) _ _ (by simp [hs]),
        tradeAvailable, hfilter]
      exact hrest hask
  refine ⟨(covers_filter (fun k => decide (k.asset = e.market.money)) _ _).mpr
    ⟨hpart, hother.1⟩, fun hok _ => ?_⟩
  have hconf : (executeTrade (ratMpd round) real x e i t).market.conf = e.market.conf :=
    (executeTrade_market round real x e t h.walk.book.wf hi).conf
  have hm : (executeTrade (ratMpd round) real x e i t).market.money = e.market.money :=
    congrArg MarketConf.money hconf
  have hst : (executeTrade (ratMpd round) real x e i t).market.stock = e.market.stock :=
    congrArg MarketConf.stock hconf
  refine ⟨?_, fun hask hne => ?_⟩
  · rw [hok.posted.balance, hm]
    exact hmoney.2
  · rw [hst, hm] at hne
    rw [hok.posted.balance, hst, postAll_filter (P := BalanceKey.isAvailable) _ _ rfl]
    change round (e.taker.left - x.spend t) ≤ _
    rw [hspend]
    have hround := hset.digits.toRoundsDown.le _ (sub_nonneg.mpr hspent)
    have hstart := hstock hask hne
    exact (hround.trans (sub_le_sub_right hstart _)).trans (hother.2 hask hne)

end Limit

end ViabtcExchange
