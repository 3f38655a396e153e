import ViabtcExchange.BalanceSpec
import ViabtcExchange.Plan

/-!
# What a trade posts

The balance calls of a trade as postings: each party gives, gets and pays its fee. One posting is
to a FREEZE account, what the maker gives. In each asset the postings add up to the fees, taken
out (`issued_tradeCalls`).
-/

namespace ViabtcExchange

/-- Whether an account is an AVAILABLE balance. -/
def BalanceKey.isAvailable (k : BalanceKey) : Bool := k.type = .available

variable {round : ℚ → ℚ} {x : Matching ℚ} {m : Market ℚ} {taker maker order : Order ℚ}
  {t : Terms ℚ} {leg : Leg ℚ} {a : String}

/-- The posting of a fee, if there is one. -/
def feePosting (u : ℕ) (a : String) (fee : ℚ) : List (BalanceKey × ℚ) :=
  if 0 < fee then [(⟨u, .available, a⟩, -fee)] else []

/-- What a party gets and pays as its fee. -/
def gains (order : Order ℚ) (leg : Leg ℚ) : List (BalanceKey × ℚ) :=
  (⟨order.userId, .available, leg.getAsset⟩, leg.get) ::
    feePosting order.userId leg.feeAsset leg.fee

theorem postings_legCalls :
    postings (legCalls (ratMpd round) order leg) =
      (⟨order.userId, leg.giveType, leg.giveAsset⟩, -leg.give) :: gains order leg := by
  unfold legCalls gains feePosting
  simp only [gt_iff_lt, ratMpd_zero, ratMpd_cmp_pos]
  split_ifs <;> rfl

theorem gains_available : ∀ p ∈ gains order leg, p.1.isAvailable = true := by
  intro p hp
  rcases List.mem_cons.mp hp with rfl | hp
  · rfl
  · unfold feePosting at hp
    split_ifs at hp
    · rw [List.mem_singleton.mp hp]
      rfl
    · cases hp

theorem filter_gains :
    (gains order leg).filter (fun p => p.1.isAvailable) = gains order leg ∧
      (gains order leg).filter (fun p => !p.1.isAvailable) = [] := by
  refine ⟨List.filter_eq_self.mpr gains_available, List.filter_eq_nil_iff.mpr fun p hp => ?_⟩
  simp [gains_available p hp]

theorem takerLeg_give : (x.takerLeg m taker t).giveType = .available ∧
    (x.takerLeg m taker t).giveAsset = m.giveAsset x.side := by
  unfold Matching.takerLeg
  cases x.side <;> exact ⟨rfl, rfl⟩

theorem makerLeg_give : (x.makerLeg m maker t).giveType = .freeze ∧
    (x.makerLeg m maker t).giveAsset = m.giveAsset x.side.opposite := by
  unfold Matching.makerLeg
  cases x.side <;> exact ⟨rfl, rfl⟩

theorem postings_tradeCalls :
    postings (tradeCalls (ratMpd round) x m taker maker t) =
      ((⟨taker.userId, .available, m.giveAsset x.side⟩, -(x.takerLeg m taker t).give) ::
        gains taker (x.takerLeg m taker t)) ++
      (⟨maker.userId, .freeze, m.giveAsset x.side.opposite⟩, -(x.makerLeg m maker t).give) ::
        gains maker (x.makerLeg m maker t) := by
  unfold tradeCalls
  rw [postings_append, postings_legCalls, postings_legCalls, takerLeg_give.1, takerLeg_give.2,
    makerLeg_give.1, makerLeg_give.2]

/-- The postings of a trade to AVAILABLE accounts. -/
theorem filter_available :
    (postings (tradeCalls (ratMpd round) x m taker maker t)).filter (fun p => p.1.isAvailable) =
      (⟨taker.userId, .available, m.giveAsset x.side⟩, -(x.takerLeg m taker t).give) ::
        (gains taker (x.takerLeg m taker t) ++ gains maker (x.makerLeg m maker t)) := by
  rw [postings_tradeCalls, List.filter_append, List.filter_cons_of_pos rfl,
    List.filter_cons_of_neg Bool.false_ne_true, filter_gains.1, filter_gains.1, List.cons_append]

/-- The posting of a trade to a FREEZE account. -/
theorem filter_freeze :
    (postings (tradeCalls (ratMpd round) x m taker maker t)).filter (fun p => !p.1.isAvailable) =
      [(⟨maker.userId, .freeze, m.giveAsset x.side.opposite⟩, -(x.makerLeg m maker t).give)] := by
  rw [postings_tradeCalls, List.filter_append, List.filter_cons_of_neg Bool.false_ne_true,
    List.filter_cons_of_pos rfl, filter_gains.2, filter_gains.2, List.nil_append]

theorem issued_gains :
    issued (gains order leg) a =
      (if leg.getAsset = a then leg.get else 0) - if leg.feeAsset =
        a then max leg.fee 0 else 0 := by
  unfold gains feePosting
  rw [issued_cons]
  by_cases hfee : 0 < leg.fee
  · by_cases ha : leg.feeAsset = a <;> simp [hfee, ha, max_eq_left hfee.le, sub_eq_add_neg]
  · simp [hfee, max_eq_right (not_lt.mp hfee)]

/-- A trade takes its fees out of the supply, and nothing else. -/
theorem issued_tradeCalls :
    issued (postings (tradeCalls (ratMpd round) x m taker maker t)) a =
      -((if m.money = a then max t.askFee 0 else 0) +
        if x.bidFeeAsset m = a then max t.bidFee 0 else 0) := by
  rw [postings_tradeCalls, issued_append, issued_cons, issued_cons, issued_gains, issued_gains]
  unfold Matching.takerLeg Matching.makerLeg
  cases x.side with
  | ask =>
    simp only [partyLeg, askLeg, bidLeg, OrderSide.opposite, Market.giveAsset]
    by_cases hs : m.stock = a <;> by_cases hm : m.money = a <;> by_cases hf : x.bidFeeAsset m =
      a <;> simp only [hs, hm, hf, if_true, if_false] <;> ring
  | bid =>
    simp only [partyLeg, askLeg, bidLeg, OrderSide.opposite, Market.giveAsset]
    by_cases hs : m.stock = a <;> by_cases hm : m.money = a <;> by_cases hf : x.bidFeeAsset m =
      a <;> simp only [hs, hm, hf, if_true, if_false] <;> ring

/-! ## Calls that can be made -/

/-- The assets of a market are known. -/
structure KnownAssets (dictAsset : Dict String AssetType) (m : Market ℚ) : Prop where
  stock : ∃ ty, dictAsset.find m.stock = some ty
  money : ∃ ty, dictAsset.find m.money = some ty

theorem KnownAssets.give {dictAsset : Dict String AssetType} (h : KnownAssets dictAsset m)
    (side : OrderSide) : ∃ ty, dictAsset.find (m.giveAsset side) = some ty := by
  cases side with
  | ask => exact h.stock
  | bid => exact h.money

theorem good_legCalls {dictAsset : Dict String AssetType} (hgive : 0 < leg.give)
    (hget : 0 < leg.get) (hheld : round leg.get = leg.get)
    (hassets : ∀ a ∈ [leg.giveAsset, leg.getAsset, leg.feeAsset],
      ∃ ty, dictAsset.find a = some ty) :
    ∀ c ∈ legCalls (ratMpd round) order leg, c.Good round dictAsset := by
  intro c hc
  unfold legCalls at hc
  rcases List.mem_cons.mp hc with rfl | hc
  · exact ⟨hgive, hassets leg.giveAsset (by simp), trivial⟩
  rcases List.mem_cons.mp hc with rfl | hc
  · exact ⟨hget, hassets leg.getAsset (by simp), hheld⟩
  · split_ifs at hc with hfee
    · rw [List.mem_singleton.mp hc]
      exact ⟨(ratMpd_cmp_pos _ _ _).mp hfee, hassets leg.feeAsset (by simp), trivial⟩
    · cases hc

/-- The calls of a trade are for positive amounts of known assets. -/
theorem good_tradeCalls {dictAsset : Dict String AssetType} (hknown : KnownAssets dictAsset m)
    (hfee : x.bidFeeAsset m = m.money ∨ x.bidFeeAsset m = m.stock) (hamount : 0 < t.amount)
    (hdeal : 0 < t.deal) (hkeep : round t.amount = t.amount) (hkeep' : round t.deal = t.deal) :
    ∀ c ∈ tradeCalls (ratMpd round) x m taker maker t, c.Good round dictAsset := by
  have hassets : ∀ a ∈ [m.stock, m.money, x.bidFeeAsset m], ∃ ty, dictAsset.find a = some ty := by
    intro a ha
    simp only [List.mem_cons, List.not_mem_nil, or_false] at ha
    rcases ha with rfl | rfl | rfl
    · exact hknown.stock
    · exact hknown.money
    · rcases hfee with h | h <;> rw [h]
      · exact hknown.money
      · exact hknown.stock
  intro c hc
  unfold tradeCalls Matching.takerLeg Matching.makerLeg at hc
  cases hside : x.side with
  | ask =>
    rw [hside] at hc
    rcases List.mem_append.mp hc with hc | hc
    · exact good_legCalls hamount hdeal hkeep'
        (fun a ha => hassets a (by simp [partyLeg, askLeg] at ha ⊢; tauto)) c hc
    · exact good_legCalls hdeal hamount hkeep
        (fun a ha => hassets a (by simp [OrderSide.opposite, partyLeg, bidLeg] at ha ⊢; tauto)) c hc
  | bid =>
    rw [hside] at hc
    rcases List.mem_append.mp hc with hc | hc
    · exact good_legCalls hdeal hamount hkeep
        (fun a ha => hassets a (by simp [partyLeg, bidLeg] at ha ⊢; tauto)) c hc
    · exact good_legCalls hamount hdeal hkeep'
        (fun a ha => hassets a (by simp [OrderSide.opposite, partyLeg, askLeg] at ha ⊢; tauto)) c hc

end ViabtcExchange
