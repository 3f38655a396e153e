import ViabtcExchange.Loop

/-!
# What the four kinds of taker trade

The quotes of the `execute_*` loops, with their comparisons read as comparisons of numbers. The
first three are explicit; a market bid is quoted the largest number of ticks its money pays for,
and its sizing loop ends at once (`marketBid_quote`): the quotient was rounded down, twice.

`Matching.Fair` is what all four have in common: a quote is always found, and a trade is of a
positive amount that both parties can still give.
-/

namespace ViabtcExchange

variable {round : ℚ → ℚ} (m : Market ℚ) (taker maker : Order ℚ)

theorem tradeAmount_eq : tradeAmount (ratMpd round) taker maker = min taker.left maker.left := by
  unfold tradeAmount
  rw [if_congr (ratMpd_cmp_lt _ _ _) rfl rfl, min_def]
  split_ifs with h h' h'
  · rfl
  · exact absurd h.le h'
  · exact le_antisymm (not_lt.mp h) h'
  · rfl

theorem limitAsk_quote :
    (limitAsk (ratMpd round)).quote m taker maker =
      some (if maker.price < taker.price then .stop
        else .trade (termsOf (ratMpd round) maker (min taker.left maker.left)
          (fun deal => round (deal * taker.takerFee))
          (fun deal => round (deal * maker.makerFee)))) := by
  simp only [limitAsk, tradeAmount_eq, gt_iff_lt, ratMpd_cmp_pos, ratMpd_mul]
  split_ifs <;> rfl

theorem limitBid_quote :
    (limitBid (ratMpd round)).quote m taker maker =
      some (if taker.price < maker.price then .stop
        else .trade (termsOf (ratMpd round) maker (min taker.left maker.left)
          (fun deal => round (deal * maker.makerFee))
          (fun deal => round (deal * taker.takerFee)))) := by
  simp only [limitBid, tradeAmount_eq, ratMpd_cmp_lt, ratMpd_mul]
  split_ifs <;> rfl

theorem marketAsk_quote :
    (marketAsk (ratMpd round)).quote m taker maker =
      some (.trade (termsOf (ratMpd round) maker (min taker.left maker.left)
        (fun deal => round (deal * taker.takerFee))
        (fun _ => round (min taker.left maker.left * maker.makerFee)))) := by
  simp only [marketAsk, tradeAmount_eq, ratMpd_mul]

/-- The ticks of stock that the money left pays for at the maker's price. -/
def affordable (round : ℚ → ℚ) (m : Market ℚ) (taker maker : Order ℚ) : ℚ :=
  truncTo m.stockPrec (round (taker.left / maker.price))

/-- The sizing loop leaves an amount alone that can be paid for. -/
theorem sizeDown_of_le {stockPrec fuel : ℕ} {left price amount : ℚ} (hfuel : 0 < fuel)
    (h : round (amount * price) ≤ left) :
    sizeDown (ratMpd round) stockPrec left price fuel amount = some amount := by
  obtain ⟨fuel, rfl⟩ := Nat.exists_eq_succ_of_ne_zero hfuel.ne'
  rw [sizeDown, if_neg]
  simpa using h

variable {m taker maker}

theorem affordable_nonneg (hr : RoundsDown round) (hleft : 0 ≤ taker.left)
    (hprice : 0 < maker.price) : 0 ≤ affordable round m taker maker :=
  truncTo_nonneg _ (hr.nonneg (div_nonneg hleft hprice.le))

theorem affordable_mul_le (hr : RoundsDown round) (hleft : 0 ≤ taker.left)
    (hprice : 0 < maker.price) : affordable round m taker maker * maker.price ≤ taker.left := by
  have hq : 0 ≤ taker.left / maker.price := div_nonneg hleft hprice.le
  have hle : affordable round m taker maker ≤ taker.left / maker.price :=
    (truncTo_le _ (hr.nonneg hq)).trans (hr.le _ hq)
  exact (le_div_iff₀ hprice).mp hle

theorem marketBid_quote (hr : RoundsDown round) (hleft : 0 ≤ taker.left)
    (hprice : 0 < maker.price) :
    (marketBid (ratMpd round)).quote m taker maker =
      some (let amount := min (affordable round m taker maker) maker.left
        if amount = 0 then .stop
        else .trade (termsOf (ratMpd round) maker amount
          (fun deal => round (deal * maker.makerFee))
          (fun _ => round (amount * taker.takerFee)))) := by
  have hle := affordable_mul_le (m := m) hr hleft hprice
  have hmul : 0 ≤ affordable round m taker maker * maker.price :=
    mul_nonneg (affordable_nonneg hr hleft hprice) hprice.le
  have hsize : sizeDown (ratMpd round) m.stockPrec taker.left maker.price (ratMpd round).fuel
      (affordable round m taker maker) = some (affordable round m taker maker) :=
    sizeDown_of_le (by decide : 0 < 1000) ((hr.le _ hmul).trans hle)
  have hmin : (if (ratMpd round).cmp (affordable round m taker maker) maker.left > 0 then
      maker.left else affordable round m taker maker) =
      min (affordable round m taker maker) maker.left := by
    rw [if_congr (ratMpd_cmp_pos _ _ _) rfl rfl, min_def]
    split_ifs with h h' h'
    · exact absurd h' (not_le.mpr h)
    · rfl
    · rfl
    · exact absurd (not_lt.mp h) h'
  have hamount : (ratMpd round).rescale ((ratMpd round).div taker.left maker.price)
      (-m.stockPrec) = affordable round m taker maker := by
    simp [affordable]
  simp only [marketBid, hamount, hsize, Option.map_some, hmin, ratMpd_zero, ratMpd_cmp_eq,
    ratMpd_mul]

/-! ## What they have in common -/

/-- The fee rate of the ask. -/
def Matching.askRate (x : Matching ℚ) (taker maker : Order ℚ) : ℚ :=
  match x.side with
  | .ask => taker.takerFee
  | .bid => maker.makerFee

/-- The fee rate of the bid. -/
def Matching.bidRate (x : Matching ℚ) (taker maker : Order ℚ) : ℚ :=
  match x.side with
  | .ask => maker.makerFee
  | .bid => taker.takerFee

/-- Terms both parties can meet. -/
structure Quoted (round : ℚ → ℚ) (x : Matching ℚ) (m : Market ℚ) (taker maker : Order ℚ)
    (t : Terms ℚ) : Prop where
  price : t.price = maker.price
  deal : t.deal = round (maker.price * t.amount)
  amount_pos : 0 < t.amount
  amount_le : t.amount ≤ maker.left
  spend_pos : 0 < x.spend t
  spend_le : x.spend t ≤ taker.left
  askFee : t.askFee = round (t.deal * x.askRate taker maker)
  bidFee : x.bidFeeAsset m = m.money ∧ t.bidFee = round (t.deal * x.bidRate taker maker) ∨
    x.bidFeeAsset m = m.stock ∧ t.bidFee = round (t.amount * x.bidRate taker maker)

/-- A matching that always finds a quote, and trades on terms both parties can meet. -/
structure Matching.Fair (round : ℚ → ℚ) (x : Matching ℚ) : Prop where
  ne_none : ∀ m taker maker, 0 < taker.left → 0 < maker.price → x.quote m taker maker ≠ none
  quoted : ∀ m taker maker t, 0 < taker.left → 0 < maker.left → 0 < maker.price →
    x.quote m taker maker = some (.trade t) → Quoted round x m taker maker t

/-- A matching that trades with a maker exactly when `crosses` says so, and then as much as the
smaller of the two amounts left. -/
structure Matching.Greedy (round : ℚ → ℚ) (x : Matching ℚ) (crosses : Order ℚ → Order ℚ → Prop) :
    Prop extends x.Fair round where
  stop : ∀ m taker maker, x.quote m taker maker = some .stop ↔ ¬crosses taker maker
  amount : ∀ m taker maker t, x.quote m taker maker = some (.trade t) →
    t.amount = min taker.left maker.left ∧ x.spend t = t.amount

theorem greedy_limitAsk (round : ℚ → ℚ) :
    (limitAsk (ratMpd round)).Greedy round fun taker maker => taker.price ≤ maker.price where
  ne_none m taker maker _ _ := by
    rw [limitAsk_quote]
    exact Option.some_ne_none _
  quoted m taker maker t ht hm _ hq := by
    rw [limitAsk_quote] at hq
    split_ifs at hq
    · cases hq
    obtain rfl := Quote.trade.inj (Option.some.inj hq)
    have hpos : 0 < min taker.left maker.left := lt_min ht hm
    exact ⟨rfl, rfl, hpos, min_le_right _ _, hpos, min_le_left _ _, rfl, Or.inl ⟨rfl, rfl⟩⟩
  stop m taker maker := by
    rw [limitAsk_quote, not_le]
    split_ifs with h <;> simp [h]
  amount m taker maker t hq := by
    rw [limitAsk_quote] at hq
    split_ifs at hq
    · cases hq
    obtain rfl := Quote.trade.inj (Option.some.inj hq)
    exact ⟨rfl, rfl⟩

theorem greedy_limitBid (round : ℚ → ℚ) :
    (limitBid (ratMpd round)).Greedy round fun taker maker => maker.price ≤ taker.price where
  ne_none m taker maker _ _ := by
    rw [limitBid_quote]
    exact Option.some_ne_none _
  quoted m taker maker t ht hm _ hq := by
    rw [limitBid_quote] at hq
    split_ifs at hq
    · cases hq
    obtain rfl := Quote.trade.inj (Option.some.inj hq)
    have hpos : 0 < min taker.left maker.left := lt_min ht hm
    exact ⟨rfl, rfl, hpos, min_le_right _ _, hpos, min_le_left _ _, rfl, Or.inl ⟨rfl, rfl⟩⟩
  stop m taker maker := by
    rw [limitBid_quote, not_le]
    split_ifs with h <;> simp [h]
  amount m taker maker t hq := by
    rw [limitBid_quote] at hq
    split_ifs at hq
    · cases hq
    obtain rfl := Quote.trade.inj (Option.some.inj hq)
    exact ⟨rfl, rfl⟩

theorem greedy_marketAsk (round : ℚ → ℚ) :
    (marketAsk (ratMpd round)).Greedy round fun _ _ => True where
  ne_none m taker maker _ _ := by
    rw [marketAsk_quote]
    exact Option.some_ne_none _
  quoted m taker maker t ht hm _ hq := by
    rw [marketAsk_quote] at hq
    obtain rfl := Quote.trade.inj (Option.some.inj hq)
    have hpos : 0 < min taker.left maker.left := lt_min ht hm
    exact ⟨rfl, rfl, hpos, min_le_right _ _, hpos, min_le_left _ _, rfl, Or.inr ⟨rfl, rfl⟩⟩
  stop m taker maker := by
    rw [marketAsk_quote]
    simp
  amount m taker maker t hq := by
    rw [marketAsk_quote] at hq
    obtain rfl := Quote.trade.inj (Option.some.inj hq)
    exact ⟨rfl, rfl⟩

theorem fair_marketBid {round : ℚ → ℚ} (hr : RoundsDown round) :
    (marketBid (ratMpd round)).Fair round where
  ne_none m taker maker ht hp := by
    rw [marketBid_quote hr ht.le hp]
    exact Option.some_ne_none _
  quoted m taker maker t ht hm hp hq := by
    rw [marketBid_quote hr ht.le hp] at hq
    dsimp only at hq
    set amount := min (affordable round m taker maker) maker.left with hamount
    split_ifs at hq with hzero
    · cases hq
    obtain rfl := Quote.trade.inj (Option.some.inj hq)
    have hnonneg : 0 ≤ amount := le_min (affordable_nonneg hr ht.le hp) hm.le
    have hpos : 0 < amount := lt_of_le_of_ne hnonneg (Ne.symm hzero)
    have hcost : maker.price * amount ≤ taker.left := by
      have h := affordable_mul_le (m := m) hr ht.le hp
      have hle : amount ≤ affordable round m taker maker := min_le_left _ _
      nlinarith
    have hdeal : 0 < maker.price * amount := mul_pos hp hpos
    exact ⟨rfl, rfl, hpos, min_le_right _ _, hr.pos _ hdeal, (hr.le _ hdeal.le).trans hcost, rfl,
      Or.inr ⟨rfl, rfl⟩⟩

end ViabtcExchange
