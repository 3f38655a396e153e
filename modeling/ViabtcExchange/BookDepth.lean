import ViabtcExchange.Book
import ViabtcExchange.Lib.Groups

/-!
# The depth of a book (`me_server.c`)

`get_depth` and `get_depth_merge` go once through each side of a book. Both take the price of the
next order, or a multiple of the interval next to it, and add up what is left of the orders that
follow as long as they belong to it (`depthLoop`); they differ in the price and in the test.

**Theorem (`market_depth`).** In exact arithmetic they show the first groups of each side: by price,
or by price rounded up (asks) or down (bids) to a multiple of the interval.
-/

namespace ViabtcExchange

/-- libmpdec with `mpd_divmod`. -/
structure DivMpd (D : Type) extends Mpd D where
  /-- The whole part of the quotient, and the remainder. -/
  divmod : D → D → D × D

/-- Exact numbers. -/
def exactDivMpd : DivMpd ℚ where
  toMpd := exactDecimal
  divmod a b :=
    let q : ℚ := intPart (a / b)
    (q, a - q * b)

/-- The two lists of a depth: prices and amounts. -/
structure MarketDepth (D : Type) where
  asks : List (D × D)
  bids : List (D × D)

section Depth

variable {D : Type} (mpd : DivMpd D)

/-- The inner loop: add up the orders that join the group, and stop at the first that does not. -/
def gatherGroup (joins : D → Bool) (amount : D) : List (Order D) → D × List (Order D)
  | [] => (amount, [])
  | order :: rest =>
    if joins order.price then gatherGroup joins (mpd.add amount order.left) rest
    else (amount, order :: rest)

/-- The outer loop over one side: at most `limit` groups. -/
def depthLoop (priceOf : D → D) (joins : D → D → Bool) : ℕ → List (Order D) → List (D × D)
  | 0, _ => []
  | _, [] => []
  | limit + 1, order :: rest =>
    let price := priceOf order.price
    let (amount, rest) := gatherGroup mpd (joins price) order.left rest
    (price, amount) :: depthLoop priceOf joins limit rest

/-- The orders of a side, the best first. -/
def Market.sideOrders (m : Market D) (side : OrderSide) : List (Order D) :=
  (m.book side).map m.order

def getDepth (market : Market D) (limit : ℕ) : MarketDepth D :=
  let joins : D → D → Bool := fun price order => mpd.cmp price order = 0
  ⟨depthLoop mpd id joins limit (market.sideOrders .ask),
    depthLoop mpd id joins limit (market.sideOrders .bid)⟩

/-- The price of a group of asks. -/
def mergeAsk (interval orderPrice : D) : D :=
  let (q, r) := mpd.divmod orderPrice interval
  let price := mpd.mul q interval
  if mpd.cmp r mpd.zero ≠ 0 then mpd.add price interval else price

/-- The price of a group of bids. -/
def mergeBid (interval orderPrice : D) : D := mpd.mul (mpd.divmod orderPrice interval).1 interval

def getDepthMerge (market : Market D) (limit : ℕ) (interval : D) : MarketDepth D :=
  ⟨depthLoop mpd (mergeAsk mpd interval) (fun price order => mpd.cmp price order ≥ 0) limit
      (market.sideOrders .ask),
    depthLoop mpd (mergeBid mpd interval) (fun price order => mpd.cmp price order ≤ 0) limit
      (market.sideOrders .bid)⟩

end Depth

/-! ## One side -/

/-- What a side shows of groups of its orders. -/
def showGroup (g : ℚ × List (Order ℚ)) : ℚ × ℚ := (g.1, (g.2.map Order.left).sum)

/-- A side shows the first `limit` groups of its orders by `groupOf` their price, in the order `lt`
of the prices. -/
def ShowsGroups (lt : ℚ → ℚ → Prop) (groupOf : ℚ → ℚ) (orders : List (Order ℚ)) (limit : ℕ)
    (shown : List (ℚ × ℚ)) : Prop :=
  ∃ gs, Grouping lt (fun o => groupOf o.price) orders gs ∧ shown = (gs.take limit).map showGroup

section Side

variable {lt : ℚ → ℚ → Prop} {groupOf : ℚ → ℚ} {orders : List (Order ℚ)} {limit : ℕ}

theorem gatherGroup_eq (joins : ℚ → Bool) (amount : ℚ) (orders : List (Order ℚ)) :
    gatherGroup exactDivMpd joins amount orders =
      (amount + ((orders.takeWhile fun o => joins o.price).map Order.left).sum,
        orders.dropWhile fun o => joins o.price) := by
  induction orders generalizing amount with
  | nil => simp [gatherGroup]
  | cons o orders ih =>
    unfold gatherGroup
    by_cases h : joins o.price = true
    · have hadd : exactDivMpd.add amount o.left = amount + o.left := rfl
      rw [if_pos h, ih, hadd]
      simp [h, add_assoc]
    · rw [if_neg h]
      simp [h]

/-- The loop shows what a scan finds. -/
theorem depthLoop_eq (priceOf : ℚ → ℚ) (joins : ℚ → ℚ → Bool) (limit : ℕ)
    (orders : List (Order ℚ)) :
    depthLoop exactDivMpd priceOf joins limit orders =
      (scan (fun price o => joins price o.price) (fun o => priceOf o.price) limit orders).map
        showGroup := by
  induction limit generalizing orders with
  | zero => rfl
  | succ limit ih =>
    cases orders with
    | nil => rfl
    | cons o orders =>
      rw [depthLoop, scan, gatherGroup_eq, List.map_cons]
      simp only [ih]
      simp [showGroup]

/-- A loop whose test is right on what stands behind an order shows the first groups. -/
theorem showsGroups_depthLoop [IsStrictTotalOrder ℚ lt] {joins : ℚ → ℚ → Bool}
    (h : orders.Pairwise fun o o' => ¬lt (groupOf o'.price) (groupOf o.price) ∧
      (joins (groupOf o.price) o'.price = true ↔ groupOf o'.price = groupOf o.price)) (limit : ℕ) :
    ShowsGroups lt groupOf orders limit (depthLoop exactDivMpd groupOf joins limit orders) := by
  obtain ⟨gs, hgs, htake⟩ := grouping_scan (fun price (o : Order ℚ) => joins price o.price) h
  exact ⟨gs, hgs, by rw [depthLoop_eq, htake]⟩

/-- The prices a side shows are strictly in order. -/
theorem ShowsGroups.sorted {shown : List (ℚ × ℚ)} (h : ShowsGroups lt groupOf orders limit shown) :
    (shown.map Prod.fst).Pairwise lt := by
  obtain ⟨gs, hgs, rfl⟩ := h
  rw [List.map_map]
  exact List.pairwise_map.mpr (hgs.sorted.sublist (List.take_sublist limit gs))

/-- A side shows one thing only, whatever the groups are called. -/
theorem ShowsGroups.unique [IsStrictTotalOrder ℚ lt] {groupOf' : ℚ → ℚ}
    {shown shown' : List (ℚ × ℚ)} (h : ShowsGroups lt groupOf orders limit shown)
    (h' : ShowsGroups lt groupOf' orders limit shown')
    (hsame : ∀ o ∈ orders, groupOf' o.price = groupOf o.price) : shown' = shown := by
  obtain ⟨gs, hgs, rfl⟩ := h
  obtain ⟨gs', hgs', rfl⟩ := h'
  rw [(hgs.congr hsame).unique hgs']

end Side

/-! ## Multiples of an interval -/

/-- The least multiple of the interval that is not less than a price. -/
def ceilTo (interval p : ℚ) : ℚ := ⌈p / interval⌉ * interval

/-- The greatest multiple of the interval that is not greater. -/
def floorTo (interval p : ℚ) : ℚ := ⌊p / interval⌋ * interval

section Interval

variable {interval p p' : ℚ} (hi : 0 < interval)

include hi

theorem le_ceilTo : p ≤ ceilTo interval p := by
  have h := mul_le_mul_of_nonneg_right (Int.le_ceil (p / interval)) hi.le
  rwa [div_mul_cancel₀ p hi.ne'] at h

theorem floorTo_le : floorTo interval p ≤ p := by
  have h := mul_le_mul_of_nonneg_right (Int.floor_le (p / interval)) hi.le
  rwa [div_mul_cancel₀ p hi.ne'] at h

theorem ceilTo_mono (h : p ≤ p') : ceilTo interval p ≤ ceilTo interval p' := by
  refine mul_le_mul_of_nonneg_right ?_ hi.le
  exact_mod_cast Int.ceil_mono (div_le_div_of_nonneg_right h hi.le)

theorem floorTo_mono (h : p ≤ p') : floorTo interval p ≤ floorTo interval p' := by
  refine mul_le_mul_of_nonneg_right ?_ hi.le
  exact_mod_cast Int.floor_mono (div_le_div_of_nonneg_right h hi.le)

theorem ceilTo_multiple (k : ℤ) : ceilTo interval (k * interval) = k * interval := by
  rw [ceilTo, mul_div_cancel_right₀ _ hi.ne', Int.ceil_intCast]

theorem floorTo_multiple (k : ℤ) : floorTo interval (k * interval) = k * interval := by
  rw [floorTo, mul_div_cancel_right₀ _ hi.ne', Int.floor_intCast]

/-- Of the prices from `p` on, those up to the multiple above `p` have the same multiple. -/
theorem le_ceilTo_iff (h : p ≤ p') :
    p' ≤ ceilTo interval p ↔ ceilTo interval p' = ceilTo interval p := by
  constructor
  · intro hle
    refine le_antisymm ?_ (ceilTo_mono hi h)
    calc ceilTo interval p' ≤ ceilTo interval (ceilTo interval p) := ceilTo_mono hi hle
      _ = ceilTo interval p := ceilTo_multiple hi _
  · intro heq
    exact (le_ceilTo hi).trans heq.le

/-- And of the prices down from `p`, those down to the multiple below `p`. -/
theorem floorTo_le_iff (h : p' ≤ p) :
    floorTo interval p ≤ p' ↔ floorTo interval p' = floorTo interval p := by
  constructor
  · intro hle
    refine le_antisymm (floorTo_mono hi h) ?_
    calc floorTo interval p = floorTo interval (floorTo interval p) := (floorTo_multiple hi _).symm
      _ ≤ floorTo interval p' := floorTo_mono hi hle
  · intro heq
    exact heq.ge.trans (floorTo_le hi)

theorem mergeBid_eq (hp : 0 < p) : mergeBid exactDivMpd interval p = floorTo interval p := by
  show (intPart (p / interval) : ℚ) * interval = floorTo interval p
  rw [intPart, if_pos (div_pos hp hi).le, floorTo]

theorem mergeAsk_eq (hp : 0 < p) : mergeAsk exactDivMpd interval p = ceilTo interval p := by
  have hq : intPart (p / interval) = ⌊p / interval⌋ := if_pos (div_pos hp hi).le
  have hcmp : ∀ r : ℚ, exactDivMpd.cmp r exactDivMpd.zero = 0 ↔ r = 0 :=
    fun r => ratMpd_cmp_eq id r 0
  have hrest : p - (⌊p / interval⌋ : ℚ) * interval = 0 ↔ p / interval = ⌊p / interval⌋ := by
    rw [sub_eq_zero, div_eq_iff hi.ne']
  show (if exactDivMpd.cmp (p - (intPart (p / interval) : ℚ) * interval) exactDivMpd.zero ≠ 0 then
      (intPart (p / interval) : ℚ) * interval + interval
    else (intPart (p / interval) : ℚ) * interval) = ceilTo interval p
  rw [hq, ceilTo]
  by_cases hwhole : p / interval = ⌊p / interval⌋
  · rw [if_neg (not_not.mpr ((hcmp _).mpr (hrest.mpr hwhole)))]
    have hceil : ⌈p / interval⌉ = ⌊p / interval⌋ := by
      rw [hwhole, Int.ceil_intCast, Int.floor_intCast]
    rw [hceil]
  · have hceil : ⌈p / interval⌉ = ⌊p / interval⌋ + 1 := by
      refine Int.ceil_eq_iff.mpr ⟨?_, ?_⟩
      · push_cast
        rw [add_sub_cancel_right]
        exact lt_of_le_of_ne (Int.floor_le _) (Ne.symm hwhole)
      · push_cast
        exact (Int.lt_floor_add_one _).le
    rw [if_pos fun h => hwhole (hrest.mp ((hcmp _).mp h)), hceil]
    push_cast
    ring

end Interval

/-! ## The book -/

section Book

variable {m : Market ℚ}

theorem pairwise_asks (h : Ordered (m.key .ask) (m.book .ask)) :
    (m.sideOrders .ask).Pairwise fun o o' => o.price ≤ o'.price := by
  refine List.pairwise_map.mpr (h.imp fun {i j} hlt => ?_)
  rcases Prod.Lex.toLex_lt_toLex.mp hlt with hlt | ⟨heq, -⟩
  · exact hlt.le
  · exact heq.le

theorem pairwise_bids (h : Ordered (m.key .bid) (m.book .bid)) :
    (m.sideOrders .bid).Pairwise fun o o' => o'.price ≤ o.price := by
  refine List.pairwise_map.mpr (h.imp fun {i j} hlt => ?_)
  rcases Prod.Lex.toLex_lt_toLex.mp hlt with hlt | ⟨heq, -⟩
  · exact (neg_lt_neg_iff.mp hlt).le
  · exact (neg_injective heq).ge

/-- A loop does the same with prices that agree on the side. -/
theorem depthLoop_congr {priceOf priceOf' : ℚ → ℚ} (joins : ℚ → ℚ → Bool) (limit : ℕ)
    {orders : List (Order ℚ)} (h : ∀ o ∈ orders, priceOf o.price = priceOf' o.price) :
    depthLoop exactDivMpd priceOf joins limit orders =
      depthLoop exactDivMpd priceOf' joins limit orders := by
  induction limit generalizing orders with
  | zero => rfl
  | succ limit ih =>
    cases orders with
    | nil => rfl
    | cons o orders =>
      rw [depthLoop, depthLoop, gatherGroup_eq, gatherGroup_eq, h o List.mem_cons_self]
      have hrest := fun joins : ℚ → Bool => @ih (orders.dropWhile fun o => joins o.price)
        fun o' ho' => h o' (List.mem_cons_of_mem _ ((List.dropWhile_suffix _).subset ho'))
      simp only [hrest]

theorem mem_sideOrders {side : OrderSide} {o : Order ℚ} :
    o ∈ m.sideOrders side ↔ ∃ i ∈ m.book side, m.order i = o := List.mem_map

/-- **Depth is the grouped book.** -/
theorem market_depth {interval : ℚ} (limit : ℕ) (h : ∀ side, Ordered (m.key side) (m.book side))
    (hpos : ∀ side, ∀ i ∈ m.book side, 0 < (m.order i).price) (hi : 0 < interval) :
    let depth := getDepth exactDivMpd m limit
    let merged := getDepthMerge exactDivMpd m limit interval
    ShowsGroups (· < ·) id (m.sideOrders .ask) limit depth.asks ∧
    ShowsGroups (· > ·) id (m.sideOrders .bid) limit depth.bids ∧
    ShowsGroups (· < ·) (ceilTo interval) (m.sideOrders .ask) limit merged.asks ∧
    ShowsGroups (· > ·) (floorTo interval) (m.sideOrders .bid) limit merged.bids ∧
    ((∀ side, ∀ i ∈ m.book side, ∃ k : ℤ, (m.order i).price = k * interval) → merged = depth) := by
  intro depth merged
  have hprice : ∀ side, ∀ o ∈ m.sideOrders side, 0 < o.price := fun side o ho => by
    obtain ⟨i, hi, rfl⟩ := mem_sideOrders.mp ho
    exact hpos side i hi
  have hasks : ShowsGroups (· < ·) id (m.sideOrders .ask) limit depth.asks := by
    refine showsGroups_depthLoop
      ((pairwise_asks (h .ask)).imp fun {o o'} hle => ⟨hle.not_gt, ?_⟩) limit
    rw [decide_eq_true_eq]
    exact (ratMpd_cmp_eq id o.price o'.price).trans eq_comm
  have hbids : ShowsGroups (· > ·) id (m.sideOrders .bid) limit depth.bids := by
    refine showsGroups_depthLoop
      ((pairwise_bids (h .bid)).imp fun {o o'} hle => ⟨hle.not_gt, ?_⟩) limit
    rw [decide_eq_true_eq]
    exact (ratMpd_cmp_eq id o.price o'.price).trans eq_comm
  have hmergedAsks :
      ShowsGroups (· < ·) (ceilTo interval) (m.sideOrders .ask) limit merged.asks := by
    show ShowsGroups _ _ _ _ (depthLoop exactDivMpd (mergeAsk exactDivMpd interval) _ limit _)
    rw [depthLoop_congr _ limit fun o ho => mergeAsk_eq hi (hprice .ask o ho)]
    refine showsGroups_depthLoop ((pairwise_asks (h .ask)).imp fun {o o'} hle =>
      ⟨(ceilTo_mono hi hle).not_gt, ?_⟩) limit
    rw [decide_eq_true_eq]
    exact (ratMpd_cmp_nonneg id _ _).trans (le_ceilTo_iff hi hle)
  have hmergedBids :
      ShowsGroups (· > ·) (floorTo interval) (m.sideOrders .bid) limit merged.bids := by
    show ShowsGroups _ _ _ _ (depthLoop exactDivMpd (mergeBid exactDivMpd interval) _ limit _)
    rw [depthLoop_congr _ limit fun o ho => mergeBid_eq hi (hprice .bid o ho)]
    refine showsGroups_depthLoop ((pairwise_bids (h .bid)).imp fun {o o'} hle =>
      ⟨(floorTo_mono hi hle).not_gt, ?_⟩) limit
    rw [decide_eq_true_eq]
    exact (ratMpd_cmp_le id _ _).trans (floorTo_le_iff hi hle)
  refine ⟨hasks, hbids, hmergedAsks, hmergedBids, fun hmultiple => ?_⟩
  have hwhole : ∀ side, ∀ o ∈ m.sideOrders side, ∃ k : ℤ, o.price =
      k * interval := fun side o ho => by
    obtain ⟨i, hi, rfl⟩ := mem_sideOrders.mp ho
    exact hmultiple side i hi
  have heqAsks : merged.asks = depth.asks := hasks.unique hmergedAsks fun o ho => by
    obtain ⟨k, hk⟩ := hwhole .ask o ho
    rw [hk, ceilTo_multiple hi, id]
  have heqBids : merged.bids = depth.bids := hbids.unique hmergedBids fun o ho => by
    obtain ⟨k, hk⟩ := hwhole .bid o ho
    rw [hk, floorTo_multiple hi, id]
  show MarketDepth.mk merged.asks merged.bids = MarketDepth.mk depth.asks depth.bids
  rw [heqAsks, heqBids]

end Book

/-! ## Three asks and a bid -/

/-- An order of 1 BTC. -/
def tierOrder (id : ℕ) : Order ℚ where
  id := id
  type := .limit
  side := if id = 4 then .bid else .ask
  userId := id
  market := "BTCCNY"
  source := none
  price := if id = 1 then 101 / 10 else if id = 2 then 104 / 10 else if id = 3 then 12 else 99 / 10
  amount := 1
  takerFee := 0
  makerFee := 0
  left := 1
  freeze := 1
  dealStock := 0
  dealMoney := 0
  dealFee := 0

def tierMarket : Market ℚ where
  name := "BTCCNY"
  stock := "BTC"
  money := "CNY"
  stockPrec := 8
  moneyPrec := 8
  feePrec := 4
  minAmount := 1 / 1000
  order := tierOrder
  orders := {1, 2, 3, 4}
  users := ∅
  asks := [1, 2, 3]
  bids := [4]

/-- The asks at 10.1 and 10.4 are one group. -/
theorem tierMarket_depth :
    ShowsGroups (· < ·) (ceilTo 1) (tierMarket.sideOrders .ask) 2
        (getDepthMerge exactDivMpd tierMarket 2 1).asks ∧
      (getDepthMerge exactDivMpd tierMarket 2 1).asks = [(11, 2), (12, 1)] := by
  have h := @market_depth tierMarket 1 2
    (fun side => by cases side <;> unfold Ordered <;> decide +kernel)
    (fun side => by cases side <;> decide +kernel) one_pos
  exact ⟨h.2.2.1, by decide +kernel⟩

end ViabtcExchange
