import Mathlib.Data.Int.Log
import Mathlib.Data.Rat.Floor
import Mathlib.Tactic

/-!
# Rounding towards zero, on a grid and to a number of digits

Fixed-point and floating-point decimals, by value. `truncTo p` drops every digit after the
`p`-th one behind the point; `roundDown n` keeps the `n` leading significant digits. Both round
towards zero.

* `OnGrid p x` — `x` is a multiple of `10⁻ᵖ`; the grids are closed under sums and products.
* `truncTo_of_onGrid` — truncation keeps the numbers of its grid.
* `roundDown_pos` — a positive number stays positive, however few digits are kept.
* `roundDown_of_onGrid` — a number on a grid is kept when it has no more digits than that.
-/

namespace ViabtcExchange

/-! ## Truncation on a grid -/

/-- The integer part, rounding towards zero. -/
def intPart (x : ℚ) : ℤ := if 0 ≤ x then ⌊x⌋ else ⌈x⌉

/-- Drop the digits behind the `p`-th decimal place. -/
def truncTo (p : ℤ) (x : ℚ) : ℚ := intPart (x * 10 ^ p) / 10 ^ p

/-- `x` is a multiple of `10⁻ᵖ`. -/
def OnGrid (p : ℤ) (x : ℚ) : Prop := ∃ n : ℤ, x * 10 ^ p = n

theorem ten_zpow_pos (p : ℤ) : (0 : ℚ) < 10 ^ p := zpow_pos (by norm_num) p

theorem ten_zpow_ne (p : ℤ) : (10 : ℚ) ^ p ≠ 0 := (ten_zpow_pos p).ne'

theorem intPart_intCast (n : ℤ) : intPart n = n := by
  unfold intPart
  split_ifs <;> simp

theorem intPart_nonneg {x : ℚ} (hx : 0 ≤ x) : 0 ≤ intPart x := by
  rw [intPart, if_pos hx]
  exact Int.floor_nonneg.mpr hx

theorem intPart_le {x : ℚ} (hx : 0 ≤ x) : (intPart x : ℚ) ≤ x := by
  rw [intPart, if_pos hx]
  exact Int.floor_le x

theorem lt_intPart_add_one {x : ℚ} (hx : 0 ≤ x) : x < intPart x + 1 := by
  rw [intPart, if_pos hx]
  exact Int.lt_floor_add_one x

theorem intPart_mono {x y : ℚ} (hx : 0 ≤ x) (h : x ≤ y) : intPart x ≤ intPart y := by
  rw [intPart, intPart, if_pos hx, if_pos (hx.trans h)]
  exact Int.floor_mono h

namespace OnGrid

variable {p q : ℤ} {x y : ℚ}

theorem zero (p : ℤ) : OnGrid p 0 := ⟨0, by simp⟩

theorem add (hx : OnGrid p x) (hy : OnGrid p y) : OnGrid p (x + y) := by
  obtain ⟨m, hm⟩ := hx
  obtain ⟨n, hn⟩ := hy
  exact ⟨m + n, by push_cast; rw [add_mul, hm, hn]⟩

theorem neg (hx : OnGrid p x) : OnGrid p (-x) := by
  obtain ⟨m, hm⟩ := hx
  exact ⟨-m, by push_cast; rw [neg_mul, hm]⟩

theorem sub (hx : OnGrid p x) (hy : OnGrid p y) : OnGrid p (x - y) := by
  rw [sub_eq_add_neg]
  exact hx.add hy.neg

theorem mul (hx : OnGrid p x) (hy : OnGrid q y) : OnGrid (p + q) (x * y) := by
  obtain ⟨m, hm⟩ := hx
  obtain ⟨n, hn⟩ := hy
  refine ⟨m * n, ?_⟩
  rw [zpow_add₀ (by norm_num : (10 : ℚ) ≠ 0)]
  push_cast
  rw [← hm, ← hn]
  ring

theorem min (hx : OnGrid p x) (hy : OnGrid p y) : OnGrid p (min x y) := by
  rcases min_choice x y with h | h <;> rw [h] <;> assumption

/-- A coarse grid lies inside every finer one. -/
theorem mono (hx : OnGrid p x) (h : p ≤ q) : OnGrid q x := by
  obtain ⟨m, hm⟩ := hx
  obtain ⟨k, rfl⟩ := Int.le.dest h
  refine ⟨m * 10 ^ k, ?_⟩
  rw [zpow_add₀ (by norm_num : (10 : ℚ) ≠ 0), ← mul_assoc, hm]
  push_cast
  rfl

end OnGrid

theorem truncTo_of_onGrid {p : ℤ} {x : ℚ} (hx : OnGrid p x) : truncTo p x = x := by
  obtain ⟨n, hn⟩ := hx
  rw [truncTo, hn, intPart_intCast, ← hn, mul_div_cancel_right₀ _ (ten_zpow_ne p)]

theorem onGrid_truncTo (p : ℤ) (x : ℚ) : OnGrid p (truncTo p x) :=
  ⟨intPart (x * 10 ^ p), by rw [truncTo, div_mul_cancel₀ _ (ten_zpow_ne p)]⟩

theorem truncTo_nonneg (p : ℤ) {x : ℚ} (hx : 0 ≤ x) : 0 ≤ truncTo p x := by
  have h : 0 ≤ intPart (x * 10 ^ p) := intPart_nonneg (mul_nonneg hx (ten_zpow_pos p).le)
  exact div_nonneg (by exact_mod_cast h) (ten_zpow_pos p).le

theorem truncTo_le (p : ℤ) {x : ℚ} (hx : 0 ≤ x) : truncTo p x ≤ x := by
  rw [truncTo, div_le_iff₀ (ten_zpow_pos p)]
  exact intPart_le (mul_nonneg hx (ten_zpow_pos p).le)

/-- Truncation moves a number by less than one unit of the last place kept. -/
theorem lt_truncTo_add (p : ℤ) {x : ℚ} (hx : 0 ≤ x) : x < truncTo p x + 1 / 10 ^ p := by
  have h := lt_intPart_add_one (mul_nonneg hx (ten_zpow_pos p).le)
  rw [truncTo, ← add_div, lt_div_iff₀ (ten_zpow_pos p)]
  exact h

theorem truncTo_mono (p : ℤ) {x y : ℚ} (hx : 0 ≤ x) (h : x ≤ y) : truncTo p x ≤ truncTo p y := by
  have hpow := (ten_zpow_pos p).le
  refine div_le_div_of_nonneg_right ?_ hpow
  exact_mod_cast intPart_mono (mul_nonneg hx hpow) (mul_le_mul_of_nonneg_right h hpow)

theorem intPart_neg (x : ℚ) : intPart (-x) = -intPart x := by
  rcases lt_trichotomy x 0 with hx | rfl | hx
  · rw [intPart, intPart, if_pos (by linarith), if_neg (by linarith), Int.floor_neg]
  · simp [intPart]
  · rw [intPart, intPart, if_neg (by linarith), if_pos hx.le, Int.ceil_neg]

theorem truncTo_neg (p : ℤ) (x : ℚ) : truncTo p (-x) = -truncTo p x := by
  rw [truncTo, truncTo, neg_mul, intPart_neg]
  push_cast
  ring

/-- Truncation moves a number towards zero. -/
theorem abs_truncTo_le (p : ℤ) (x : ℚ) : |truncTo p x| ≤ |x| := by
  rcases le_total 0 x with hx | hx
  · rw [abs_of_nonneg hx, abs_of_nonneg (truncTo_nonneg p hx)]
    exact truncTo_le p hx
  · have hneg : 0 ≤ -x := neg_nonneg.mpr hx
    rw [← abs_neg x, ← abs_neg, ← truncTo_neg, abs_of_nonneg hneg,
      abs_of_nonneg (truncTo_nonneg p hneg)]
    exact truncTo_le p hneg

/-- Moving the point moves the digits with it. -/
theorem truncTo_scale (p k : ℤ) (x : ℚ) : truncTo (p - k) (x * 10 ^ k) = truncTo p x * 10 ^ k := by
  have hpow : x * 10 ^ k * 10 ^ (p - k) = x * 10 ^ p := by
    rw [mul_assoc, ← zpow_add₀ (by norm_num : (10 : ℚ) ≠ 0), add_sub_cancel]
  rw [truncTo, truncTo, hpow, zpow_sub₀ (by norm_num : (10 : ℚ) ≠ 0), div_div_eq_mul_div,
    div_mul_eq_mul_div]

/-! ## Rounding to significant digits -/

/-- Keep the `n` leading significant digits. -/
def roundDown (n : ℕ) (x : ℚ) : ℚ := truncTo (n - 1 - Int.log 10 |x|) x

@[simp] theorem roundDown_zero (n : ℕ) : roundDown n 0 = 0 := by
  simp [roundDown, truncTo, intPart]

theorem roundDown_nonneg (n : ℕ) {x : ℚ} (hx : 0 ≤ x) : 0 ≤ roundDown n x :=
  truncTo_nonneg _ hx

theorem roundDown_le (n : ℕ) {x : ℚ} (hx : 0 ≤ x) : roundDown n x ≤ x :=
  truncTo_le _ hx

/-- The leading digit survives, so rounding never reaches zero. -/
theorem roundDown_pos {n : ℕ} (hn : 0 < n) {x : ℚ} (hx : 0 < x) : 0 < roundDown n x := by
  have hlog : (10 : ℚ) ^ Int.log 10 |x| ≤ x := by
    have h := Int.zpow_log_le_self (R := ℚ) (b := 10) (by norm_num) (abs_pos.mpr hx.ne')
    rwa [abs_of_pos hx] at h ⊢
  have hone : 1 ≤ x * 10 ^ ((n : ℤ) - 1 - Int.log 10 |x|) := by
    rw [zpow_sub₀ (by norm_num : (10 : ℚ) ≠ 0), mul_div_assoc', le_div_iff₀ (ten_zpow_pos _),
      one_mul]
    have hge : (1 : ℚ) ≤ 10 ^ ((n : ℤ) - 1) := one_le_zpow₀ (by norm_num) (by omega)
    nlinarith
  have hpart : 1 ≤ intPart (x * 10 ^ ((n : ℤ) - 1 - Int.log 10 |x|)) := by
    rw [intPart, if_pos (by linarith), Int.le_floor]
    exact_mod_cast hone
  exact div_pos (by exact_mod_cast hpart) (ten_zpow_pos _)

theorem roundDown_neg (n : ℕ) (x : ℚ) : roundDown n (-x) = -roundDown n x := by
  rw [roundDown, roundDown, abs_neg, truncTo_neg]

theorem log_scale {x : ℚ} (hx : 0 < x) (k : ℤ) :
    Int.log 10 (x * 10 ^ k) = Int.log 10 x + k := by
  have hxk : 0 < x * 10 ^ k := mul_pos hx (ten_zpow_pos k)
  have hle := Int.zpow_log_le_self (R := ℚ) (b := 10) (by norm_num) hx
  have hlt := Int.lt_zpow_succ_log_self (R := ℚ) (b := 10) (by norm_num) x
  apply le_antisymm
  · refine Int.lt_add_one_iff.mp ((Int.lt_zpow_iff_log_lt (by norm_num) hxk).mp ?_)
    push_cast
    rw [add_right_comm, zpow_add₀ (by norm_num : (10 : ℚ) ≠ 0)]
    exact mul_lt_mul_of_pos_right (by exact_mod_cast hlt) (ten_zpow_pos k)
  · refine (Int.zpow_le_iff_le_log (by norm_num) hxk).mp ?_
    push_cast
    rw [zpow_add₀ (by norm_num : (10 : ℚ) ≠ 0)]
    exact mul_le_mul_of_nonneg_right (by exact_mod_cast hle) (ten_zpow_pos k).le

theorem roundDown_scale (n : ℕ) (x : ℚ) (k : ℤ) :
    roundDown n (x * 10 ^ k) = roundDown n x * 10 ^ k := by
  rcases eq_or_ne x 0 with rfl | hx
  · simp
  · rw [roundDown, roundDown, abs_mul, abs_of_pos (ten_zpow_pos k), log_scale (abs_pos.mpr hx),
      ← sub_sub, truncTo_scale]

/-- A number on a grid that has no more than `n` digits is kept. -/
theorem roundDown_of_onGrid {n : ℕ} {p : ℤ} {x : ℚ} (hx : OnGrid p x)
    (h : |x| < 10 ^ (n - p)) : roundDown n x = x := by
  rcases eq_or_ne x 0 with rfl | hne
  · simp
  · refine truncTo_of_onGrid (hx.mono ?_)
    have hlog := (Int.lt_zpow_iff_log_lt (b := 10) (by norm_num) (abs_pos.mpr hne)).mp
      (by exact_mod_cast h)
    omega

/-- A running sum of numbers that are not negative loses no digit when its end loses none. -/
theorem foldl_add_exact {round : ℚ → ℚ} {p : ℤ} {B b : ℚ} {xs : List ℚ}
    (hround : ∀ y, OnGrid p y → |y| ≤ B → round y = y) (hxs : ∀ x ∈ xs, 0 ≤ x ∧ OnGrid p x)
    (hb : 0 ≤ b) (hgrid : OnGrid p b) (hle : b + xs.sum ≤ B) :
    xs.foldl (fun acc x => round (acc + x)) b = b + xs.sum := by
  induction xs generalizing b with
  | nil => simp
  | cons x xs ih =>
    obtain ⟨⟨hx, hxgrid⟩, hxs⟩ := List.forall_mem_cons.mp hxs
    have hrest : 0 ≤ xs.sum := List.sum_nonneg fun y hy => (hxs y hy).1
    rw [List.sum_cons, ← add_assoc] at hle
    have hbx : 0 ≤ b + x := add_nonneg hb hx
    have hkeep : round (b + x) = b + x :=
      hround _ (hgrid.add hxgrid) ((abs_of_nonneg hbx).trans_le (by linarith))
    rw [List.foldl_cons, hkeep, ih hxs hbx (hgrid.add hxgrid) hle, List.sum_cons, add_assoc]

/-- A rounded number has no more than `n` digits. -/
theorem roundDown_idem (n : ℕ) (x : ℚ) : roundDown n (roundDown n x) = roundDown n x := by
  have hpos : ∀ y, 0 ≤ y → roundDown n (roundDown n y) = roundDown n y := fun y hy => by
    rcases hy.eq_or_lt with rfl | hy
    · simp
    · refine roundDown_of_onGrid (onGrid_truncTo _ _) ?_
      have hlt := Int.lt_zpow_succ_log_self (R := ℚ) (b := 10) (by norm_num) |y|
      have hexp : (n : ℤ) - (n - 1 - Int.log 10 |y|) = Int.log 10 |y| + 1 := by ring
      rw [hexp, abs_of_nonneg (roundDown_nonneg n hy.le)]
      calc roundDown n y ≤ y := roundDown_le n hy.le
        _ ≤ |y| := le_abs_self y
        _ < 10 ^ (Int.log 10 |y| + 1) := by exact_mod_cast hlt
  rcases le_total 0 x with hx | hx
  · exact hpos x hx
  · have hneg := hpos (-x) (neg_nonneg.mpr hx)
    rw [roundDown_neg, roundDown_neg] at hneg
    exact neg_injective hneg

theorem roundDown_mono {n : ℕ} (hn : 0 < n) {x y : ℚ} (hx : 0 ≤ x) (h : x ≤ y) :
    roundDown n x ≤ roundDown n y := by
  rcases hx.eq_or_lt with rfl | hpos
  · rw [roundDown_zero]
    exact roundDown_nonneg n h
  have hy := hpos.trans_le h
  have hlog : Int.log 10 x ≤ Int.log 10 y := Int.log_mono_right hpos h
  rcases hlog.eq_or_lt with heq | hlt
  · rw [roundDown, roundDown, abs_of_pos hpos, abs_of_pos hy, heq]
    exact truncTo_mono _ hx h
  · have hx' := Int.lt_zpow_succ_log_self (R := ℚ) (b := 10) (by norm_num) x
    have hy' := Int.zpow_log_le_self (R := ℚ) (b := 10) (by norm_num) hy
    have hgrid : OnGrid (n - 1 - Int.log 10 y) (10 ^ Int.log 10 y) := by
      obtain ⟨k, rfl⟩ := Nat.exists_eq_succ_of_ne_zero hn.ne'
      refine ⟨10 ^ k, ?_⟩
      rw [← zpow_add₀ (by norm_num : (10 : ℚ) ≠ 0), add_sub_cancel]
      push_cast
      rw [add_sub_cancel_right, zpow_natCast]
    calc
      roundDown n x ≤ x := roundDown_le n hx
      _ ≤ 10 ^ (Int.log 10 x + 1) := by exact_mod_cast hx'.le
      _ ≤ 10 ^ Int.log 10 y := zpow_le_zpow_right₀ (by norm_num) hlt
      _ = truncTo (n - 1 - Int.log 10 y) (10 ^ Int.log 10 y) := (truncTo_of_onGrid hgrid).symm
      _ ≤ roundDown n y := by
        rw [roundDown, abs_of_pos hy]
        exact truncTo_mono _ (ten_zpow_pos _).le (by exact_mod_cast hy')

/-! ## Ticks -/

/-- The least positive number on a grid. -/
theorem unit_le_of_onGrid {p : ℤ} {x : ℚ} (hx : OnGrid p x) (hpos : 0 < x) : 10 ^ (-p) ≤ x := by
  obtain ⟨n, hn⟩ := hx
  have hn0 : (0 : ℚ) < n := hn ▸ mul_pos hpos (ten_zpow_pos p)
  have hn1 : (1 : ℚ) ≤ n := by exact_mod_cast hn0
  rw [zpow_neg, inv_eq_one_div, div_le_iff₀ (ten_zpow_pos p), hn]
  exact hn1

theorem onGrid_unit (p : ℤ) : OnGrid p (10 ^ (-p)) :=
  ⟨1, by rw [← zpow_add₀ (by norm_num : (10 : ℚ) ≠ 0), neg_add_cancel]; norm_num⟩

/-- A unit has a single digit. -/
theorem roundDown_unit {n : ℕ} (hn : 0 < n) (p : ℤ) : roundDown n (10 ^ (-p)) = 10 ^ (-p) := by
  refine roundDown_of_onGrid (onGrid_unit p) ?_
  rw [abs_of_pos (ten_zpow_pos _)]
  exact zpow_lt_zpow_right₀ (by norm_num) (by omega)

/-- What is on the grid stays below the truncated number. -/
theorem le_truncTo_of_onGrid {p : ℤ} {x y : ℚ} (hy : OnGrid p y) (hx : 0 ≤ x) (h : y ≤ x) :
    y ≤ truncTo p x := by
  rcases le_total y 0 with hneg | hpos
  · exact hneg.trans (truncTo_nonneg p hx)
  · rw [← truncTo_of_onGrid hy]
    exact truncTo_mono p hpos h

/-- A positive amount on the grid is not cut to zero. -/
theorem truncTo_roundDown_pos {n : ℕ} (hn : 0 < n) {p : ℤ} {x : ℚ} (hx : OnGrid p x)
    (hpos : 0 < x) :
    0 < truncTo p (roundDown n x) := by
  have hunit : (0 : ℚ) < 10 ^ (-p) := ten_zpow_pos _
  have hle : 10 ^ (-p) ≤ roundDown n x := by
    rw [← roundDown_unit hn p]
    exact roundDown_mono hn hunit.le (unit_le_of_onGrid hx hpos)
  exact hunit.trans_le (le_truncTo_of_onGrid (onGrid_unit p) (roundDown_nonneg n hpos.le) hle)

/-- Rounding stays on the grid. -/
theorem OnGrid.roundDown {p : ℤ} {x : ℚ} (hx : OnGrid p x) (n : ℕ) : OnGrid p (roundDown n x) := by
  rcases lt_or_ge |x| (10 ^ ((n : ℤ) - p)) with hlt | hge
  · rwa [roundDown_of_onGrid hx hlt]
  · have hpos : 0 < |x| := (ten_zpow_pos _).trans_le hge
    have hlog : (n : ℤ) - p ≤ Int.log 10 |x| :=
      (Int.zpow_le_iff_le_log (b := 10) (by norm_num) hpos).mp (by exact_mod_cast hge)
    exact (onGrid_truncTo _ _).mono (by omega)

/-- Rounding first makes no difference to the ticks if they have no more than `n` digits. -/
theorem truncTo_roundDown {n : ℕ} (hn : 0 < n) (p : ℤ) {x : ℚ} (hx : 0 ≤ x) :
    truncTo p (roundDown n x) = truncTo p x ↔ roundDown n (truncTo p x) = truncTo p x := by
  have htrunc : 0 ≤ truncTo p x := truncTo_nonneg p hx
  constructor
  · intro h
    rcases hx.eq_or_lt with rfl | hpos
    · rw [truncTo_of_onGrid (OnGrid.zero p), roundDown_zero]
    rcases le_total p (n - 1 - Int.log 10 |x|) with hp | hp
    · refine roundDown_of_onGrid (onGrid_truncTo p x) ?_
      have hlog := Int.lt_zpow_succ_log_self (R := ℚ) (b := 10) (by norm_num) |x|
      rw [abs_of_nonneg htrunc]
      calc truncTo p x ≤ x := truncTo_le p hx
        _ ≤ |x| := le_abs_self x
        _ < 10 ^ (Int.log 10 |x| + 1) := by exact_mod_cast hlog
        _ ≤ 10 ^ ((n : ℤ) - p) := zpow_le_zpow_right₀ (by norm_num) (by omega)
    · have hgrid : OnGrid p (roundDown n x) := (onGrid_truncTo _ x).mono hp
      rw [← h, truncTo_of_onGrid hgrid, roundDown_idem]
  · intro h
    apply le_antisymm (truncTo_mono p (roundDown_nonneg n hx) (roundDown_le n hx))
    refine le_truncTo_of_onGrid (onGrid_truncTo p x) (roundDown_nonneg n hx) ?_
    rw [← h]
    exact roundDown_mono hn htrunc (truncTo_le p hx)

end ViabtcExchange
