import ViabtcExchange.Lib.Rounding

/-!
# Decimals (`ut_decimal.c`)

The engine computes with libmpdec numbers in one global context, `mpd_ctx`: 34 digits, rounding
towards zero. `Mpd D` is that library as the engine sees it, over any type `D` of numbers: every
definition of the engine takes it as a parameter, and calls `mpd.add`, `mpd.cmp`, … where the
source calls `mpd_add(…, &mpd_ctx)`.

Two instances are used. Both represent a finite number by its value, a rational, so that their
sums and products are the exact ones followed by the rounding of the context:

* `decimal128` — the context of `init_mpd`, 34 digits, `MPD_ROUND_DOWN`;
* `exactDecimal` — the same operations without rounding.

Exponents are unbounded here, so a result never over- or underflows.
-/

namespace ViabtcExchange

/-- The operations of libmpdec that the engine uses, in the context `mpd_ctx`. -/
structure Mpd (D : Type) where
  zero : D
  one : D
  /-- `mpd_set_string`, `none` when the status is `MPD_Conversion_syntax`. -/
  setString : String → Option D
  add : D → D → D
  sub : D → D → D
  mul : D → D → D
  div : D → D → D
  /-- Negative, zero or positive; `INT_MAX` when an operand is a NaN. -/
  cmp : D → D → ℤ
  /-- `mpd_rescale a exp`: the number with exponent `exp`, rounded as the context says but not
  to its precision. -/
  rescale : D → ℤ → D
  abs : D → D
  /-- `mpd_copy_negate`. -/
  negate : D → D
  /-- `mpd_pow(mpd_ten, n)`. -/
  powTen : ℤ → D
  /-- How many rounds of a loop without a bound of its own are followed. -/
  fuel : ℕ

/-- The end of `decimal`: cut a number to `prec` digits, unless `prec` is zero. -/
def Mpd.cut {D : Type} (mpd : Mpd D) (r : D) (prec : ℕ) : D :=
  if prec = 0 then r else mpd.rescale r (-prec)

def Mpd.decimal {D : Type} (mpd : Mpd D) (str : String) (prec : ℕ) : Option D :=
  (mpd.setString str).map fun r => mpd.cut r prec

/-! ## Reading a finite number -/

/-- A run of digits as a number. -/
def readNat (cs : List Char) : Option ℕ :=
  if cs.all Char.isDigit then
    some (cs.foldl (fun n c => 10 * n + (c.toNat - '0'.toNat)) 0)
  else none

/-- Split off a sign. -/
def readSign : List Char → Bool × List Char
  | '-' :: cs => (true, cs)
  | '+' :: cs => (false, cs)
  | cs => (false, cs)

/-- The exponent part: nothing, or a sign and at least one digit. -/
def readExponent : List Char → Option ℤ
  | [] => some 0
  | _ :: cs =>
    let (neg, digits) := readSign cs
    if digits = [] then none
    else (readNat digits).map fun n => if neg then -(n : ℤ) else n

/-- Digits, a point and digits, at least one digit in all. -/
def readCoefficient (cs : List Char) : Option ℚ :=
  let whole := cs.takeWhile (· ≠ '.')
  let frac := (cs.dropWhile (· ≠ '.')).drop 1
  if whole = [] ∧ frac = [] then none
  else do
    let w ← readNat whole
    let f ← readNat frac
    return w + f / 10 ^ frac.length

/-- The value of a finite decimal in the syntax of `mpd_set_string`. -/
def readDecimal (str : String) : Option ℚ := do
  let (neg, cs) := readSign str.toList
  let isExp : Char → Bool := fun c => c = 'e' || c = 'E'
  let x ← readCoefficient (cs.takeWhile fun c => !isExp c)
  let e ← readExponent (cs.dropWhile fun c => !isExp c)
  return (if neg then -x else x) * 10 ^ e

/-! ## Numbers by value -/

/-- libmpdec on finite numbers, given by their values, in a context that rounds with `round`. -/
def ratMpd (round : ℚ → ℚ) : Mpd ℚ where
  zero := 0
  one := 1
  setString str := (readDecimal str).map round
  add a b := round (a + b)
  sub a b := round (a - b)
  mul a b := round (a * b)
  div a b := round (a / b)
  cmp a b := if a < b then -1 else if a = b then 0 else 1
  rescale a e := truncTo (-e) a
  abs a := round |a|
  negate a := -a
  powTen n := 10 ^ n
  fuel := 1000

/-- `mpd_ctx` as `init_mpd` sets it up: `MPD_DECIMAL128` with `MPD_ROUND_DOWN`. -/
abbrev decimal128 : Mpd ℚ := ratMpd (roundDown 34)

/-- The same operations, exact. -/
abbrev exactDecimal : Mpd ℚ := ratMpd id

section Value

variable (round : ℚ → ℚ) (a b : ℚ) (e : ℤ)

@[simp] theorem ratMpd_zero : (ratMpd round).zero = 0 := rfl
@[simp] theorem ratMpd_one : (ratMpd round).one = 1 := rfl
@[simp] theorem ratMpd_add : (ratMpd round).add a b = round (a + b) := rfl
@[simp] theorem ratMpd_sub : (ratMpd round).sub a b = round (a - b) := rfl
@[simp] theorem ratMpd_mul : (ratMpd round).mul a b = round (a * b) := rfl
@[simp] theorem ratMpd_div : (ratMpd round).div a b = round (a / b) := rfl
@[simp] theorem ratMpd_rescale : (ratMpd round).rescale a e = truncTo (-e) a := rfl
@[simp] theorem ratMpd_abs : (ratMpd round).abs a = round |a| := rfl
@[simp] theorem ratMpd_negate : (ratMpd round).negate a = -a := rfl

@[simp] theorem ratMpd_cmp_lt : (ratMpd round).cmp a b < 0 ↔ a < b := by
  simp only [ratMpd]
  split_ifs with h <;> simp_all

@[simp] theorem ratMpd_cmp_eq : (ratMpd round).cmp a b = 0 ↔ a = b := by
  simp only [ratMpd]
  split_ifs with h h'
  · simp [h.ne]
  · simp [h']
  · simp [h']

@[simp] theorem ratMpd_cmp_le : (ratMpd round).cmp a b ≤ 0 ↔ a ≤ b := by
  rw [le_iff_lt_or_eq, ratMpd_cmp_lt, ratMpd_cmp_eq, le_iff_lt_or_eq]

@[simp] theorem ratMpd_cmp_pos : 0 < (ratMpd round).cmp a b ↔ b < a := by
  rw [← not_le, ratMpd_cmp_le, not_le]

@[simp] theorem ratMpd_cmp_nonneg : 0 ≤ (ratMpd round).cmp a b ↔ b ≤ a := by
  rw [← not_lt, ratMpd_cmp_lt, not_lt]

end Value

/-! ## Rounding towards zero -/

/-- A rounding towards zero that never reaches it. -/
structure RoundsDown (round : ℚ → ℚ) : Prop where
  zero : round 0 = 0
  pos : ∀ x, 0 < x → 0 < round x
  le : ∀ x, 0 ≤ x → round x ≤ x
  neg : ∀ x, round (-x) = -round x

theorem roundsDown_id : RoundsDown id := ⟨rfl, fun _ h => h, fun _ _ => le_rfl, fun _ => rfl⟩

theorem roundsDown_roundDown : RoundsDown (roundDown 34) :=
  ⟨roundDown_zero 34, fun _ h => roundDown_pos (by norm_num) h, fun _ h => roundDown_le 34 h,
    roundDown_neg 34⟩

theorem RoundsDown.nonneg {round : ℚ → ℚ} (h : RoundsDown round) {x : ℚ} (hx : 0 ≤ x) :
    0 ≤ round x := by
  rcases hx.lt_or_eq with hx | rfl
  · exact (h.pos x hx).le
  · exact h.zero.ge

theorem RoundsDown.nonpos {round : ℚ → ℚ} (h : RoundsDown round) {x : ℚ} (hx : x ≤ 0) :
    round x ≤ 0 := by
  have hneg := h.nonneg (neg_nonneg.mpr hx)
  rw [h.neg] at hneg
  exact neg_nonneg.mp hneg

/-- A rounding towards zero to a number of significant digits: it keeps the order, and does not
mind where the point is. -/
structure RoundsDigits (round : ℚ → ℚ) : Prop extends RoundsDown round where
  mono : ∀ x y, 0 ≤ x → x ≤ y → round x ≤ round y
  scale : ∀ x (k : ℤ), round (x * 10 ^ k) = round x * 10 ^ k

theorem roundsDigits_id : RoundsDigits id := ⟨roundsDown_id, fun _ _ _ h => h, fun _ _ => rfl⟩

theorem roundsDigits_roundDown : RoundsDigits (roundDown 34) :=
  ⟨roundsDown_roundDown, fun _ _ => roundDown_mono (by norm_num), roundDown_scale 34⟩

/-- Only zero is rounded to zero. -/
theorem RoundsDown.eq_zero {round : ℚ → ℚ} (h : RoundsDown round) {x : ℚ} (hx : 0 ≤ x)
    (h0 : round x = 0) : x = 0 := by
  rcases hx.lt_or_eq with hx | hx
  · exact absurd h0 (h.pos x hx).ne'
  · exact hx.symm

end ViabtcExchange
