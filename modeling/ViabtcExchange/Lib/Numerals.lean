import ViabtcExchange.Lib.Rounding
import Mathlib.Data.List.DropRight

/-!
# Decimal numerals

A `Numeral` is how a finite decimal is written: a sign, digits, a point with more digits behind it
if there are any, and behind an `e` the exponent if there is one. Zeros at the end of the digits
behind the point do not count (`value_trim`), those before the point and in the exponent do.

A `FiniteDecimal` is a number as decimal arithmetic keeps it: a sign, a coefficient and an exponent.
`FiniteDecimal.scientific` writes it down, plainly unless the exponent is positive or the number
is very small, and else with one digit before the point. Nothing is lost (`value_scientific`).
-/

namespace ViabtcExchange

/-- A number or its opposite. -/
def signed (neg : Bool) (x : ℚ) : ℚ := if neg then -x else x

/-- The number that digits write. -/
def digitsNat (cs : List Char) : ℕ := Nat.ofDigitChars 10 cs 0

@[simp] theorem digitsNat_toDigits (n : ℕ) : digitsNat (Nat.toDigits 10 n) = n :=
  Nat.ofDigitChars_ten_toDigits

@[simp] theorem digitsNat_replicate (n : ℕ) : digitsNat (List.replicate n '0') = 0 := by
  simp [digitsNat]

theorem digitsNat_append (cs ds : List Char) :
    digitsNat (cs ++ ds) = 10 ^ ds.length * digitsNat cs + digitsNat ds := by
  unfold digitsNat
  rw [Nat.ofDigitChars_append, Nat.ofDigitChars_eq_ofDigitChars_zero]

/-- Where the point stands does not matter to the digits. -/
theorem digitsNat_point (cs ds : List Char) :
    (digitsNat cs + digitsNat ds / 10 ^ ds.length : ℚ) = digitsNat (cs ++ ds) / 10 ^ ds.length := by
  have hpow : (10 : ℚ) ^ ds.length ≠ 0 := pow_ne_zero _ (by norm_num)
  rw [digitsNat_append, eq_div_iff hpow, add_mul, div_mul_cancel₀ _ hpow]
  push_cast
  ring

/-- Zeros at the end move the point. -/
theorem digitsNat_zeros (cs : List Char) (n : ℕ) :
    (digitsNat (cs ++ List.replicate n '0') : ℚ) / 10 ^ (cs.length + n) =
      digitsNat cs / 10 ^ cs.length := by
  have hpow : (10 : ℚ) ^ n ≠ 0 := pow_ne_zero _ (by norm_num)
  rw [digitsNat_append, digitsNat_replicate, List.length_replicate, pow_add, add_zero]
  push_cast
  rw [mul_comm ((10 : ℚ) ^ n), mul_div_mul_right _ _ hpow]

/-! ## Numerals -/

structure Numeral where
  neg : Bool
  whole : List Char
  frac : List Char
  exponent : Option (Bool × List Char)
  whole_ne : whole ≠ []
  whole_digits : ∀ c ∈ whole, c.isDigit = true
  frac_digits : ∀ c ∈ frac, c.isDigit = true
  exponent_ne : ∀ e ∈ exponent, e.2 ≠ []
  exponent_digits : ∀ e ∈ exponent, ∀ c ∈ e.2, c.isDigit = true

namespace Numeral

def signChars (neg : Bool) : List Char := if neg then ['-'] else []

def pointChars (frac : List Char) : List Char := if frac = [] then [] else '.' :: frac

def exponentChars : Option (Bool × List Char) → List Char
  | none => []
  | some (neg, ds) => 'e' :: (if neg then '-' else '+') :: ds

def chars (x : Numeral) : List Char :=
  signChars x.neg ++ (x.whole ++ pointChars x.frac ++ exponentChars x.exponent)

def text (x : Numeral) : String := String.ofList x.chars

def power : Option (Bool × List Char) → ℤ
  | none => 0
  | some (neg, ds) => if neg then -(digitsNat ds : ℤ) else digitsNat ds

def value (x : Numeral) : ℚ :=
  signed x.neg (digitsNat x.whole + digitsNat x.frac / 10 ^ x.frac.length) * 10 ^ power x.exponent

/-- Without the zeros at the end of the digits behind the point. -/
def trim (x : Numeral) : Numeral where
  neg := x.neg
  whole := x.whole
  frac := x.frac.rdropWhile (· = '0')
  exponent := x.exponent
  whole_ne := x.whole_ne
  whole_digits := x.whole_digits
  frac_digits c hc := x.frac_digits c ((List.rdropWhile_prefix _ _).subset hc)
  exponent_ne := x.exponent_ne
  exponent_digits := x.exponent_digits

theorem value_trim (x : Numeral) : x.trim.value = x.value := by
  have hsplit : x.frac.rdropWhile (· = '0') ++ x.frac.rtakeWhile (· = '0') = x.frac :=
    List.rdropWhile_append_rtakeWhile
  have hzeros : x.frac.rtakeWhile (· = '0') =
      List.replicate (x.frac.rtakeWhile (· = '0')).length '0' := by
    refine List.eq_replicate_of_mem fun c hc => ?_
    simpa using List.mem_rtakeWhile_imp hc
  have hfrac : (digitsNat x.frac : ℚ) / 10 ^ x.frac.length =
      digitsNat x.trim.frac / 10 ^ x.trim.frac.length := by
    have hlength := congrArg List.length hsplit
    rw [List.length_append] at hlength
    rw [← hlength]
    nth_rewrite 1 [← hsplit]
    rw [hzeros, List.length_replicate]
    exact digitsNat_zeros _ _
  rw [value, value, hfrac]
  rfl

end Numeral

/-! ## Decimals -/

structure FiniteDecimal where
  neg : Bool
  coefficient : ℕ
  exponent : ℤ
deriving DecidableEq, Repr

namespace FiniteDecimal

def value (d : FiniteDecimal) : ℚ := signed d.neg d.coefficient * 10 ^ d.exponent

/-- The digits of the coefficient; that of zero has one. -/
def digits (d : FiniteDecimal) : List Char := Nat.toDigits 10 d.coefficient

theorem digits_ne (d : FiniteDecimal) : d.digits ≠ [] := Nat.toDigits_ne_nil

theorem isDigit_digits {n : ℕ} : ∀ c ∈ Nat.toDigits 10 n, c.isDigit = true :=
  fun _ hc => Nat.isDigit_of_mem_toDigits (by norm_num) le_rfl hc

/-- The digits, with as many zeros before them as `n` digits behind the point call for. -/
def padded (d : FiniteDecimal) (n : ℕ) : List Char :=
  List.replicate (n + 1 - d.digits.length) '0' ++ d.digits

theorem lt_length_padded (d : FiniteDecimal) (n : ℕ) : n < (d.padded n).length := by
  rw [padded, List.length_append, List.length_replicate]
  omega

theorem isDigit_padded (d : FiniteDecimal) (n : ℕ) : ∀ c ∈ d.padded n, c.isDigit = true := by
  intro c hc
  rcases List.mem_append.mp hc with hc | hc
  · rw [List.eq_of_mem_replicate hc]
    rfl
  · exact isDigit_digits c hc

/-- With `n` digits behind the point and no exponent. -/
def plain (d : FiniteDecimal) (n : ℕ) : Numeral where
  neg := d.neg
  whole := (d.padded n).take ((d.padded n).length - n)
  frac := (d.padded n).drop ((d.padded n).length - n)
  exponent := none
  whole_ne h := by
    have hlen := d.lt_length_padded n
    have htake := congrArg List.length h
    rw [List.length_take, List.length_nil] at htake
    omega
  whole_digits c hc := d.isDigit_padded n c (List.mem_of_mem_take hc)
  frac_digits c hc := d.isDigit_padded n c (List.mem_of_mem_drop hc)
  exponent_ne _ h := (nomatch h)
  exponent_digits _ h := (nomatch h)

/-- With one digit before the point and an exponent. -/
def withExponent (d : FiniteDecimal) (adjusted : ℤ) : Numeral where
  neg := d.neg
  whole := d.digits.take 1
  frac := d.digits.drop 1
  exponent := some (adjusted < 0, Nat.toDigits 10 adjusted.natAbs)
  whole_ne h := by
    rcases List.take_eq_nil_iff.mp h with h | h
    · exact absurd h one_ne_zero
    · exact d.digits_ne h
  whole_digits c hc := isDigit_digits c (List.mem_of_mem_take hc)
  frac_digits c hc := isDigit_digits c (List.mem_of_mem_drop hc)
  exponent_ne e he := by
    cases he
    exact Nat.toDigits_ne_nil
  exponent_digits e he := by
    cases he
    exact isDigit_digits

/-- The exponent of the first digit decides how a number is written. -/
def scientific (d : FiniteDecimal) : Numeral :=
  let adjusted := d.exponent + (d.digits.length - 1)
  if d.exponent ≤ 0 ∧ -6 ≤ adjusted then d.plain (-d.exponent).toNat else d.withExponent adjusted

theorem digitsNat_digits (d : FiniteDecimal) : digitsNat d.digits = d.coefficient :=
  digitsNat_toDigits _

theorem digitsNat_padded (d : FiniteDecimal) (n : ℕ) : digitsNat (d.padded n) = d.coefficient := by
  rw [padded, digitsNat_append, digitsNat_digits, digitsNat_replicate, mul_zero, zero_add]

theorem signed_mul (neg : Bool) (x y : ℚ) : signed neg (x * y) = signed neg x * y := by
  unfold signed
  split_ifs
  · rw [neg_mul]
  · rfl

theorem value_plain (d : FiniteDecimal) (h : d.exponent ≤ 0) :
    (d.plain (-d.exponent).toNat).value = d.value := by
  have hlen := d.lt_length_padded (-d.exponent).toNat
  have hfrac : (d.plain (-d.exponent).toNat).frac.length = (-d.exponent).toNat := by
    show (List.drop _ _).length = _
    rw [List.length_drop]
    omega
  have hpow : (10 : ℚ) ^ d.exponent = (10 ^ (-d.exponent).toNat)⁻¹ := by
    rw [← zpow_natCast, ← zpow_neg, Int.toNat_of_nonneg (by omega), neg_neg]
  rw [Numeral.value, digitsNat_point, hfrac]
  show signed d.neg (digitsNat (List.take _ _ ++ List.drop _ _) / _) * 10 ^ (0 : ℤ) = _
  rw [List.take_append_drop, digitsNat_padded, div_eq_mul_inv, signed_mul, zpow_zero, mul_one,
    value, hpow]

theorem power_toDigits (n : ℤ) : Numeral.power (some (n < 0, Nat.toDigits 10 n.natAbs)) = n := by
  simp only [Numeral.power, digitsNat_toDigits, decide_eq_true_eq]
  split_ifs <;> omega

theorem value_withExponent (d : FiniteDecimal) :
    (d.withExponent (d.exponent + (d.digits.length - 1))).value = d.value := by
  have hlen := List.length_pos_iff.mpr d.digits_ne
  have hpow : (10 : ℚ) ^ (d.exponent + ((d.digits.length : ℤ) - 1)) =
      10 ^ d.exponent * 10 ^ (d.digits.length - 1) := by
    rw [zpow_add₀ (by norm_num), ← zpow_natCast, Nat.cast_sub hlen, Nat.cast_one]
  have hne : (10 : ℚ) ^ (d.digits.length - 1) ≠ 0 := pow_ne_zero _ (by norm_num)
  rw [Numeral.value, digitsNat_point]
  show signed d.neg (digitsNat (List.take 1 d.digits ++ List.drop 1 d.digits) /
    10 ^ (d.digits.drop 1).length) * 10 ^ Numeral.power (some _) = _
  rw [List.take_append_drop, digitsNat_digits, power_toDigits, hpow, List.length_drop,
    div_eq_mul_inv, signed_mul, mul_assoc, mul_comm ((10 : ℚ) ^ d.exponent),
      inv_mul_cancel_left₀ hne,
    value]

/-- **A number is what is written of it.** -/
theorem value_scientific (d : FiniteDecimal) : d.scientific.value = d.value := by
  unfold scientific
  simp only
  split_ifs with h
  · exact d.value_plain h.1
  · exact d.value_withExponent

/-- A number of at most `n` digits is kept by a rounding to `n` digits. -/
theorem roundDown_value {n : ℕ} {d : FiniteDecimal} (h : d.digits.length ≤ n) :
    roundDown n d.value = d.value := by
  have hgrid : OnGrid (-d.exponent) d.value := by
    refine ⟨if d.neg then -d.coefficient else d.coefficient, ?_⟩
    rw [value, mul_assoc, ← zpow_add₀ (by norm_num), add_neg_cancel, zpow_zero, mul_one, signed]
    split_ifs <;> simp
  have hn : 0 < n := (List.length_pos_iff.mpr d.digits_ne).trans_le h
  have hcoefficient : d.coefficient < 10 ^ n :=
    (Nat.length_toDigits_le_iff (by norm_num) hn).mp h
  refine roundDown_of_onGrid hgrid ?_
  have habs : |d.value| = d.coefficient * 10 ^ d.exponent := by
    rw [value, abs_mul, abs_of_pos (ten_zpow_pos _), signed]
    split_ifs <;> simp
  rw [habs, sub_neg_eq_add, zpow_add₀ (by norm_num), zpow_natCast]
  exact mul_lt_mul_of_pos_right (by exact_mod_cast hcoefficient) (ten_zpow_pos _)

end FiniteDecimal

end ViabtcExchange
