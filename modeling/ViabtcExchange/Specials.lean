import ViabtcExchange.Decimal

/-!
# Infinities and NaNs

`mpd_set_string` reads "Infinity" and "NaN" as well as numbers, and the operations of libmpdec carry
them on. `specialMpd` is the library with these values: on finite numbers it is `ratMpd`, otherwise
it follows the rules of the decimal arithmetic libmpdec implements. A NaN has no sign and no payload
here, and zero has no sign.
-/

namespace ViabtcExchange

/-- The value of a number of libmpdec. -/
inductive Special
  | finite (x : ℚ)
  | infinity (neg : Bool)
  | nan
deriving DecidableEq, Repr

namespace Special

def negate : Special → Special
  | finite x => finite (-x)
  | infinity neg => infinity !neg
  | nan => nan

section Operations

variable (round : ℚ → ℚ)

def add : Special → Special → Special
  | nan, _ => nan
  | _, nan => nan
  | infinity neg, infinity neg' => if neg = neg' then infinity neg else nan
  | infinity neg, finite _ => infinity neg
  | finite _, infinity neg => infinity neg
  | finite x, finite y => finite (round (x + y))

def mul : Special → Special → Special
  | nan, _ => nan
  | _, nan => nan
  | infinity neg, infinity neg' => infinity (neg != neg')
  | infinity neg, finite x => if x = 0 then nan else infinity (neg != decide (x < 0))
  | finite x, infinity neg => if x = 0 then nan else infinity (neg != decide (x < 0))
  | finite x, finite y => finite (round (x * y))

def div : Special → Special → Special
  | nan, _ => nan
  | _, nan => nan
  | infinity _, infinity _ => nan
  | infinity neg, finite y => infinity (neg != decide (y < 0))
  | finite _, infinity _ => finite 0
  | finite x, finite y =>
    if y = 0 then if x = 0 then nan else infinity (decide (x < 0)) else finite (round (x / y))

end Operations

def cmp : Special → Special → ℤ
  | nan, _ => 2 ^ 31 - 1
  | _, nan => 2 ^ 31 - 1
  | infinity neg, infinity neg' => if neg = neg' then 0 else if neg then -1 else 1
  | infinity neg, finite _ => if neg then -1 else 1
  | finite _, infinity neg => if neg then 1 else -1
  | finite x, finite y => if x < y then -1 else if x = y then 0 else 1

end Special

/-! ## Reading -/

/-- The digits behind a NaN: at most 33, zeros in front not counted. -/
def isPayload (cs : List Char) : Bool :=
  cs.all Char.isDigit && (cs.dropWhile (· = '0')).length ≤ 33

/-- What is no number, behind the sign. -/
def readSpecial (neg : Bool) (cs : List Char) : Option Special :=
  let cs := cs.map Char.toLower
  if cs = "inf".toList || cs = "infinity".toList then some (.infinity neg)
  else if cs.take 3 = "nan".toList && isPayload (cs.drop 3) then some .nan
  else if cs.take 4 = "snan".toList && isPayload (cs.drop 4) then some .nan
  else none

/-- libmpdec with all its values, in a context that rounds with `round`. -/
def specialMpd (round : ℚ → ℚ) : Mpd Special where
  zero := .finite 0
  one := .finite 1
  setString str :=
    match readDecimal str with
    | some x => some (.finite (round x))
    | none => readSpecial (readSign str.toList).1 (readSign str.toList).2
  add := Special.add round
  sub a b := Special.add round a b.negate
  mul := Special.mul round
  div := Special.div round
  cmp := Special.cmp
  rescale a e :=
    match a with
    | .finite x => .finite (truncTo (-e) x)
    | a => a
  abs
    | .finite x => .finite (round |x|)
    | .infinity _ => .infinity false
    | .nan => .nan
  negate := Special.negate
  powTen n := .finite (10 ^ n)
  fuel := 1000

example : (specialMpd id).setString "-Infinity" = some (.infinity true) := by decide +kernel

example : (specialMpd id).setString "nan12" = some .nan := by decide +kernel

section Finite

variable (round : ℚ → ℚ) (x y : ℚ) (e : ℤ)

@[simp] theorem specialMpd_zero : (specialMpd round).zero = .finite 0 := rfl
@[simp] theorem specialMpd_one : (specialMpd round).one = .finite 1 := rfl

@[simp] theorem specialMpd_add :
    (specialMpd round).add (.finite x) (.finite y) = .finite ((ratMpd round).add x y) := rfl

@[simp] theorem specialMpd_sub :
    (specialMpd round).sub (.finite x) (.finite y) = .finite ((ratMpd round).sub x y) := by
  rw [ratMpd_sub, sub_eq_add_neg]
  rfl

@[simp] theorem specialMpd_mul :
    (specialMpd round).mul (.finite x) (.finite y) = .finite ((ratMpd round).mul x y) := rfl

theorem specialMpd_div (hy : y ≠ 0) :
    (specialMpd round).div (.finite x) (.finite y) = .finite ((ratMpd round).div x y) := if_neg hy

@[simp] theorem specialMpd_cmp :
    (specialMpd round).cmp (.finite x) (.finite y) = (ratMpd round).cmp x y := rfl

@[simp] theorem specialMpd_rescale :
    (specialMpd round).rescale (.finite x) e = .finite (truncTo (-e) x) := rfl

@[simp] theorem specialMpd_powTen : (specialMpd round).powTen e = .finite (10 ^ e) := rfl

/-- A NaN compares as a large number. -/
@[simp] theorem specialMpd_cmp_nan (a : Special) : (specialMpd round).cmp .nan a = 2 ^ 31 - 1 := rfl

@[simp] theorem specialMpd_cmp_to_nan (a : Special) :
    (specialMpd round).cmp a .nan = 2 ^ 31 - 1 := by
  cases a <;> rfl

end Finite

end ViabtcExchange
