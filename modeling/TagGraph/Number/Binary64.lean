import TagGraph.Number.Power

/-!
# Finite double-precision numbers

A finite double as exact data: a sign, a significand below `2 ^ 53` and a power of two, in the one
form that each number has. Rounding to the nearest double and comparison are computed on whole
numbers, so every statement about them is about integers.
-/

namespace TagGraph

/-- The form that each finite double has once: a significand of 53 bits, or the least exponent. -/
def Binary64.IsNormal (significand : Nat) (exponent : Int) : Prop :=
  significand < 2 ^ 53 ∧ -1074 ≤ exponent ∧ exponent ≤ 971 ∧
    (significand < 2 ^ 52 → exponent = -1074)

instance (significand : Nat) (exponent : Int) :
    Decidable (Binary64.IsNormal significand exponent) := by
  unfold Binary64.IsNormal
  infer_instance

/-- A finite double: `significand * 2 ^ exponent`, with a sign that zero has too. -/
structure Binary64 where
  negative : Bool
  significand : Nat
  exponent : Int
  normal : Binary64.IsNormal significand exponent
deriving DecidableEq

namespace Binary64

/-- The zero with the given sign. -/
def zero (negative : Bool) : Binary64 :=
  ⟨negative, 0, -1074, by decide⟩

instance : Inhabited Binary64 := ⟨zero false⟩

/-! ## Order -/

/-- A double as a whole number of units of `2 ^ (-1074)`, the least distance between doubles. Both
zeros are zero units. -/
def units (x : Binary64) : Int :=
  let magnitude : Int := (x.significand * 2 ^ (x.exponent + 1074).toNat : Nat)
  if x.negative then -magnitude else magnitude

/-- The order of doubles by value. -/
def order (x y : Binary64) : Ordering :=
  compare x.units y.units

/-- Equality by value, for which the two zeros are one. -/
def sameValue (x y : Binary64) : Bool :=
  x.units == y.units

/-! ## Whole numbers -/

/-- The value with its fraction cut off. -/
def truncate (x : Binary64) : Int :=
  let magnitude : Int :=
    if 0 ≤ x.exponent then (x.significand * 2 ^ x.exponent.toNat : Nat)
    else (x.significand / 2 ^ (-x.exponent).toNat : Nat)
  if x.negative then -magnitude else magnitude

/-- Whether a double has no fraction. -/
def isWhole (x : Binary64) : Bool :=
  0 ≤ x.exponent || x.significand % 2 ^ (-x.exponent).toNat == 0

/-! ## Rounding -/

/-- The exponent at which `num / den` has a significand of 53 bits, or the least exponent. The
lengths of the two numbers in bits leave one of two exponents. -/
def exponentFor (num den : Nat) : Int :=
  let guess : Int := max (-1074) ((Nat.log2 num : Int) - Nat.log2 den - 53)
  if num * 2 ^ (-guess).toNat < den * 2 ^ 53 * 2 ^ guess.toNat then guess else guess + 1

/-- The quotient `num / den` rounded to the nearest whole number, a half to the even neighbour. -/
def roundDiv (num den : Nat) : Nat :=
  let floor := num / den
  let twice := 2 * (num % den)
  if twice < den then floor
  else if den < twice then floor + 1
  else if floor % 2 = 0 then floor else floor + 1

/-- The double with a significand of at most `2 ^ 53`, or nothing past the greatest double. -/
def ofParts? (negative : Bool) (significand : Nat) (exponent : Int) : Option Binary64 :=
  if h : IsNormal significand exponent then some ⟨negative, significand, exponent, h⟩
  else if h : IsNormal (significand / 2) (exponent + 1) then
    some ⟨negative, significand / 2, exponent + 1, h⟩
  else none

/-- The double nearest to `num / den`, a half going to the even significand. There is none if that
would be past the greatest double. -/
def nearest? (negative : Bool) (num den : Nat) : Option Binary64 :=
  if num = 0 then some (zero negative)
  else
    let exponent := exponentFor num den
    ofParts? negative
      (roundDiv (num * 2 ^ (-exponent).toNat) (den * 2 ^ exponent.toNat)) exponent

/-- The double nearest to a whole number. There is none past the greatest double. -/
def ofInt? (i : Int) : Option Binary64 :=
  nearest? (decide (i < 0)) i.natAbs 1

end Binary64

end TagGraph
