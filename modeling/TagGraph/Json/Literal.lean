import TagGraph.Json.Basic
import TagGraph.Number.Scaling

/-!
# The numbers of JSON as written

A whole number that fits sixty-four bits is read as it stands. Any other number is read as a double
by the short way: the digits are taken together as long as they fit sixty-four bits, the number that
they make is rounded to a double, and that is multiplied or divided by a power of ten, which rounds
once more. The result may lie beside the double nearest to the written number. The shortest form of
`1 / 11`, `0.09090909090909091`, is read as the double behind it, `0.09090909090909093`.
-/

namespace TagGraph

/-- A written number: its sign, the digits before and behind the point, its exponent, and whether it
has neither point nor exponent. -/
structure NumberLiteral where
  negative : Bool
  whole : List Char
  fraction : List Char
  exponent : Int
  isWhole : Bool

namespace NumberLiteral

/-! ## As a double -/

/-- The number that digits write, read on from `acc` as long as it fits sixty-four bits, and the
digits that are left. -/
def absorb (acc : Nat) : List Char → Nat × List Char
  | [] => (acc, [])
  | c :: cs =>
    let next := 10 * acc + (c.toNat - '0'.toNat)
    if next < 2 ^ 64 then absorb next cs else (acc, c :: cs)

/-- The number that the digits make, as far as it fits sixty-four bits. -/
def significand (n : NumberLiteral) : Nat :=
  (absorb (absorb 0 n.whole).1 n.fraction).1

/-- The power of ten that belongs to the significand. Each digit before the point that did not fit
raises it, each one behind the point that did fit lowers it. -/
def power (n : NumberLiteral) : Int :=
  let unread := (absorb 0 n.whole).2.length
  let dropped := (absorb (absorb 0 n.whole).1 n.fraction).2.length
  n.exponent + unread - (n.fraction.length - dropped)

/-- The double that a written number is read as, or nothing past the greatest double. -/
def toBinary64? (n : NumberLiteral) : Option Binary64 :=
  (Binary64.nearest? n.negative n.significand 1).bind (·.scale? n.power)

/-! ## As a JSON number -/

/-- The number that a literal stands for. A whole literal outside sixty-four bits and the literal
`-0` become doubles. -/
def toJson? (n : NumberLiteral) : Option JsonNumber :=
  let asDouble := n.toBinary64?.map .double
  if n.isWhole then
    let value := Decimal.digitsValue n.whole
    if n.negative && value == 0 then asDouble
    else
      match JsonNumber.ofInt? (if n.negative then -(value : Int) else value) with
      | some whole => some whole
      | none => asDouble
  else asDouble

end NumberLiteral

end TagGraph
