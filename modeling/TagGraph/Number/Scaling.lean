import TagGraph.Number.Shortest

/-!
# Doubles times powers of ten

A product or a quotient of two doubles is the double nearest to the exact one. Powers of ten up to
`10 ^ 308` are doubles, or have one next to them. A number is divided by a greater power in several
steps, each of which rounds.
-/

namespace TagGraph.Binary64

/-- The product of two doubles, or nothing past the greatest double. -/
def times? (x y : Binary64) : Option Binary64 :=
  nearest? (x.negative != y.negative) (x.ratio.1 * y.ratio.1) (x.ratio.2 * y.ratio.2)

/-- The quotient of a double by one other than zero, or nothing past the greatest double. -/
def over? (x y : Binary64) : Option Binary64 :=
  nearest? (x.negative != y.negative) (x.ratio.1 * y.ratio.2) (x.ratio.2 * y.ratio.1)

/-- The double nearest to a power of ten. -/
def tenTo (power : Nat) : Binary64 :=
  (nearest? false (10 ^ power) 1).getD (.zero false)

/-- The greatest power of ten with a double next to it. -/
def greatestPower : Nat := 308

/-- The quotient of a double by a power of ten: first `steps` times by the greatest power, as long
as something is left, then by the rest of the power. -/
def overTenTo? : (steps power : Nat) → Binary64 → Option Binary64
  | 0, power, x => x.over? (tenTo power)
  | steps + 1, power, x =>
    if x.significand = 0 then some x
    else (x.over? (tenTo greatestPower)).bind (overTenTo? steps (power - greatestPower))

/-- A double times a power of ten, which may be negative. -/
def scale? (x : Binary64) (exponent : Int) : Option Binary64 :=
  if greatestPower < exponent then
    if x.significand = 0 then some x else none
  else if 0 ≤ exponent then x.times? (tenTo exponent.toNat)
  else overTenTo? (((-exponent).toNat - 1) / greatestPower) (-exponent).toNat x

end TagGraph.Binary64
