import TagGraph.Number.Decimal

/-!
# The shortest decimal that reads back

Each double is written with the fewest decimal digits that read back to it, and among those with the
ones nearest to it. The candidates of one length are the two neighbours of the number on the decimal
grid of that length; the first length with a neighbour that reads back is taken. Where both
neighbours read back and are equally near, a notation says which it takes.
-/

namespace TagGraph

/-- Which of two equally near neighbours on a decimal grid is taken. -/
inductive Tie where
  | toEven
  | awayFromZero
deriving DecidableEq

/-- Whether the upper one of two equally near neighbours is taken, where `floor` is the lower. -/
def Tie.takesUpper (tie : Tie) (floor : Nat) : Bool :=
  match tie with
  | .toEven => floor % 2 == 1
  | .awayFromZero => true

namespace Binary64

/-- The numerator and denominator of the magnitude. -/
def ratio (x : Binary64) : Nat × Nat :=
  (x.significand * 2 ^ x.exponent.toNat, 2 ^ (-x.exponent).toNat)

/-- The place of the decimal point: a number other than zero lies between `10 ^ (p - 1)` and
`10 ^ p`. The scale is large enough for the least double. -/
def decimalPoint (x : Binary64) : Int :=
  let scaled := x.ratio.1 * 10 ^ 340 / x.ratio.2
  (Decimal.digitsOf scaled).length - 340

/-- The magnitude in whole units of `10 ^ place`, cut off, and whether what is cut off lies below,
at or above half a unit. -/
def gridFloor (x : Binary64) (place : Int) : Nat × Ordering :=
  let num := x.ratio.1 * 10 ^ (-place).toNat
  let den := x.ratio.2 * 10 ^ place.toNat
  (num / den, compare (2 * (num % den)) den)

/-- Whether a written number reads back to `x`. -/
def readsBack (x : Binary64) (d : Decimal) : Bool :=
  d.toBinary64? == some x

/-- The neighbour of the number on the grid of `length` digits that reads back, the nearer one if
both do, and of two at the same distance the one that `tie` says. -/
def onGrid? (tie : Tie) (x : Binary64) (length : Nat) : Option Decimal :=
  let place := x.decimalPoint - length
  let (floor, half) := x.gridFloor place
  let below : Decimal := ⟨x.negative, floor, place⟩
  let above : Decimal := ⟨x.negative, floor + 1, place⟩
  let upFirst := half == .gt || (half == .eq && tie.takesUpper floor)
  [if upFirst then above else below, if upFirst then below else above].find? x.readsBack

/-- The number with all its decimal digits. -/
def exactDecimal (x : Binary64) : Decimal :=
  if 0 ≤ x.exponent then ⟨x.negative, x.significand * 2 ^ x.exponent.toNat, 0⟩
  else ⟨x.negative, x.significand * 5 ^ (-x.exponent).toNat, x.exponent⟩

/-- The shortest written form that reads back. Seventeen digits are always enough. -/
def shortest (tie : Tie) (x : Binary64) : Decimal :=
  if x.significand = 0 then ⟨x.negative, 0, 0⟩
  else ((List.range 17).findSome? fun n => x.onGrid? tie (n + 1)).getD x.exactDecimal

end Binary64

end TagGraph
