import TagGraph.Number.Binary64

/-!
# Decimal numbers as written

A written number is a sign, a run of digits and a power of ten. Reading one means rounding it to the
nearest double. Free-standing numbers have a point anywhere among their digits; the literals of JSON
are read in `TagGraph.Json.Written`.
-/

namespace TagGraph

/-- A written number: `digits * 10 ^ exponent`, with a sign. -/
structure Decimal where
  negative : Bool
  digits : Nat
  exponent : Int
deriving DecidableEq

namespace Decimal

/-! ## Digits -/

/-- Whether a character is one of the digits `0` to `9`. -/
def isDigit (c : Char) : Bool :=
  '0' ≤ c && c ≤ '9'

/-- The number that a run of digits writes, read on from `acc`. -/
def digitsFrom (acc : Nat) : List Char → Nat
  | [] => acc
  | c :: cs => digitsFrom (10 * acc + (c.toNat - '0'.toNat)) cs

/-- The number that a run of digits writes. -/
def digitsValue (cs : List Char) : Nat :=
  digitsFrom 0 cs

/-- The digits of a whole number, without leading zeros. -/
def digitsOf (n : Nat) : List Char :=
  (Nat.toDigits 10 n)

/-- A run of digits as long as it goes, and what follows it. -/
def spanDigits (cs : List Char) : List Char × List Char :=
  (cs.takeWhile isDigit, cs.dropWhile isDigit)

/-- A sign in front, and what follows it. -/
def spanSign : List Char → Bool × List Char
  | '-' :: cs => (true, cs)
  | '+' :: cs => (false, cs)
  | cs => (false, cs)

/-- The exponent `e…` in front, if there is one, and what follows it. An `e` without digits is an
error. -/
def spanExponent? : List Char → Option (Int × List Char)
  | c :: cs =>
    if c = 'e' ∨ c = 'E' then
      let (negative, digits, rest) := ((spanSign cs).1, spanDigits (spanSign cs).2)
      if digits.isEmpty then none
      else some (if negative then -(digitsValue digits : Int) else digitsValue digits, rest)
    else some (0, c :: cs)
  | [] => some (0, [])

/-! ## Rounding to a double -/

/-- The double nearest to a written number, or nothing past the greatest double. Numbers beyond
`10 ^ 400` and below `10 ^ (-400)` are told apart from the rest by their length, so that no power of
ten larger than that is ever formed. -/
def toBinary64? (d : Decimal) : Option Binary64 :=
  if d.digits = 0 then some (.zero d.negative)
  else if 400 < d.exponent then none
  else if d.exponent + Nat.log2 d.digits < -400 then some (.zero d.negative)
  else Binary64.nearest? d.negative (d.digits * 10 ^ d.exponent.toNat) (10 ^ (-d.exponent).toNat)

/-! ## Free-standing numbers -/

/-- A free-standing number: a sign, digits with a point anywhere among them, and an exponent. -/
def ofChars? (cs : List Char) : Option Decimal :=
  let (negative, cs) := spanSign cs
  let (whole, cs) := spanDigits cs
  let (fraction, cs) :=
    match cs with
    | '.' :: cs => spanDigits cs
    | cs => ([], cs)
  if whole.isEmpty && fraction.isEmpty then none
  else
    match spanExponent? cs with
    | some (exponent, []) =>
      some ⟨negative, digitsValue (whole ++ fraction), exponent - fraction.length⟩
    | _ => none

end Decimal

end TagGraph
