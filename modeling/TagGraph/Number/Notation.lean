import TagGraph.Number.Shortest

/-!
# Two notations for doubles

In the tagged texts of the store a number always shows that it is a double: `2.0`, `1e+16`. In the
text form of a value it never has an exponent, and a whole number has no point: `2`. The two also
differ in the last digit of a number halfway between two shortest forms.
-/

namespace TagGraph

/-- A number that a property can hold. Only finite numbers can be stored. -/
inductive Number where
  | finite (x : Binary64)
  | infinite (negative : Bool)
  | nan
deriving DecidableEq

namespace Decimal

/-- The same number without zeros at the end of its digits. -/
def stripZeros (negative : Bool) : (fuel : Nat) → (digits : Nat) → (exponent : Int) → Decimal
  | 0, digits, exponent => ⟨negative, digits, exponent⟩
  | fuel + 1, digits, exponent =>
    if digits ≠ 0 ∧ digits % 10 = 0 then stripZeros negative fuel (digits / 10) (exponent + 1)
    else ⟨negative, digits, exponent⟩

/-- The same number without zeros at the end of its digits. -/
def normalize (d : Decimal) : Decimal :=
  stripZeros d.negative (Nat.log2 d.digits + 1) d.digits d.exponent

/-- A written number in positional notation; `whole` is put behind a number without fraction. -/
def positional (d : Decimal) (whole : List Char) : List Char :=
  let digits := digitsOf d.digits
  let point : Int := digits.length + d.exponent
  if 0 ≤ d.exponent then digits ++ List.replicate d.exponent.toNat '0' ++ whole
  else if 0 < point then digits.take point.toNat ++ '.' :: digits.drop point.toNat
  else '0' :: '.' :: (List.replicate (-point).toNat '0' ++ digits)

/-- A written number as one digit, the others behind a point, and a signed exponent. -/
def scientific (d : Decimal) : List Char :=
  let digits := digitsOf d.digits
  let power : Int := digits.length + d.exponent - 1
  digits.take 1 ++ (if digits.length ≤ 1 then [] else '.' :: digits.drop 1) ++
    'e' :: (if power < 0 then '-' else '+') :: digitsOf power.natAbs

/-- A minus sign in front of a negative number. -/
def withSign (d : Decimal) (magnitude : List Char) : List Char :=
  if d.negative then '-' :: magnitude else magnitude

end Decimal

namespace Binary64

/-- The tagged notation: positional from `1e-5` up to `1e16` and for zero, always with a fraction;
otherwise scientific. Of two equally near forms it takes the even one. -/
def taggedText (x : Binary64) : List Char :=
  let d := (x.shortest .toEven).normalize
  let power : Int := (Decimal.digitsOf d.digits).length + d.exponent - 1
  if x.significand = 0 ∨ (-5 ≤ power ∧ power < 16) then
    d.withSign (d.positional ['.', '0'])
  else d.withSign d.scientific

/-- The notation without exponents and without a fraction that is zero. Of two equally near forms
it takes the greater in magnitude. -/
def plainText (x : Binary64) : List Char :=
  let d := (x.shortest .awayFromZero).normalize
  d.withSign (d.positional [])

/-- The text form: a whole number below `10 ^ 15` as an integer, which has no negative zero, and any
other number without exponent. -/
def text (x : Binary64) : String :=
  if x.isWhole && x.truncate.natAbs < 10 ^ 15 then toString x.truncate
  else String.ofList x.plainText

end Binary64

namespace Number

/-- The number as a text, without exponent. -/
def text : Number → String
  | .finite x => x.text
  | .infinite false => "inf"
  | .infinite true => "-inf"
  | .nan => "NaN"

/-- The double of a number that can be stored. -/
def finite? : Number → Option Binary64
  | .finite x => some x
  | _ => none

end Number

end TagGraph
