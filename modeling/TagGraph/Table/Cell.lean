import TagGraph.Number.Notation

/-!
# Cells

What a column of a table holds for one row: nothing, a number, a text or bytes. A column prefers one
kind of value, its affinity. A value that is put into a column is turned into that kind if nothing
is lost by it, and is kept as it is otherwise; so any cell may turn out to hold any kind.
-/

namespace TagGraph

/-- What a column holds for one row. -/
inductive Cell where
  | null
  | integer (i : Int)
  | real (x : Number)
  | text (s : String)
  | bytes (b : List UInt8)
deriving DecidableEq

/-- The kind of value that a column prefers. -/
inductive Affinity where
  | blob
  | text
  | numeric
  | integer
  | real
deriving DecidableEq

/-- How texts are compared: as they are, without regard to the case of the letters `A` to `Z`, or
without regard to blanks at the end. -/
inductive Collation where
  | binary
  | caseless
  | unpadded
deriving DecidableEq

/-- Whether a whole number fits sixty-four bits. -/
def fitsLong (i : Int) : Bool :=
  -2 ^ 63 ≤ i && i < 2 ^ 63

namespace Cell

/-- Whether a cell holds nothing. -/
def isNull : Cell → Bool
  | .null => true
  | _ => false

/-! ## Numerals -/

/-- The blanks that may stand around a numeral. -/
def isSpace (c : Char) : Bool :=
  c = ' ' || (9 ≤ c.toNat && c.toNat ≤ 13)

/-- A whole number as a cell: one that does not fit sixty-four bits is a real number. -/
def ofWhole (i : Int) : Cell :=
  if fitsLong i then .integer i
  else .real (((Binary64.ofInt? i).map Number.finite).getD (.infinite (i < 0)))

/-- A written number as a real one. -/
def ofDecimal (d : Decimal) : Cell :=
  .real ((d.toBinary64?.map Number.finite).getD (.infinite d.negative))

/-- The numeral at the beginning of a text, behind blanks, and what follows it. Without point and
exponent it writes a whole number. -/
def numeralAhead? (cs : List Char) : Option (Cell × List Char) :=
  let (negative, cs) := Decimal.spanSign (cs.dropWhile isSpace)
  let (whole, cs) := Decimal.spanDigits cs
  let (fraction, cs, pointed) :=
    match cs with
    | '.' :: cs => ((Decimal.spanDigits cs).1, (Decimal.spanDigits cs).2, true)
    | cs => ([], cs, false)
  if whole.isEmpty && fraction.isEmpty then none
  else
    let digits := Decimal.digitsValue (whole ++ fraction)
    match Decimal.spanExponent? cs with
    | some (exponent, rest) =>
      -- An exponent is there if something has been read.
      if pointed || rest.length < cs.length then
        some (ofDecimal ⟨negative, digits, exponent - fraction.length⟩, rest)
      else some (ofWhole (if negative then -(digits : Int) else digits), rest)
    | none =>
      if pointed then some (ofDecimal ⟨negative, digits, -(fraction.length : Int)⟩, cs)
      else some (ofWhole (if negative then -(digits : Int) else digits), cs)

/-- The number that a text writes, with blanks around it. -/
def numeral? (s : String) : Option Cell :=
  match numeralAhead? s.toList with
  | some (c, rest) => if rest.all isSpace then some c else none
  | none => none

/-! ## Conversions -/

/-- A real number without fraction as a whole number, if it lies within sixty-four bits. -/
def preferWhole : Cell → Cell
  | .real (.finite x) =>
    if x.isWhole && -2 ^ 63 < x.truncate && x.truncate < 2 ^ 63 - 1 then .integer x.truncate
    else .real (.finite x)
  | c => c

/-- A whole number as a real one. -/
def preferReal : Cell → Cell
  | .integer i => .real (((Binary64.ofInt? i).map Number.finite).getD (.infinite (i < 0)))
  | c => c

/-- The text of a number; a real number always has a fraction. -/
def preferText : Cell → Cell
  | .integer i => .text (toString i)
  | .real (.finite x) => .text (String.ofList x.taggedText)
  | .real x => .text x.text
  | c => c

/-- The number that a text writes. -/
def preferNumber : Cell → Cell
  | .text s => (numeral? s).getD (.text s)
  | c => c

end Cell

namespace Affinity

/-- A value as a column with the affinity keeps it. -/
def apply : Affinity → Cell → Cell
  | .blob, c => c
  | .text, c => c.preferText
  | .numeric, c => c.preferNumber.preferWhole
  | .integer, c => c.preferNumber.preferWhole
  | .real, c => c.preferNumber.preferReal

@[simp] theorem apply_integer_integer (i : Int) : integer.apply (.integer i) = .integer i := rfl

@[simp] theorem apply_text_text (s : String) : text.apply (.text s) = .text s := rfl

end Affinity

/-! ## Order -/

/-- The place of a number among all numbers, in the least distance between doubles. -/
def Number.key : Number → Int × Int
  | .nan => (-2, 0)
  | .infinite true => (-1, 0)
  | .finite x => (0, x.units)
  | .infinite false => (1, 0)

namespace Collation

/-- What of a text is compared. -/
def key : Collation → String → String
  | .binary, s => s
  | .caseless, s => s.map Char.toLower
  | .unpadded, s => String.ofList ((s.toList.reverse.dropWhile (· == ' ')).reverse)

end Collation

namespace Cell

/-- The place of a kind in the order of all cells: nothing, numbers, texts, bytes. -/
def rank : Cell → Nat
  | .null => 0
  | .integer _ => 1
  | .real _ => 1
  | .text _ => 2
  | .bytes _ => 3

/-- The place of a numeric cell among all numbers. -/
def numberKey : Cell → Int × Int
  | .integer i => (0, i * 2 ^ 1074)
  | .real x => x.key
  | _ => (0, 0)

/-- The order of all cells: by kind, then by value. -/
def order (collation : Collation) : Cell → Cell → Ordering
  | .integer i, .integer j => compare i j
  | .text s, .text t => compare (collation.key s) (collation.key t)
  | .bytes b, .bytes c => compare b c
  | a, b => (compare a.rank b.rank).then
      ((compare a.numberKey.1 b.numberKey.1).then (compare a.numberKey.2 b.numberKey.2))

/-- Whether two cells are equal and not empty. -/
def same (collation : Collation) (a b : Cell) : Bool :=
  !a.isNull && a.order collation b == .eq

/-- Whether a cell comes in front of another one or at its place. -/
def precedes (a b : Cell) : Bool :=
  a.order .binary b != .gt

/-- The greater of two cells, the first one if they are equal. -/
def max (a b : Cell) : Cell :=
  if b.precedes a then a else b

/-- The greatest of some cells. -/
def greatest : List Cell → Option Cell
  | [] => none
  | c :: cs => some (cs.foldl max c)

/-- The whole number that a cell holds, if it holds one. -/
def whole? : Cell → Option Int
  | .integer i => some i
  | _ => none

/-! ## Texts as numbers -/

/-- The number that a cell counts as: of a text, the numeral at its beginning, or zero. -/
def toNumber : Cell → Cell
  | .null => .null
  | .text s => ((numeralAhead? s.toList).map (·.1)).getD (.integer 0)
  | .bytes _ => .integer 0
  | c => c

end Cell

end TagGraph
