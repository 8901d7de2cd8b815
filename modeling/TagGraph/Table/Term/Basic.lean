import TagGraph.Json.Reader
import TagGraph.Table.Cell
import TagGraph.Text.Search

/-!
# Terms

The terms of conditions and defaults, and what they mean on a row. Truth has three values: a
comparison with nothing is neither true nor false, and a condition that is neither is not broken.
-/

namespace TagGraph

/-- The operators with one operand. -/
inductive UnaryOp where
  | plus
  | minus
  | complement
  | not
  | isNull
deriving DecidableEq

/-- The operators with two operands. -/
inductive BinaryOp where
  | or
  | and
  | is
  | eq
  | ne
  | lt
  | le
  | gt
  | ge
  | bitAnd
  | bitOr
  | shiftLeft
  | shiftRight
  | add
  | sub
  | mul
  | div
  | rem
  | concat
deriving DecidableEq

/-- The functions. The value of some is not followed and stands fixed; nothing is known of the value
of those that have no name here. -/
inductive RowFunction where
  | abs
  | coalesce
  | fixed (c : Cell)
  | glob
  | hex
  | iif
  | instr
  | jsonType
  | jsonValid
  | length
  | like
  | lower
  | ltrim
  | max
  | min
  | nullif
  | replace
  | rtrim
  | same
  | sign
  | substr
  | trim
  | typeof
  | unicode
  | unknown
  | upper
deriving DecidableEq

/-- A term over the columns of a row. A column carries how it is compared. -/
inductive Term where
  | literal (c : Cell)
  | column (name : String) (affinity : Affinity) (collation : Collation)
  | collated (t : Term) (collation : Collation)
  | cast (t : Term) (affinity : Affinity)
  | unary (op : UnaryOp) (t : Term)
  | binary (op : BinaryOp) (a b : Term)
  | call (f : RowFunction) (arguments : List Term)

namespace RowFunction

/-- All functions with their names. -/
def names : List (String × RowFunction) := [
  ("abs", .abs), ("char", .fixed .null), ("coalesce", .coalesce), ("concat", .fixed .null),
  ("date", .fixed (.text "1970-01-01")), ("datetime", .fixed (.text "1970-01-01 00:00:00")),
  ("format", .fixed .null), ("glob", .glob), ("hex", .hex), ("ifnull", .coalesce),
  ("iif", .iif), ("instr", .instr), ("json_extract", .fixed .null), ("json_type", .jsonType),
  ("json_valid", .jsonValid), ("length", .length), ("like", .like), ("likely", .same),
  ("lower", .lower), ("ltrim", .ltrim), ("max", .max), ("min", .min), ("nullif", .nullif),
  ("printf", .fixed .null), ("quote", .fixed .null), ("random", .fixed (.integer 4)),
  ("randomblob", .fixed (.bytes [4])), ("replace", .replace), ("round", .fixed .null),
  ("rtrim", .rtrim), ("sign", .sign), ("strftime", .fixed (.text "0")), ("substr", .substr),
  ("substring", .substr), ("time", .fixed (.text "00:00:00")), ("trim", .trim),
  ("typeof", .typeof), ("unicode", .unicode), ("unixepoch", .fixed (.integer 0)),
  ("unlikely", .same), ("upper", .upper)]

/-- The least and the greatest number of arguments. -/
def arity : RowFunction → Nat × Option Nat
  | .coalesce => (2, none)
  | .max | .min => (2, none)
  | .fixed _ | .unknown => (0, none)
  | .iif => (3, some 3)
  | .replace => (3, some 3)
  | .like => (2, some 3)
  | .substr => (2, some 3)
  | .ltrim | .rtrim | .trim => (1, some 2)
  | .glob | .instr | .nullif => (2, some 2)
  | _ => (1, some 1)

end RowFunction

namespace Cell

/-! ## Truth -/

/-- A truth value as a cell. -/
def ofBool (b : Bool) : Cell :=
  .integer (if b then 1 else 0)

/-- What a cell says as a condition, if it says anything. -/
def truth? (c : Cell) : Option Bool :=
  match c.toNumber with
  | .null => none
  | .integer i => some (i != 0)
  | .real (.finite x) => some (x.significand != 0)
  | _ => some true

/-- A truth value that may be neither as a cell. -/
def ofTruth : Option Bool → Cell
  | some b => ofBool b
  | none => .null

/-! ## Arithmetic -/

/-- A fraction rounded to a real number. -/
def ofFraction (num : Int) (den : Nat) : Cell :=
  .real (((Binary64.nearest? (num < 0) num.natAbs den).map Number.finite).getD
    (.infinite (num < 0)))

/-- A finite number in units of `2 ^ (-1074)`. -/
def units? : Cell → Option Int
  | .integer i => some (i * 2 ^ 1074)
  | .real (.finite x) => some x.units
  | _ => none

/-- The sum, difference, product or quotient of two numbers. Whole numbers stay whole as long as the
result fits sixty-four bits; there is no quotient by zero. -/
def arithmetic (op : BinaryOp) (a b : Cell) : Cell :=
  let real : Cell :=
    match a.units?, b.units? with
    | some x, some y =>
      match op with
      | .add => ofFraction (x + y) (2 ^ 1074)
      | .sub => ofFraction (x - y) (2 ^ 1074)
      | .mul => ofFraction (x * y) (2 ^ 2148)
      | _ => if y = 0 then .null else ofFraction (if y < 0 then -x else x) y.natAbs
    | _, _ => .null
  match a, b with
  | .integer i, .integer j =>
    match op with
    | .add => if fitsLong (i + j) then .integer (i + j) else real
    | .sub => if fitsLong (i - j) then .integer (i - j) else real
    | .mul => if fitsLong (i * j) then .integer (i * j) else real
    | .rem => if j = 0 then .null else .integer (i.tmod j)
    | _ => if j = 0 then .null else if fitsLong (i.tdiv j) then .integer (i.tdiv j) else real
  | .null, _ => .null
  | _, .null => .null
  | _, _ => real

/-- A number without its fraction, within sixty-four bits. -/
def toLong? : Cell → Option Int
  | .integer i => some i
  | .real (.finite x) => some (Max.max (-2 ^ 63) (Min.min (2 ^ 63 - 1) x.truncate))
  | .real (.infinite negative) => some (if negative then -2 ^ 63 else 2 ^ 63 - 1)
  | _ => none

/-- A shift to the left by a number of places, which may be negative. From sixty-four places on
nothing is left but the sign of what has been shifted to the right. -/
def shiftBits (x : BitVec 64) (places : Int) : BitVec 64 :=
  let count := Min.min places.natAbs 64
  if 0 ≤ places then x <<< count else x.sshiftRight count

/-- An operation on the bits of two numbers. -/
def bitwise (op : BinaryOp) (a b : Cell) : Cell :=
  match a.toLong?, b.toLong? with
  | some i, some j =>
    let x := BitVec.ofInt 64 i
    let y := BitVec.ofInt 64 j
    .integer (match op with
      | .bitAnd => (x &&& y).toInt
      | .bitOr => (x ||| y).toInt
      | .shiftLeft => (shiftBits x j).toInt
      | _ => (shiftBits x (-j)).toInt)
  | _, _ => .null

/-! ## Texts -/

/-- The text of a cell; nothing has none. -/
def text? (c : Cell) : Option String :=
  match c.preferText with
  | .text s => some s
  | .bytes b => some ((String.fromUTF8? ⟨b.toArray⟩).getD "")
  | _ => none

/-- Whether two letters are equal without regard to the case of `A` to `Z`. -/
def sameLetter (a b : Char) : Bool :=
  a.toLower == b.toLower

/-- Whether a text fits a pattern in which `%` stands for any text and `_` for any character. -/
def like (escape : Option Char) : (fuel : Nat) → (pattern cs : List Char) → Bool
  | 0, _, _ => false
  | _, [], cs => cs.isEmpty
  | fuel + 1, p :: ps, cs =>
    if some p = escape then
      match ps, cs with
      | q :: qs, c :: rest => sameLetter q c && like escape fuel qs rest
      | _, _ => false
    else if p = '%' then
      like escape fuel ps cs ||
        (match cs with
          | _ :: rest => like escape fuel (p :: ps) rest
          | [] => false)
    else
      match cs with
      | c :: rest => (p = '_' || sameLetter p c) && like escape fuel ps rest
      | [] => false

/-- Whether a character belongs to the members of a class, where a hyphen makes a range. -/
def inClass (c : Char) : List Char → Bool
  | a :: '-' :: b :: rest => (a ≤ c && c ≤ b) || inClass c rest
  | a :: rest => a == c || inClass c rest
  | [] => false

/-- The members of a class behind its opening bracket, and the rest of the pattern. A closing
bracket in the first place is a member. -/
def classMembers? (cs : List Char) : Option (List Char × List Char) :=
  let (first, rest) := match cs with
    | ']' :: rest => ([']'], rest)
    | rest => ([], rest)
  match rest.dropWhile (· ≠ ']') with
  | _ :: behind => some (first ++ rest.takeWhile (· ≠ ']'), behind)
  | [] => none

/-- Whether a text fits a pattern in which `*` stands for any text, `?` for any character and
brackets for one of a class. -/
def glob : (fuel : Nat) → (pattern cs : List Char) → Bool
  | 0, _, _ => false
  | _, [], cs => cs.isEmpty
  | fuel + 1, p :: ps, cs =>
    if p = '*' then
      glob fuel ps cs ||
        (match cs with
          | _ :: rest => glob fuel (p :: ps) rest
          | [] => false)
    else
      match cs with
      | [] => false
      | c :: behind =>
        if p = '[' then
          let (inverted, ps) := match ps with
            | '^' :: rest => (true, rest)
            | rest => (false, rest)
          match classMembers? ps with
          | some (members, rest) => (inClass c members != inverted) && glob fuel rest behind
          | none => false
        else (p = '?' || p = c) && glob fuel ps behind

/-- The name of the kind of a cell. -/
def typeName : Cell → String
  | .null => "null"
  | .integer _ => "integer"
  | .real _ => "real"
  | .text _ => "text"
  | .bytes _ => "blob"

/-- The part of a text from a place on, counted from one or, if negative, from the end. A negative
length takes what stands in front of the place. -/
def substring (cs : List Char) (start : Int) (length : Option Int) : List Char :=
  let n : Int := cs.length
  let first : Int := if 0 < start then start - 1 else if start < 0 then n + start else -1
  let (low, high) : Int × Int :=
    match length with
    | none => (first, n)
    | some k => if k < 0 then (first + k, first) else (first, first + k)
  let low := Max.max 0 low
  (cs.drop low.toNat).take (high - low).toNat

/-- A text without the characters of a set at its left end. -/
def stripLeft (set cs : List Char) : List Char :=
  cs.dropWhile set.contains

/-- A text without the characters of a set at its right end. -/
def stripRight (set cs : List Char) : List Char :=
  (stripLeft set cs.reverse).reverse

/-- The place of a text in another, counted from one, or zero. -/
def indexOf (needle : List Char) : (place : Int) → List Char → Int
  | place, cs =>
    if needle.isPrefixOf cs then place
    else
      match cs with
      | _ :: rest => indexOf needle (place + 1) rest
      | [] => 0

end Cell

namespace RowFunction

/-- The greatest or least of some cells, or nothing if one of them is nothing. -/
def extreme (wanted : Ordering) : List Cell → Cell
  | [] => .null
  | c :: cs =>
    if (c :: cs).contains .null then .null
    else cs.foldl (fun best d => if d.order .binary best == wanted then d else best) c

/-- Applies a function of texts, which gives nothing for nothing. -/
def onText (c : Cell) (f : List Char → Cell) : Cell :=
  match c.text? with
  | some s => f s.toList
  | none => .null

/-- Applies a function of two texts, which gives nothing for nothing. -/
def onTexts (a b : Cell) (f : List Char → List Char → Cell) : Cell :=
  onText a fun x => onText b fun y => f x y

/-- Trims a text by the characters of another one or by blanks. -/
def trimmed (strip : List Char → List Char → List Char) : List Cell → Cell
  | [c] => onText c fun cs => .text (String.ofList (strip [' '] cs))
  | [c, set] => onTexts c set fun cs set => .text (String.ofList (strip set cs))
  | _ => .null

/-- The two hexadecimal digits of a byte. -/
def hexPair (b : UInt8) : List Char :=
  let digit (n : Nat) : Char := (Nat.digitChar n).toUpper
  [digit (b.toNat / 16), digit (b.toNat % 16)]

/-- The name of the kind of a JSON value. -/
def jsonKind : Json → String
  | .null => "null"
  | .bool b => if b then "true" else "false"
  | .number (.whole _ _) => "integer"
  | .number (.double _) => "real"
  | .string _ => "text"
  | .array _ => "array"
  | .object _ => "object"

/-- The value of a function. -/
def apply (f : RowFunction) (arguments : List Cell) : Cell :=
  match f, arguments with
  | .abs, [c] =>
    match c.toNumber with
    | .integer i => Cell.ofWhole i.natAbs
    | .real (.finite x) => .real (.finite { x with negative := false })
    | .real _ => .real (.infinite false)
    | _ => .null
  | .coalesce, cs => (cs.find? (· != .null)).getD .null
  | .fixed c, _ => c
  | .hex, [.bytes b] => .text (String.ofList (b.flatMap hexPair))
  | .hex, [c] => .text (String.ofList (((c.text?.getD "").toUTF8.toList).flatMap hexPair))
  | .glob, [pattern, c] => onTexts pattern c fun p s =>
    Cell.ofBool (Cell.glob (p.length + s.length + 1) p s)
  | .iif, [c, a, b] => if c.truth? = some true then a else b
  | .instr, [c, part] => onTexts c part fun s p => .integer (Cell.indexOf p 1 s)
  | .jsonType, [c] => onText c fun s =>
    ((Json.ofString? (String.ofList s)).map fun j => Cell.text (jsonKind j)).getD .null
  | .jsonValid, [c] => onText c fun s =>
    Cell.ofBool (Json.ofString? (String.ofList s)).isSome
  | .length, [.bytes b] => .integer b.length
  | .length, [c] => onText c fun s => .integer (s.takeWhile (· ≠ '\x00')).length
  | .like, [pattern, c] => onTexts pattern c fun p s =>
    Cell.ofBool (Cell.like none (p.length + s.length + 1) p s)
  | .like, [pattern, c, escape] => onTexts pattern c fun p s => onText escape fun e =>
    Cell.ofBool (Cell.like e.head? (p.length + s.length + 1) p s)
  | .lower, [c] => onText c fun s => .text (String.ofList (s.map Char.toLower))
  | .ltrim, cs => trimmed Cell.stripLeft cs
  | .max, cs => extreme .gt cs
  | .min, cs => extreme .lt cs
  | .nullif, [a, b] => if a.order .binary b == .eq then .null else a
  | .replace, [c, source, target] => onTexts c source fun s p => onText target fun t =>
    .text (if p.isEmpty then String.ofList s
      else (String.ofList s).replace (String.ofList p) (String.ofList t))
  | .rtrim, cs => trimmed Cell.stripRight cs
  | .same, [c] => c
  | .sign, [c] =>
    match c.preferNumber with
    | .integer i => .integer i.sign
    | .real (.finite x) =>
      .integer (if x.significand = 0 then 0 else if x.negative then -1 else 1)
    | .real (.infinite negative) => .integer (if negative then -1 else 1)
    | _ => .null
  | .substr, [c, start] => onText c fun s =>
    match start.toNumber.toLong? with
    | some i => .text (String.ofList (Cell.substring s i none))
    | none => .null
  | .substr, [c, start, count] => onText c fun s =>
    match start.toNumber.toLong?, count.toNumber.toLong? with
    | some i, some k => .text (String.ofList (Cell.substring s i (some k)))
    | _, _ => .null
  | .trim, cs => trimmed (fun set cs => Cell.stripRight set (Cell.stripLeft set cs)) cs
  | .typeof, [c] => .text c.typeName
  | .unicode, [c] => onText c fun s => (s.head?.map fun c => Cell.integer c.toNat).getD .null
  | .upper, [c] => onText c fun s => .text (String.ofList (s.map Char.toUpper))
  | _, _ => .null

end RowFunction

namespace Term

/-! ## Comparison -/

/-- The affinity of a term: that of its column or cast. -/
def affinity? : Term → Option Affinity
  | .column _ a _ => some a
  | .cast _ a => some a
  | .collated t _ => t.affinity?
  | _ => none

/-- The collation that a term demands. -/
def demanded? : Term → Option Collation
  | .collated _ c => some c
  | .unary _ t => t.demanded?
  | .binary _ a b => a.demanded?.or b.demanded?
  | _ => none

/-- The collation of the column that a term is. -/
def columnCollation? : Term → Option Collation
  | .column _ _ c => some c
  | .unary .plus t => t.columnCollation?
  | _ => none

/-- The collation by which two terms are compared: a demanded one before that of a column, and the
left one before the right one. -/
def collation (a b : Term) : Collation :=
  (((a.demanded?.or b.demanded?).or a.columnCollation?).or b.columnCollation?).getD .binary

/-- Whether an affinity is one of numbers. -/
def isNumeric : Affinity → Bool
  | .numeric | .integer | .real => true
  | _ => false

/-- Two cells made comparable by the affinities of the terms that they come from. -/
def comparable (a b : Option Affinity) (x y : Cell) : Cell × Cell :=
  let affinity : Affinity :=
    match a, b with
    | some a, some b => if isNumeric a || isNumeric b then .numeric else .blob
    | some a, none => a
    | none, some b => b
    | none, none => .blob
  if isNumeric affinity then (x.preferNumber, y.preferNumber)
  else if affinity == .text && (x.rank == 2 || y.rank == 2) then (x.preferText, y.preferText)
  else (x, y)

/-- The outcome of a comparison of cells. -/
def compareBy (op : BinaryOp) (o : Ordering) : Bool :=
  match op with
  | .lt => o == .lt
  | .le => o != .gt
  | .gt => o == .gt
  | .ge => o != .lt
  | .ne => o != .eq
  | _ => o == .eq

/-- The conjunction of truth values that may be neither. -/
def both : Option Bool → Option Bool → Option Bool
  | some false, _ => some false
  | _, some false => some false
  | some true, b => b
  | a, some true => a
  | none, none => none

/-- The value of an operator with one operand. -/
def applyUnary : UnaryOp → Cell → Cell
  | .plus, c => c
  | .minus, c => Cell.arithmetic .sub (.integer 0) c.toNumber
  | .complement, c => ((c.toNumber.toLong?).map fun i => Cell.integer (-i - 1)).getD .null
  | .not, c => Cell.ofTruth (c.truth?.map (!·))
  | .isNull, c => Cell.ofBool (c == .null)

/-- The value of an operator with two operands that are not compared. -/
def applyBinary (op : BinaryOp) (x y : Cell) : Cell :=
  match op with
  | .and => Cell.ofTruth (both x.truth? y.truth?)
  | .or => Cell.ofTruth ((both (x.truth?.map (!·)) (y.truth?.map (!·))).map (!·))
  | .concat =>
    match x.text?, y.text? with
    | some s, some t => .text (s ++ t)
    | _, _ => .null
  | .bitAnd | .bitOr | .shiftLeft | .shiftRight => Cell.bitwise op x.toNumber y.toNumber
  | _ => Cell.arithmetic op x.toNumber y.toNumber

/-! ## Evaluation -/

mutual

/-- The value of a term on a row. -/
def eval (row : String → Cell) : Term → Cell
  | .literal c => c
  | .column name _ _ => row name
  | .collated t _ => eval row t
  | .cast t a => a.apply (if isNumeric a then (eval row t).toNumber else eval row t)
  | .unary op t => applyUnary op (eval row t)
  | .binary op a b =>
    let x := eval row a
    let y := eval row b
    match op with
    | .is =>
      let (x, y) := comparable a.affinity? b.affinity? x y
      Cell.ofBool (x.order (collation a b) y == .eq)
    | .eq | .ne | .lt | .le | .gt | .ge =>
      if x == .null || y == .null then .null
      else
        let (x, y) := comparable a.affinity? b.affinity? x y
        Cell.ofBool (compareBy op (x.order (collation a b) y))
    | _ => applyBinary op x y
  | .call f arguments => f.apply (evalAll row arguments)

/-- The values of terms on a row. -/
def evalAll (row : String → Cell) : List Term → List Cell
  | [] => []
  | t :: ts => eval row t :: evalAll row ts

end

/-! ## Known terms -/

mutual

/-- Whether all functions of a term are known. -/
def isKnown : Term → Bool
  | .literal _ | .column _ _ _ => true
  | .collated t _ | .cast t _ | .unary _ t => isKnown t
  | .binary _ a b => isKnown a && isKnown b
  | .call f arguments => f != .unknown && areKnown arguments

/-- Whether all functions of terms are known. -/
def areKnown : List Term → Bool
  | [] => true
  | t :: ts => isKnown t && areKnown ts

end

end Term

end TagGraph
