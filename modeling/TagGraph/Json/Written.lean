import TagGraph.Json.Literal
import TagGraph.NodeId

/-!
# JSON as written

What the grammar of JSON alone accepts: literals of numbers of any size, strings whose escapes may
be half of a surrogate pair, keys that repeat, any depth. `TagGraph.Json.Reader` turns a written
tree into a value, or refuses it.

The text is read from the front of a list of characters; each reader gives what it has read and the
rest. The fuel bounds the steps of the recursion, and twice the length of the text is always enough.
-/

namespace TagGraph

/-- A part of a written string: a character, or a sixteen-bit unit given by a `\u` escape. -/
inductive StringPiece where
  | char (c : Char)
  | unit (value : Nat)

/-- A written JSON tree. -/
inductive Written where
  | null
  | bool (value : Bool)
  | number (literal : NumberLiteral)
  | string (pieces : List StringPiece)
  | array (items : List Written)
  | object (entries : List (List StringPiece × Written))

namespace Written

/-- The white space of JSON. -/
def isJsonBlank (c : Char) : Bool :=
  c == ' ' || c == '\n' || c == '\t' || c == '\r'

/-- A text without its leading white space. -/
def skipBlanks (cs : List Char) : List Char :=
  cs.dropWhile isJsonBlank

/-! ## Strings -/

/-- The character that a one-letter escape stands for. -/
def simpleEscape? (c : Char) : Option Char :=
  if c = '"' then some '"'
  else if c = '\\' then some '\\'
  else if c = '/' then some '/'
  else if c = 'b' then some '\x08'
  else if c = 'f' then some '\x0c'
  else if c = 'n' then some '\n'
  else if c = 'r' then some '\r'
  else if c = 't' then some '\t'
  else none

/-- A string behind its opening quote. -/
def stringBody? : List Char → Option (List StringPiece × List Char)
  | [] => none
  | '"' :: rest => some ([], rest)
  | '\\' :: 'u' :: a :: b :: c :: d :: rest =>
    match NodeId.hexNumber? 0 [a, b, c, d], stringBody? rest with
    | some value, some (pieces, rest) => some (.unit value :: pieces, rest)
    | _, _ => none
  | '\\' :: e :: rest =>
    match simpleEscape? e, stringBody? rest with
    | some c, some (pieces, rest) => some (.char c :: pieces, rest)
    | _, _ => none
  | c :: rest =>
    if c.toNat < 0x20 then none
    else (stringBody? rest).map fun (pieces, rest) => (.char c :: pieces, rest)

/-! ## Numbers -/

/-- The whole part of a number: a zero, or digits that do not begin with one. -/
def wholePart? (cs : List Char) : Option (List Char × List Char) :=
  match Decimal.spanDigits cs with
  | ([], _) => none
  | ('0' :: _ :: _, _) => none
  | (digits, rest) => some (digits, rest)

/-- The digits behind a point, if there is one. -/
def fractionPart? : List Char → Option (List Char × List Char)
  | '.' :: cs =>
    match Decimal.spanDigits cs with
    | ([], _) => none
    | (digits, rest) => some (digits, rest)
  | cs => some ([], cs)

/-- Whether an exponent stands in front. -/
def startsExponent : List Char → Bool
  | c :: _ => c == 'e' || c == 'E'
  | [] => false

/-- A number. -/
def number? (cs : List Char) : Option (NumberLiteral × List Char) :=
  let (negative, cs) :=
    match cs with
    | '-' :: cs => (true, cs)
    | cs => (false, cs)
  match wholePart? cs with
  | none => none
  | some (whole, cs) =>
    match fractionPart? cs with
    | none => none
    | some (fraction, cs) =>
      match Decimal.spanExponent? cs with
      | none => none
      | some (exponent, rest) =>
        some (⟨negative, whole, fraction, exponent, fraction.isEmpty && !startsExponent cs⟩, rest)

/-! ## Values -/

/-- What follows the word `word`, if it stands in front. -/
def afterWord? (word : String) (cs : List Char) : Option (List Char) :=
  if word.toList.isPrefixOf cs then some (cs.drop word.length) else none

/-- One of the three words `null`, `true` and `false`. -/
def word? (cs : List Char) : Option (Written × List Char) :=
  match afterWord? "null" cs, afterWord? "true" cs, afterWord? "false" cs with
  | some rest, _, _ => some (.null, rest)
  | _, some rest, _ => some (.bool true, rest)
  | _, _, some rest => some (.bool false, rest)
  | none, none, none => none

mutual

/-- A value, with white space before it. -/
def value? : (fuel : Nat) → List Char → Option (Written × List Char)
  | 0, _ => none
  | fuel + 1, cs =>
    match skipBlanks cs with
    | '"' :: cs => (stringBody? cs).map fun (pieces, rest) => (.string pieces, rest)
    | '[' :: cs =>
      match skipBlanks cs with
      | ']' :: rest => some (.array [], rest)
      | cs => (items? fuel cs).map fun (items, rest) => (.array items, rest)
    | '\x7b' :: cs =>
      match skipBlanks cs with
      | '\x7d' :: rest => some (.object [], rest)
      | cs => (entries? fuel cs).map fun (entries, rest) => (.object entries, rest)
    | cs =>
      match word? cs with
      | some found => some found
      | none => (number? cs).map fun (literal, rest) => (.number literal, rest)

/-- The items of an array up to its closing bracket, at least one. -/
def items? : (fuel : Nat) → List Char → Option (List Written × List Char)
  | 0, _ => none
  | fuel + 1, cs =>
    match value? fuel cs with
    | none => none
    | some (item, rest) =>
      match skipBlanks rest with
      | ',' :: rest => (items? fuel rest).map fun (items, rest) => (item :: items, rest)
      | ']' :: rest => some ([item], rest)
      | _ => none

/-- The entries of an object up to its closing brace, at least one. -/
def entries? : (fuel : Nat) → List Char → Option (List (List StringPiece × Written) × List Char)
  | 0, _ => none
  | fuel + 1, cs =>
    match skipBlanks cs with
    | '"' :: cs =>
      match stringBody? cs with
      | none => none
      | some (key, rest) =>
        match skipBlanks rest with
        | ':' :: rest =>
          match value? fuel rest with
          | none => none
          | some (item, rest) =>
            match skipBlanks rest with
            | ',' :: rest =>
              (entries? fuel rest).map fun (entries, rest) => ((key, item) :: entries, rest)
            | '\x7d' :: rest => some ([(key, item)], rest)
            | _ => none
        | _ => none
    | _ => none

end

/-- The tree that a whole text writes. -/
def ofChars? (cs : List Char) : Option Written :=
  match value? (2 * cs.length + 2) cs with
  | some (tree, rest) => if (skipBlanks rest).isEmpty then some tree else none
  | none => none

/-- The tree that a whole text writes. -/
def ofString? (s : String) : Option Written :=
  ofChars? s.toList

end Written

end TagGraph
