import TagGraph.Json.Basic
import TagGraph.NodeId

/-!
# JSON as text

The compact form, without white space, in which texts are stored; and the indented form that is
shown to people, two blanks to a level. Both write a string with the fewest escapes: the quote, the
backslash and the characters below the blank.
-/

namespace TagGraph.Json

/-! ## Strings -/

/-- A character below the blank that has no escape of its own. -/
def unicodeEscape (c : Char) : List Char :=
  ['\\', 'u', '0', '0'] ++ NodeId.hexDigits 2 c.toNat

/-- The written form of a character in a string. -/
def escapeChar (c : Char) : List Char :=
  if c = '"' then ['\\', '"']
  else if c = '\\' then ['\\', '\\']
  else if 0x20 ≤ c.toNat then [c]
  else if c = '\x08' then ['\\', 'b']
  else if c = '\x0c' then ['\\', 'f']
  else if c = '\n' then ['\\', 'n']
  else if c = '\r' then ['\\', 'r']
  else if c = '\t' then ['\\', 't']
  else unicodeEscape c

/-- The written form of a string, in quotes. -/
def quote (s : String) : List Char :=
  '"' :: (s.toList.flatMap escapeChar ++ ['"'])

/-! ## The compact form -/

mutual

/-- The compact form of a value, in front of `rest`. -/
def emit : Json → List Char → List Char
  | .null, rest => "null".toList ++ rest
  | .bool true, rest => "true".toList ++ rest
  | .bool false, rest => "false".toList ++ rest
  | .number n, rest => n.toChars ++ rest
  | .string s, rest => quote s ++ rest
  | .array xs, rest => '[' :: emitItems true xs rest
  | .object xs, rest => '\x7b' :: emitEntries true xs rest

/-- The items of an array up to its closing bracket; a comma stands before all but the first. -/
def emitItems (first : Bool) : List Json → List Char → List Char
  | [], rest => ']' :: rest
  | x :: xs, rest =>
    (if first then [] else [',']) ++ emit x (emitItems false xs rest)

/-- The entries of an object up to its closing brace; a comma stands before all but the first. -/
def emitEntries (first : Bool) : List (String × Json) → List Char → List Char
  | [], rest => '\x7d' :: rest
  | (k, x) :: xs, rest =>
    (if first then [] else [',']) ++ quote k ++ ':' :: emit x (emitEntries false xs rest)

end

/-- The compact form of a value. -/
def render (j : Json) : String :=
  String.ofList (emit j [])

/-! ## The indented form -/

/-- A line break and the blanks of one level. -/
def newline (level : Nat) : List Char :=
  '\n' :: List.replicate (2 * level) ' '

mutual

/-- The indented form of a value at a level, in front of `rest`. -/
def emitIndented (level : Nat) : Json → List Char → List Char
  | .array [], rest => '[' :: ']' :: rest
  | .object [], rest => '\x7b' :: '\x7d' :: rest
  | .array (x :: xs), rest =>
    '[' :: newline (level + 1) ++
      emitIndented (level + 1) x (emitIndentedItems level xs rest)
  | .object ((k, x) :: xs), rest =>
    '\x7b' :: newline (level + 1) ++ quote k ++ ':' :: ' ' ::
      emitIndented (level + 1) x (emitIndentedEntries level xs rest)
  | .null, rest => "null".toList ++ rest
  | .bool b, rest => (toString b).toList ++ rest
  | .number n, rest => n.toChars ++ rest
  | .string s, rest => quote s ++ rest

/-- The items after the first, up to the closing bracket. -/
def emitIndentedItems (level : Nat) : List Json → List Char → List Char
  | [], rest => newline level ++ ']' :: rest
  | x :: xs, rest =>
    ',' :: newline (level + 1) ++
      emitIndented (level + 1) x (emitIndentedItems level xs rest)

/-- The entries after the first, up to the closing brace. -/
def emitIndentedEntries (level : Nat) : List (String × Json) → List Char → List Char
  | [], rest => newline level ++ '\x7d' :: rest
  | (k, x) :: xs, rest =>
    ',' :: newline (level + 1) ++ quote k ++ ':' :: ' ' ::
      emitIndented (level + 1) x (emitIndentedEntries level xs rest)

end

/-- The indented form of a value. -/
def renderIndented (j : Json) : String :=
  String.ofList (emitIndented 0 j [])

end TagGraph.Json
