import TagGraph.NodeId
import TagGraph.Table.Cell

/-!
# Lexemes

The words of the language in which tables are defined. A lexeme keeps how it is spelled and what
stands in front of it, so that the text of a condition can be told again as it was written.
-/

namespace TagGraph

/-- What a lexeme is. A name in double quotes may turn out to be a text. -/
inductive Token where
  | word (s : String)
  | quoted (s : String)
  | bracketed (s : String)
  | text (s : String)
  | number (c : Cell)
  | bytes (b : List UInt8)
  | mark (s : String)
deriving DecidableEq

/-- A token, how it is spelled, and the blanks and comments in front of it. -/
structure Lexeme where
  gap : List Char
  spelled : List Char
  token : Token
deriving DecidableEq

namespace Lexeme

/-! ## Classes of characters -/

/-- Whether a name can start with a character. -/
def startsName (c : Char) : Bool :=
  c.isAlpha || c = '_' || (128 ≤ c.toNat && c.toNat ≠ 0xFEFF)

/-- Whether a name can go on with a character. -/
def inName (c : Char) : Bool :=
  c.isAlphanum || c = '_' || c = '$' || 128 ≤ c.toNat

/-- The characters that stand between lexemes and mean nothing. -/
def isGap (c : Char) : Bool :=
  c = ' ' || c = '\t' || c = '\n' || c.toNat = 12 || c = '\r' || c.toNat = 0xFEFF

/-! ## Gaps -/

/-- The rest of a text behind the end of a comment, over which the text is at an end too. -/
def afterComment : List Char → List Char
  | '*' :: '/' :: cs => cs
  | _ :: cs => afterComment cs
  | [] => []

/-- The rest of a text behind blanks and comments. -/
def skipGap : (fuel : Nat) → List Char → List Char
  | 0, cs => cs
  | fuel + 1, cs =>
    match cs with
    | '-' :: '-' :: rest => skipGap fuel (rest.dropWhile (· ≠ '\n'))
    | '/' :: '*' :: c :: rest => skipGap fuel (afterComment (c :: rest))
    | c :: rest => if isGap c then skipGap fuel rest else c :: rest
    | [] => []

/-! ## Tokens -/

/-- The text up to a closing quote, where a doubled quote stands for one, and the rest. -/
def quotedText? (quote : Char) : List Char → Option (List Char × List Char)
  | [] => none
  | [c] => if c = quote then some ([], []) else none
  | c :: d :: rest =>
    if c ≠ quote then (quotedText? quote (d :: rest)).map fun (s, r) => (c :: s, r)
    else if d = quote then (quotedText? quote rest).map fun (s, r) => (quote :: s, r)
    else some ([], d :: rest)

/-- The text up to a closing bracket, and the rest. -/
def bracketedText? (cs : List Char) : Option (List Char × List Char) :=
  match cs.dropWhile (· ≠ ']') with
  | _ :: rest => some (cs.takeWhile (· ≠ ']'), rest)
  | [] => none

/-- The bytes that pairs of hexadecimal digits write. -/
def hexBytes? : List Char → Option (List UInt8)
  | [] => some []
  | [_] => none
  | a :: b :: rest => do
    let high ← NodeId.hexValue? a
    let low ← NodeId.hexValue? b
    let bytes ← hexBytes? rest
    return UInt8.ofNat (16 * high + low) :: bytes

/-- The whole number of sixty-four bits that hexadecimal digits write. -/
def hexWhole? (cs : List Char) : Option Cell :=
  if cs.isEmpty || 16 < (cs.dropWhile (· = '0')).length then none
  else (NodeId.hexNumber? 0 cs).map fun n => .integer (Int.bmod n (2 ^ 64))

/-- The number at the beginning of a text, and the rest. No name may follow it directly. -/
def number? (cs : List Char) : Option (Cell × List Char) := do
  let (c, rest) ←
    match cs with
    | '0' :: x :: rest =>
      if (x = 'x' || x = 'X') && (rest.head?.bind NodeId.hexValue?).isSome then
        let digits := rest.takeWhile fun c => (NodeId.hexValue? c).isSome
        (hexWhole? digits).map fun c => (c, rest.drop digits.length)
      else Cell.numeralAhead? cs
    | _ => Cell.numeralAhead? cs
  if rest.head?.any inName then none else some (c, rest)

/-- The marks of two or three characters, and those of one. -/
def marks : List String :=
  ["->>", "->", "||", "<<", ">>", "<=", ">=", "<>", "!=", "==", "(", ")", ";", "+", "-", "*", "/",
    "%", "=", "<", ">", "|", "&", "~", ",", "."]

/-- The token at the beginning of a text, and the rest. -/
def token? (cs : List Char) : Option (Token × List Char) :=
  match cs with
  | [] => none
  | c :: rest =>
    if c = '"' then (quotedText? '"' rest).map fun (s, r) => (.quoted (String.ofList s), r)
    else if c = '\x60' then
      (quotedText? '\x60' rest).map fun (s, r) => (.bracketed (String.ofList s), r)
    else if c = '[' then (bracketedText? rest).map fun (s, r) => (.bracketed (String.ofList s), r)
    else if c = '\'' then (quotedText? '\'' rest).map fun (s, r) => (.text (String.ofList s), r)
    else if (c = 'x' || c = 'X') && rest.head? = some '\'' then do
      let (s, r) ← quotedText? '\'' (rest.drop 1)
      let bytes ← hexBytes? s
      return (.bytes bytes, r)
    else if Decimal.isDigit c || (c = '.' && rest.head?.any Decimal.isDigit) then
      (number? cs).map fun (n, r) => (.number n, r)
    else if startsName c then
      some (.word (String.ofList (cs.takeWhile inName)), cs.dropWhile inName)
    else
      (marks.find? fun m => m.toList.isPrefixOf cs).map fun m =>
        (.mark m, cs.drop m.toList.length)

/-- The lexemes of a text, if it has none that is ill-formed. What stands behind the last one is
dropped. -/
def scan : (fuel : Nat) → List Char → Option (List Lexeme)
  | 0, _ => none
  | fuel + 1, cs =>
    let rest := skipGap (cs.length + 1) cs
    if rest.isEmpty then some []
    else do
      let (token, behind) ← token? rest
      let others ← scan fuel behind
      return ⟨cs.take (cs.length - rest.length), rest.take (rest.length - behind.length),
        token⟩ :: others

/-- The lexemes of a text, if it has none that is ill-formed. -/
def ofString? (s : String) : Option (List Lexeme) :=
  scan (s.length + 1) s.toList

/-! ## Words -/

/-- The words that are never names. -/
def reserved : List String :=
  ["add", "all", "alter", "and", "as", "autoincrement", "between", "case", "check", "collate",
    "commit", "constraint", "create", "default", "deferrable", "delete", "distinct", "drop",
    "else", "escape", "except", "exists", "foreign", "from", "group", "having", "in", "index",
    "insert", "intersect", "into", "is", "isnull", "join", "limit", "not", "nothing", "notnull",
    "null", "on", "or", "order", "primary", "references", "returning", "select", "set", "table",
    "then", "to", "transaction", "union", "unique", "update", "using", "values", "when", "where"]

/-- Whether a lexeme is a word, without regard to case. -/
def isWord (word : String) (l : Lexeme) : Bool :=
  match l.token with
  | .word s => s.map Char.toLower == word
  | _ => false

/-- Whether a lexeme is a mark. -/
def isMark (mark : String) (l : Lexeme) : Bool :=
  l.token == .mark mark

/-- The name that a lexeme is where only a name can stand. -/
def name? (l : Lexeme) : Option String :=
  match l.token with
  | .word s => if reserved.contains (s.map Char.toLower) then none else some s
  | .quoted s => some s
  | .bracketed s => some s
  | .text s => some s
  | _ => none

/-- The words that are names except in types and defaults. -/
def joining : List String :=
  ["cross", "full", "inner", "left", "natural", "outer", "right"]

/-- The word of a type that a lexeme is. -/
def typeWord? (l : Lexeme) : Option String :=
  if joining.any (isWord · l) || l.isWord "indexed" then none else l.name?

/-! ## Texts -/

/-- The text of lexemes as written, with what stands in front of each. -/
def textOf (ls : List Lexeme) : List Char :=
  ls.flatMap fun l => l.gap ++ l.spelled

/-- The text of lexemes as written, without blanks around it. -/
def trimmedText (ls : List Lexeme) : List Char :=
  (((textOf ls).dropWhile Cell.isSpace).reverse.dropWhile Cell.isSpace).reverse

end Lexeme

end TagGraph
