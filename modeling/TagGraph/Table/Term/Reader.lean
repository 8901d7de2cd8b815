import TagGraph.Table.Basic
import TagGraph.Table.Term.Basic

/-!
# Reading terms

Terms as they are written in conditions and defaults. Operators bind in the usual order, from `OR`
over `AND`, `NOT`, equality, order, bits, sums and products to `||`, and from left to right. A term
that names an unknown column or function, or that looks into other tables, is refused.
-/

namespace TagGraph.Term

/-- The columns that a term can name, and the table that they belong to. A term for a standard value
can name none, but is not looked at closely until its value is needed. -/
structure Scope where
  table : String
  columns : List Column
  isStandard : Bool := false

/-- A reader of something at the beginning of lexemes: what it has read, and the rest. -/
abbrev Reader (α : Type) : Type :=
  List Lexeme → Option (α × List Lexeme)

/-- The names of the row number that every table has. -/
def rowNumberNames : List String := ["rowid", "oid", "_rowid_"]

/-- The column with a name as a term. -/
def ofColumn? (scope : Scope) (name : String) : Option Term :=
  match scope.columns.find? (sameName ·.name name) with
  | some c => some (.column c.name c.affinity c.collation)
  | none =>
    if rowNumberNames.contains (Text.lowerAscii name) && !scope.columns.isEmpty then
      some (.column (Text.lowerAscii name) .integer .binary)
    else none

/-- The collation with a name. -/
def collation? (name : String) : Option Collation :=
  match Text.lowerAscii name with
  | "binary" => some .binary
  | "nocase" => some .caseless
  | "rtrim" => some .unpadded
  | _ => none

/-! ## Levels of binding -/

/-- The operators of one mark that stand between two operands, with the level at which they bind. -/
def markOperators : List (String × Nat × BinaryOp) := [
  ("=", 4, .eq), ("==", 4, .eq), ("!=", 4, .ne), ("<>", 4, .ne),
  ("<", 5, .lt), ("<=", 5, .le), (">", 5, .gt), (">=", 5, .ge),
  ("&", 6, .bitAnd), ("|", 6, .bitOr), ("<<", 6, .shiftLeft), (">>", 6, .shiftRight),
  ("+", 7, .add), ("-", 7, .sub), ("*", 8, .mul), ("/", 8, .div), ("%", 8, .rem),
  ("||", 9, .concat)]

/-- The operators of one word, with the level at which they bind. -/
def wordOperators : List (String × Nat × BinaryOp) := [("or", 1, .or), ("and", 2, .and)]

/-- The operator that a lexeme is. -/
def operator? (l : Lexeme) : Option (Nat × BinaryOp) :=
  match l.token with
  | .mark m => markOperators.lookup m
  | .word w => wordOperators.lookup (Text.lowerAscii w)
  | _ => none

/-- The level of the operators that compare for equality and likeness. -/
def equalityLevel : Nat := 4

/-! ## Parts -/

/-- A given mark. -/
def mark (m : String) : Reader Unit
  | l :: ls => if l.isMark m then some ((), ls) else none
  | [] => none

/-- A given word. -/
def word (w : String) : Reader Unit
  | l :: ls => if l.isWord w then some ((), ls) else none
  | [] => none

/-- A name. -/
def name : Reader String
  | l :: ls => l.name?.map (·, ls)
  | [] => none

/-- Whether lexemes begin with given words. -/
def beginsWith : List String → List Lexeme → Bool
  | [], _ => true
  | w :: ws, l :: ls => l.isWord w && beginsWith ws ls
  | _, [] => false

/-- A number with a sign, as in the length of a type. -/
def signed : Reader Unit
  | l :: ls =>
    match l.token, ls with
    | .number _, _ => some ((), ls)
    | .mark "+", { token := .number _, .. } :: rest => some ((), rest)
    | .mark "-", { token := .number _, .. } :: rest => some ((), rest)
    | _, _ => none
  | [] => none

/-- A length in parentheses, if there is one. -/
def typeLength : Reader Unit
  | ls =>
    match mark "(" ls with
    | none => some ((), ls)
    | some ((), ls) => do
      let ((), ls) ← signed ls
      match mark "," ls with
      | some ((), ls) => do
        let ((), ls) ← signed ls
        mark ")" ls
      | none => mark ")" ls

/-- The name of a type: words, and a length behind them. Its text is as it is written, but the one
of a quoted word in front stands alone. -/
def typeName : Reader String
  | ls =>
    let words := ls.takeWhile fun l => l.typeWord?.isSome
    if words.isEmpty then some ("", ls)
    else do
      let ((), rest) ← typeLength (ls.drop words.length)
      let text := match words.head?.map (·.token) with
        | some (.quoted s) | some (.bracketed s) | some (.text s) => s
        | _ => String.ofList (Lexeme.trimmedText (ls.take (ls.length - rest.length)))
      return (text, rest)

/-- The literal that a lexeme is. A word may stand for the present time, which has the form of a
date and a time. -/
def literal? (l : Lexeme) : Option Cell :=
  match l.token with
  | .number c => some c
  | .text s => some (.text s)
  | .bytes b => some (.bytes b)
  | .word w =>
    match Text.lowerAscii w with
    | "null" => some .null
    | "current_timestamp" => some (.text "1970-01-01 00:00:00")
    | "current_date" => some (.text "1970-01-01")
    | "current_time" => some (.text "00:00:00")
    | _ => none
  | _ => none

/-- What a name that no column has stands for: the words for truth, or a text in double quotes. A
standard value has no such texts. -/
def unresolved? (scope : Scope) (l : Lexeme) : Option Term :=
  match l.token with
  | .quoted s => if scope.isStandard then none else some (.literal (.text s))
  | .word w =>
    match Text.lowerAscii w with
    | "true" => some (.literal (.integer 1))
    | "false" => some (.literal (.integer 0))
    | _ => none
  | _ => none

/-- The negation of a term, if it is wanted. -/
def negatedIf (negated : Bool) (t : Term) : Term :=
  if negated then .unary .not t else t

/-- The call of a function with a fitting number of arguments. -/
def call? (scope : Scope) (function : String) (arguments : List Term) : Option Term :=
  let function := Text.lowerAscii function
  let known : Option RowFunction := (RowFunction.names.lookup function).filter fun f =>
    f.arity.1 ≤ arguments.length && f.arity.2.all (arguments.length ≤ ·)
  if scope.isStandard then some (.call (known.getD .unknown) arguments)
  else known.map fun f => .call f arguments

/-- The branches of a choice as one term. -/
def choice (base : Option Term) (otherwise : Term) : List (Term × Term) → Term
  | [] => otherwise
  | (condition, value) :: rest =>
    let condition := match base with
      | some t => .binary .eq t condition
      | none => condition
    .call .iif [condition, value, choice base otherwise rest]

/-! ## Terms -/

mutual

/-- A term whose operators all bind at least at a level. -/
def term (scope : Scope) : (fuel : Nat) → (level : Nat) → Reader Term
  | 0, _, _ => none
  | fuel + 1, level, ls => do
    let (t, rest) ← operand scope fuel ls
    operators scope fuel level t rest

/-- An operand: a literal, a column, a call, or a term in parentheses, with signs in front. A
negation is one too, and takes in all that binds more closely than it. -/
def operand (scope : Scope) : (fuel : Nat) → Reader Term
  | 0, _ => none
  | fuel + 1, ls =>
    match ls with
    | [] => none
    | l :: rest =>
      let signs : Option UnaryOp := match l.token with
        | .mark "-" => some .minus
        | .mark "+" => some .plus
        | .mark "~" => some .complement
        | _ => none
      match signs with
      | some op => do
        let (t, rest) ← operand scope fuel rest
        return (.unary op t, rest)
      | none =>
        if l.isWord "not" then do
          let (t, rest) ← term scope fuel 3 rest
          return (.unary .not t, rest)
        else if l.isMark "(" then do
          let (t, rest) ← term scope fuel 1 rest
          let ((), rest) ← mark ")" rest
          return (t, rest)
        else if l.isWord "case" then do
          let (base, rest) ←
            if beginsWith ["when"] rest then some (none, rest)
            else (term scope fuel 1 rest).map fun (t, rest) => (some t, rest)
          let (branches, rest) ← branches scope fuel rest
          let (otherwise, rest) ←
            if beginsWith ["else"] rest then term scope fuel 1 (rest.drop 1)
            else some (.literal .null, rest)
          let ((), rest) ← word "end" rest
          if branches.isEmpty then none else some (choice base otherwise branches, rest)
        else if l.isWord "cast" && (mark "(" rest).isSome then do
          let (t, rest) ← term scope fuel 1 (rest.drop 1)
          let ((), rest) ← word "as" rest
          let (type, rest) ← typeName rest
          let ((), rest) ← mark ")" rest
          return (.cast t (.ofType type), rest)
        else
          match literal? l with
          | some c => some (.literal c, rest)
          | none => do
            let name ← l.name?
            if (mark "(" rest).isSome then do
              let (arguments, rest) ← arguments scope fuel (rest.drop 1)
              let t ← call? scope name arguments
              return (t, rest)
            else if (mark "." rest).isSome then do
              let (inner, rest) ← Term.name (rest.drop 1)
              if !sameName name scope.table then none
              let t ← ofColumn? scope inner
              return (t, rest)
            else
              match (ofColumn? scope name).or (unresolved? scope l) with
              | some t => some (t, rest)
              | none => none

/-- The operators behind a term that bind at least at a level. -/
def operators (scope : Scope) : (fuel : Nat) → (level : Nat) → Term → Reader Term
  | 0, _, _, _ => none
  | fuel + 1, level, t, ls =>
    match ls with
    | [] => some (t, [])
    | l :: rest =>
      if l.isWord "collate" then do
        let (name, rest) ← name rest
        let c ← collation? name
        operators scope fuel level (.collated t c) rest
      else
        match operator? l with
        | some (bound, op) =>
          if bound < level then some (t, l :: rest)
          else do
            let (u, rest) ← term scope fuel (bound + 1) rest
            operators scope fuel level (.binary op t u) rest
        | none =>
          if equalityLevel < level then some (t, l :: rest)
          else if l.isWord "isnull" then operators scope fuel level (.unary .isNull t) rest
          else if l.isWord "notnull" then
            operators scope fuel level (.unary .not (.unary .isNull t)) rest
          else if beginsWith ["not", "null"] (l :: rest) then
            operators scope fuel level (.unary .not (.unary .isNull t)) (rest.drop 1)
          else if l.isWord "is" then do
            let negated := beginsWith ["not"] rest
            let rest := if negated then rest.drop 1 else rest
            let distinct := beginsWith ["distinct", "from"] rest
            let (u, rest) ← term scope fuel (equalityLevel + 1)
              (if distinct then rest.drop 2 else rest)
            operators scope fuel level (negatedIf (negated != distinct) (.binary .is t u)) rest
          else do
            let negated := l.isWord "not"
            match if negated then rest else l :: rest with
            | [] => if negated then none else some (t, [])
            | k :: rest =>
              if k.isWord "between" then do
                let (low, rest) ← term scope fuel equalityLevel rest
                let ((), rest) ← word "and" rest
                let (high, rest) ← term scope fuel (equalityLevel + 1) rest
                operators scope fuel level
                  (negatedIf negated (.binary .and (.binary .ge t low) (.binary .le t high))) rest
              else if k.isWord "in" then do
                let ((), rest) ← mark "(" rest
                let (items, rest) ← arguments scope fuel rest
                let any := items.foldr (fun u any => .binary .or (.binary .eq t u) any)
                  (.literal (.integer 0))
                operators scope fuel level (negatedIf negated any) rest
              else if k.isWord "like" || k.isWord "glob" then do
                let (pattern, rest) ← term scope fuel (equalityLevel + 1) rest
                let f : RowFunction := if k.isWord "like" then .like else .glob
                if beginsWith ["escape"] rest then do
                  let (escape, rest) ← term scope fuel (equalityLevel + 2) (rest.drop 1)
                  operators scope fuel level (negatedIf negated (.call f [pattern, t, escape])) rest
                else operators scope fuel level (negatedIf negated (.call f [pattern, t])) rest
              else if negated then none
              else some (t, k :: rest)

/-- Terms with commas between them and a closing parenthesis behind them. -/
def arguments (scope : Scope) : (fuel : Nat) → Reader (List Term)
  | 0, _ => none
  | fuel + 1, ls =>
    match mark ")" ls with
    | some ((), rest) => some ([], rest)
    | none => do
      let (t, rest) ← term scope fuel 1 ls
      match mark "," rest with
      | some ((), rest) => do
        -- A comma is followed by a further term.
        if (mark ")" rest).isSome then none
        let (ts, rest) ← arguments scope fuel rest
        return (t :: ts, rest)
      | none => do
        let ((), rest) ← mark ")" rest
        return ([t], rest)

/-- The branches of a choice. -/
def branches (scope : Scope) : (fuel : Nat) → Reader (List (Term × Term))
  | 0, _ => none
  | fuel + 1, ls =>
    if beginsWith ["when"] ls then do
      let (condition, rest) ← term scope fuel 1 (ls.drop 1)
      let ((), rest) ← word "then" rest
      let (value, rest) ← term scope fuel 1 rest
      let (others, rest) ← branches scope fuel rest
      return ((condition, value) :: others, rest)
    else some ([], ls)

end

/-- A term at the beginning of lexemes. Each step of reading takes at most three calls to the next
lexeme. -/
def read (scope : Scope) (ls : List Lexeme) : Option (Term × List Lexeme) :=
  term scope (4 * ls.length + 4) 1 ls

/-- The term that lexemes write. -/
def ofLexemes? (scope : Scope) (ls : List Lexeme) : Option Term :=
  match read scope ls with
  | some (t, []) => some t
  | _ => none

end TagGraph.Term
