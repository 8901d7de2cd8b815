import TagGraph.Table.Term.Reader
import TagGraph.Text.Blank

/-!
# Reading definitions

A table is defined by a name and a list of definitions: those of its columns first, then those of
constraints on the whole table. A definition that is ill-formed, or that names a column that is not
there, is refused.
-/

namespace TagGraph.Table

open Term (Reader mark word beginsWith)

/-- A key as it is read: its collations are those of its columns unless it names others. -/
structure DraftKey where
  columns : List (String × Option Collation)
  isPrimary : Bool
  resolution : Option Resolution

/-- A table while it is read, its keys, and the name for the constraints to come. -/
structure Draft where
  table : Table
  keys : List DraftKey
  label : Option String

namespace Draft

/-- The column that is being defined, which is the last one. -/
def lastColumn? (d : Draft) : Option Column :=
  d.table.columns.getLast?

/-- Changes the column that is being defined. -/
def changeColumn (d : Draft) (change : Column → Column) : Draft :=
  { d with table := { d.table with
      columns := d.table.columns.dropLast ++ d.lastColumn?.toList.map change } }

/-- Adds a column. -/
def addColumn (d : Draft) (c : Column) : Draft :=
  { d with table := { d.table with columns := d.table.columns ++ [c] }, label := none }

/-- Adds a condition under the name at hand. -/
def addCondition (d : Draft) (body : List Lexeme) : Draft :=
  { d with table := { d.table with conditions := d.table.conditions ++ [⟨d.label, body⟩] } }

/-- Adds a key. -/
def addKey (d : Draft) (k : DraftKey) : Draft :=
  { d with keys := d.keys ++ [k] }

/-- Adds the primary key. A single column of whole numbers becomes the row number; only such a one
can count on. -/
def addPrimary? (d : Draft) (columns : List (String × Option Collation))
    (resolution : Option Resolution) (descending counting : Bool) : Option Draft :=
  let column : Option Column := match columns with
    | [(name, _)] => d.table.column? name
    | _ => none
  if d.table.rowNumber.isSome || d.keys.any (·.isPrimary) then none
  else
    match column with
    | some c =>
      if Text.lowerAscii c.type = "integer" && !descending then
        some { d with table := { d.table with
          rowNumber := some c.name, numberResolution := resolution } }
      else if counting then none
      else some (d.addKey ⟨columns, true, resolution⟩)
    | none => if counting then none else some (d.addKey ⟨columns, true, resolution⟩)

/-- Adds a reference to a column of another table or to as many as there are columns. -/
def addReference? (d : Draft) (r : Reference) : Option Draft :=
  if r.targets.isEmpty || r.targets.length == r.columns.length then
    some { d with table := { d.table with references := d.table.references ++ [r] } }
  else none

/-- Says of the last reference when it is looked at. -/
def deferReference (d : Draft) (deferred : Bool) : Draft :=
  let references := d.table.references
  { d with table := { d.table with
      references := references.dropLast ++
        references.getLast?.toList.map fun r => { r with deferred } } }

end Draft

/-! ## Parts of constraints -/

/-- The lexemes up to the parenthesis that closes the ones opened, and the rest. -/
def enclosed? : (depth : Nat) → List Lexeme → Option (List Lexeme × List Lexeme)
  | _, [] => none
  | depth, l :: ls =>
    if l.isMark ")" then
      match depth with
      | 0 => some ([], ls)
      | depth + 1 => (enclosed? depth ls).map fun (inner, rest) => (l :: inner, rest)
    else
      (enclosed? (if l.isMark "(" then depth + 1 else depth) ls).map fun (inner, rest) =>
        (l :: inner, rest)

/-- What is in parentheses. -/
def parenthesized : Reader (List Lexeme)
  | ls => (mark "(" ls).bind fun ((), ls) => enclosed? 0 ls

/-- The word for a resolution. -/
def resolution? (l : Lexeme) : Option Resolution :=
  if l.isWord "rollback" || l.isWord "abort" || l.isWord "fail" then some .refuse
  else if l.isWord "ignore" then some .skip
  else if l.isWord "replace" then some .replace
  else none

/-- What is said about rows that break a constraint. -/
def onConflict : Reader (Option Resolution)
  | ls =>
    if beginsWith ["on", "conflict"] ls then
      match ls.drop 2 with
      | l :: rest => (resolution? l).map fun r => (some r, rest)
      | [] => none
    else some (none, ls)

/-- The direction of a sort, and whether it is descending. -/
def direction : Reader Bool
  | ls =>
    if beginsWith ["asc"] ls then some (false, ls.drop 1)
    else if beginsWith ["desc"] ls then some (true, ls.drop 1)
    else some (false, ls)

/-- A word that may be there. -/
def optionalWord (w : String) : Reader Bool
  | ls => if beginsWith [w] ls then some (true, ls.drop 1) else some (false, ls)

/-- The names of a list behind its opening parenthesis. -/
def namesBehind : (fuel : Nat) → Reader (List String)
  | 0, _ => none
  | fuel + 1, ls => do
    let (n, ls) ← Term.name ls
    match mark "," ls with
    | some ((), ls) => do
      let (ns, ls) ← namesBehind fuel ls
      return (n :: ns, ls)
    | none => do
      let ((), ls) ← mark ")" ls
      return ([n], ls)

/-- A list of names in parentheses. -/
def nameList : Reader (List String)
  | ls => (mark "(" ls).bind fun ((), ls) => namesBehind ls.length ls

/-- The columns of a key behind its opening parenthesis, and whether they count on. -/
def keyColumnsBehind : (fuel : Nat) → Reader (List (String × Option Collation) × Bool)
  | 0, _ => none
  | fuel + 1, ls => do
    let (n, ls) ← Term.name ls
    let (collation, ls) ←
      if beginsWith ["collate"] ls then do
        let (c, ls) ← Term.name (ls.drop 1)
        let c ← Term.collation? c
        pure (some c, ls)
      else some (none, ls)
    let (_, ls) ← direction ls
    match mark "," ls with
    | some ((), ls) => do
      let ((columns, counting), ls) ← keyColumnsBehind fuel ls
      return (((n, collation) :: columns, counting), ls)
    | none => do
      let (counting, ls) ← optionalWord "autoincrement" ls
      let ((), ls) ← mark ")" ls
      return (([(n, collation)], counting), ls)

/-- The columns of a key in parentheses. -/
def keyColumns : Reader (List (String × Option Collation) × Bool)
  | ls => (mark "(" ls).bind fun ((), ls) => keyColumnsBehind ls.length ls

/-- What happens to rows when those that they refer to go away. -/
def deleteRule : Reader DeleteRule
  | ls =>
    if beginsWith ["set", "null"] ls || beginsWith ["set", "default"] ls then
      some (.clear, ls.drop 2)
    else if beginsWith ["cascade"] ls then some (.cascade, ls.drop 1)
    else if beginsWith ["restrict"] ls then some (.refuse, ls.drop 1)
    else if beginsWith ["no", "action"] ls then some (.refuse, ls.drop 2)
    else none

/-- What is said of a reference behind its target. -/
def referenceRules : (fuel : Nat) → Reference → Reader Reference
  | 0, _, _ => none
  | fuel + 1, r, ls =>
    if beginsWith ["on", "delete"] ls then do
      let (rule, ls) ← deleteRule (ls.drop 2)
      referenceRules fuel { r with onDelete := rule } ls
    else if beginsWith ["on", "update"] ls || beginsWith ["on", "insert"] ls then do
      let (_, ls) ← deleteRule (ls.drop 2)
      referenceRules fuel r ls
    else if beginsWith ["match"] ls then do
      let (_, ls) ← Term.name (ls.drop 1)
      referenceRules fuel r ls
    else some (r, ls)

/-- A reference of columns, behind its first word. -/
def reference (columns : List String) : Reader Reference
  | ls => do
    let (table, ls) ← Term.name ls
    let (targets, ls) ← if (mark "(" ls).isSome then nameList ls else some ([], ls)
    let r : Reference := { columns, table, targets }
    referenceRules (ls.length + 1) r ls

/-- When a reference is looked at, behind the word for it. -/
def deferral : Reader Bool
  | ls =>
    if beginsWith ["initially", "deferred"] ls then some (true, ls.drop 2)
    else if beginsWith ["initially", "immediate"] ls then some (false, ls.drop 2)
    else some (false, ls)

/-! ## Defaults -/

/-- The value of a literal with a sign in front of it, or of a name, which stands for its text. -/
def plainStandard : Reader Cell
  | [] => none
  | l :: ls =>
    match l.token, ls with
    | .mark "-", k :: rest => (Term.literal? k).map fun c => (Term.applyUnary .minus c, rest)
    | .mark "+", k :: rest => (Term.literal? k).map fun c => (c, rest)
    | _, _ =>
      match Term.literal? l with
      | some c => some (c, ls)
      | none =>
        -- The words that no type has are no defaults either, but for one.
        match if l.isWord "indexed" then l.name? else l.typeWord? with
        | some s =>
          some (match Text.lowerAscii s with
            | "true" => .integer 1
            | "false" => .integer 0
            | _ => .text s, ls)
        | none => none

/-- The value that rows have which give none: a literal, or a term in parentheses without columns.
-/
def standardValue : Reader (Option Cell)
  | ls =>
    if (mark "(" ls).isSome then do
      let (inner, ls) ← parenthesized ls
      let t ← Term.ofLexemes? { table := "", columns := [], isStandard := true } inner
      return (if t.isKnown then some (t.eval fun _ => .null) else none, ls)
    else (plainStandard ls).map fun (c, ls) => (some c, ls)

/-! ## Columns -/

/-- A constraint of the column that is being defined. -/
def columnConstraint (d : Draft) (ls : List Lexeme) : Option (Draft × List Lexeme) := do
  let c ← d.lastColumn?
  let own : List (String × Option Collation) := [(c.name, none)]
  if beginsWith ["constraint"] ls then
    let (label, ls) ← Term.name (ls.drop 1)
    return ({ d with label := some label }, ls)
  else if beginsWith ["default"] ls then
    let (standard, ls) ← standardValue (ls.drop 1)
    return (d.changeColumn fun c => { c with standard }, ls)
  else if beginsWith ["null"] ls then
    let (_, ls) ← onConflict (ls.drop 1)
    return (d, ls)
  else if beginsWith ["not", "null"] ls then
    let (r, ls) ← onConflict (ls.drop 2)
    return (d.changeColumn fun c => { c with required := some (r.getD .refuse) }, ls)
  else if beginsWith ["primary", "key"] ls then
    let (descending, ls) ← direction (ls.drop 2)
    let (r, ls) ← onConflict ls
    let (counting, ls) ← optionalWord "autoincrement" ls
    let d ← d.addPrimary? own r descending counting
    return (d, ls)
  else if beginsWith ["unique"] ls then
    let (r, ls) ← onConflict (ls.drop 1)
    return (d.addKey ⟨own, false, r⟩, ls)
  else if beginsWith ["check"] ls then
    let (body, ls) ← parenthesized (ls.drop 1)
    return (d.addCondition body, ls)
  else if beginsWith ["references"] ls then
    let (r, ls) ← reference [c.name] (ls.drop 1)
    let d ← d.addReference? r
    return (d, ls)
  else if beginsWith ["deferrable"] ls then
    let (deferred, ls) ← deferral (ls.drop 1)
    return (d.deferReference deferred, ls)
  else if beginsWith ["not", "deferrable"] ls then
    let (_, ls) ← deferral (ls.drop 2)
    return (d.deferReference false, ls)
  else if beginsWith ["collate"] ls then
    let (s, ls) ← Term.name (ls.drop 1)
    let collation ← Term.collation? s
    return (d.changeColumn fun c => { c with collation }, ls)
  else if beginsWith ["as"] ls then
    let (_, ls) ← parenthesized (ls.drop 1)
    let (_, ls) ← optionalWord "stored" ls
    let (_, ls) ← optionalWord "virtual" ls
    return (d.changeColumn fun c => { c with computed := true }, ls)
  else none

/-- Whether a definition ends here. -/
def endsDefinition : List Lexeme → Bool
  | l :: _ => l.isMark "," || l.isMark ")"
  | [] => true

/-- The constraints of the column that is being defined. -/
def columnConstraints : (fuel : Nat) → Draft → List Lexeme → Option (Draft × List Lexeme)
  | 0, _, _ => none
  | fuel + 1, d, ls =>
    if endsDefinition ls then some (d, ls)
    else (columnConstraint d ls).bind fun (d, ls) => columnConstraints fuel d ls

/-- The words that announce a computed column belong to the text of its type no more. -/
def typeWithoutAnnouncement (type : String) : String :=
  let cs := type.toList
  let low := (Text.lowerAscii type).toList
  let announcement := "generated always".toList
  if announcement.isSuffixOf low then
    String.ofList (Text.trimRight (cs.take (cs.length - announcement.length)))
  else type

/-- A column with its constraints. -/
def column (d : Draft) (ls : List Lexeme) : Option (Draft × List Lexeme) := do
  let (n, ls) ← Term.name ls
  let (type, ls) ← Term.typeName ls
  columnConstraints (ls.length + 1)
    (d.addColumn { name := n, type := typeWithoutAnnouncement type }) ls

/-! ## Tables -/

/-- A constraint of the whole table. -/
def tableConstraint (d : Draft) (ls : List Lexeme) : Option (Draft × List Lexeme) := do
  if beginsWith ["constraint"] ls then
    let (label, ls) ← Term.name (ls.drop 1)
    return ({ d with label := some label }, ls)
  else if beginsWith ["primary", "key"] ls then
    let ((columns, counting), ls) ← keyColumns (ls.drop 2)
    let (r, ls) ← onConflict ls
    let d ← d.addPrimary? columns r false counting
    return (d, ls)
  else if beginsWith ["unique"] ls then
    let ((columns, counting), ls) ← keyColumns (ls.drop 1)
    let (r, ls) ← onConflict ls
    if counting then none
    return (d.addKey ⟨columns, false, r⟩, ls)
  else if beginsWith ["check"] ls then
    let (body, ls) ← parenthesized (ls.drop 1)
    let (_, ls) ← onConflict ls
    return (d.addCondition body, ls)
  else if beginsWith ["foreign", "key"] ls then
    let (columns, ls) ← nameList (ls.drop 2)
    let ((), ls) ← word "references" ls
    let (r, ls) ← reference columns ls
    let negated := beginsWith ["not", "deferrable"] ls
    let ls := if negated then ls.drop 1 else ls
    let (deferred, ls) ←
      if beginsWith ["deferrable"] ls then deferral (ls.drop 1) else some (false, ls)
    let d ← d.addReference? { r with deferred := deferred && !negated }
    return (d, ls)
  else none

/-- The constraints of the whole table. A comma may stand between two. -/
def tableConstraints : (fuel : Nat) → Draft → List Lexeme → Option (Draft × List Lexeme)
  | 0, _, _ => none
  | fuel + 1, d, ls => do
    let (d, ls) ← tableConstraint d ls
    match mark "," ls with
    | some ((), ls) => tableConstraints fuel { d with label := none } ls
    | none => if endsDefinition ls then some (d, ls) else tableConstraints fuel d ls

/-- The words that begin a constraint of the whole table. -/
def constraintWords : List String := ["constraint", "primary", "unique", "check", "foreign"]

/-- The definitions up to the end. -/
def definitions : (fuel : Nat) → Draft → List Lexeme → Option (Draft × List Lexeme)
  | 0, _, _ => none
  | fuel + 1, d, ls => do
    let (d, ls) ← column d ls
    match mark "," ls with
    | some ((), ls) =>
      -- A name that the last column has given to its constraints is still in force.
      if constraintWords.any fun w => beginsWith [w] ls then tableConstraints (ls.length + 1) d ls
      else definitions fuel d ls
    | none => some (d, ls)

/-- The keys of a draft with the collations of their columns. A key that is there already adds
nothing, and must not say anything else about rows that break it. -/
def settleKeys? (columns : List Column) : List DraftKey → Option (List Key)
  | [] => some []
  | k :: ks => do
    let settled ← k.columns.mapM fun (n, demanded) => do
      let c ← columns.find? (sameName ·.name n)
      return (c.name, demanded.getD c.collation)
    let others ← settleKeys? columns ks
    match others.find? (·.columns == settled) with
    | none => return ⟨settled, k.isPrimary, k.resolution⟩ :: others
    | some twin =>
      if twin.resolution.isSome && k.resolution.isSome && twin.resolution ≠ k.resolution then none
      return ⟨settled, k.isPrimary || twin.isPrimary, k.resolution.or twin.resolution⟩ ::
        others.filter (·.columns != settled)

/-- The table of a draft, if all that it names is there. -/
def settle? (d : Draft) : Option Table := do
  let t := d.table
  let columns := t.columns
  let scope : Term.Scope := { table := t.name, columns }
  let keys ← settleKeys? columns d.keys
  let computed := columns.filter (·.computed)
  if repeatsName columns || computed.length == columns.length then none
  -- The primary key must be given and cannot be computed.
  let primary := t.rowNumber.toList ++
    (keys.filter (·.isPrimary)).flatMap fun k => k.columns.map Prod.fst
  if computed.any fun c => primary.any (sameName · c.name) then none
  if !t.references.all fun r => r.columns.all fun c => (t.column? c).isSome then none
  if !t.conditions.all fun c => (Term.ofLexemes? scope c.body).isSome then none
  return { t with keys }

/-- The name of a table, which may stand behind that of the database. -/
def tableName : Reader String
  | ls => do
    let (first, ls) ← Term.name ls
    match mark "." ls with
    | none => some (first, ls)
    | some ((), ls) => do
      let (second, ls) ← Term.name ls
      if sameName first "main" then some (second, ls) else none

/-- The name that a text gives to a table. -/
def nameOf? (text : String) : Option String := do
  let (name, rest) ← tableName (← Lexeme.ofString? text)
  if rest.isEmpty then some name else none

/-- The old name of a column and its new one, also as it is written, in a text that renames it. -/
def renaming? (text : String) : Option (String × Lexeme × String) := do
  let (source, ls) ← Term.name (← Lexeme.ofString? text)
  let ((), ls) ← word "to" ls
  let target ← ls.head?
  let (newName, ls) ← Term.name ls
  if ls.isEmpty then some (source, target, newName) else none

/-- Whether a name is kept for the database itself. -/
def isKept (name : String) : Bool :=
  "sqlite_".isPrefixOf (Text.lowerAscii name)

/-- The words in front of a name that ask for the table only if there is none with the name. -/
def ifMissing : Reader Bool
  | ls =>
    if beginsWith ["if", "not", "exists"] ls then some (true, ls.drop 3)
    else if beginsWith ["if"] ls then none
    else some (false, ls)

/-- The table that a text defines by a name and by definitions in parentheses, and whether it is
asked for only if there is none with the name. -/
def ofText? (text : String) : Option (Table × Bool) := do
  let ls ← Lexeme.ofString? text
  let (lenient, ls) ← ifMissing ls
  let (name, ls) ← tableName ls
  if isKept name then none
  let ((), ls) ← mark "(" ls
  let (d, ls) ← definitions (ls.length + 1) ⟨{ name, columns := [] }, [], none⟩ ls
  let ((), ls) ← mark ")" ls
  let t ← settle? d
  if ls.isEmpty then some (t, lenient) else none

end TagGraph.Table
