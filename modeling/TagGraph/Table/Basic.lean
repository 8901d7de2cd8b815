import TagGraph.Table.Lexeme
import TagGraph.Text.LowerCase
import TagGraph.Text.Search

/-!
# Tables

What is declared of a table: its columns, which of them tell rows apart, the conditions on each row,
and the references to rows of other tables. Names are compared without regard to the case of the
letters `A` to `Z`.
-/

namespace TagGraph

/-- Whether two names mean the same thing. -/
def sameName (a b : String) : Bool :=
  Text.lowerAscii a == Text.lowerAscii b

/-- What happens to a row that breaks a constraint: it is refused, it is passed over, or it takes
the place of the rows that it collides with. -/
inductive Resolution where
  | refuse
  | skip
  | replace
deriving DecidableEq

/-- A column: its declared type, whether and how it insists on a value, what rows hold that give
none if that can be told, how its texts are compared, and whether it is computed from the others. -/
structure Column where
  name : String
  type : String := ""
  required : Option Resolution := none
  standard : Option Cell := some .null
  collation : Collation := .binary
  computed : Bool := false
deriving DecidableEq

/-- The affinity of a declared type: the first of these words that occurs in it decides. A column
without type takes all values as they are. -/
def Affinity.ofType (type : String) : Affinity :=
  let type := Text.lowerAscii type
  let occurs (words : List String) : Bool := words.any fun w => Text.contains type w
  if type.isEmpty then .blob
  else if occurs ["int"] then .integer
  else if occurs ["char", "clob", "text"] then .text
  else if occurs ["blob"] then .blob
  else if occurs ["real", "floa", "doub"] then .real
  else .numeric

/-- The affinity of a column. -/
def Column.affinity (c : Column) : Affinity :=
  .ofType c.type

/-- Columns that tell rows apart, each with the collation by which it does. -/
structure Key where
  columns : List (String × Collation)
  isPrimary : Bool := false
  resolution : Option Resolution := none
deriving DecidableEq

/-- A condition that each row meets, with a name or known by its text. -/
structure Condition where
  name : Option String := none
  body : List Lexeme
deriving DecidableEq

/-- What happens to a row when the row that it refers to goes away. -/
inductive DeleteRule where
  | refuse
  | cascade
  | clear
deriving DecidableEq

/-- Columns whose values occur in another table: in the columns named, or in its primary key if none
are. A deferred reference is looked at when a transaction ends. -/
structure Reference where
  columns : List String
  table : String
  targets : List String := []
  deferred : Bool := false
  onDelete : DeleteRule := .refuse
deriving DecidableEq

/-- A table. The row number of a row is its own value in one column, if there is such a column, and
no other row has it. -/
structure Table where
  name : String
  columns : List Column
  rowNumber : Option String := none
  numberResolution : Option Resolution := none
  keys : List Key := []
  conditions : List Condition := []
  references : List Reference := []
deriving DecidableEq

/-- The name of a condition. A text in quotes at its beginning stands for the whole of it. -/
def Condition.label (c : Condition) : String :=
  match c.name, c.body with
  | some name, _ => name
  | none, l :: _ =>
    match l.token with
    | .quoted s | .bracketed s | .text s => s
    | _ => String.ofList (Lexeme.trimmedText c.body)
  | none, [] => ""

namespace Table

/-- The column with a name. -/
def column? (t : Table) (name : String) : Option Column :=
  t.columns.find? (sameName ·.name name)

/-- Whether two columns of a list have the same name. -/
def repeatsName : List Column → Bool
  | [] => false
  | c :: rest => rest.any (sameName ·.name c.name) || repeatsName rest

/-! ## Renaming -/

/-- A name in place of another one. -/
def renamed (source target name : String) : String :=
  if sameName name source then target else name

/-- A lexeme with a new name for a column. A bare name stays bare if the new one is. -/
def renameLexeme (source : String) (target : Lexeme) (newName : String) (l : Lexeme) : Lexeme :=
  let isBare : Bool := match l.token, target.token with
    | .word _, .word _ => true
    | _, _ => false
  match l.token with
  | .word s | .quoted s | .bracketed s =>
    if sameName s source then
      if isBare then { l with spelled := target.spelled, token := target.token }
      else { l with spelled := '"' :: newName.toList ++ ['"'], token := .quoted newName }
    else l
  | _ => l

/-- A table with a new name for one of its columns, wherever it is named. -/
def renameColumn (t : Table) (source : String) (target : Lexeme) (newName : String) : Table :=
  let rename := renamed source newName
  { t with
    columns := t.columns.map fun c => { c with name := rename c.name }
    rowNumber := t.rowNumber.map rename
    keys := t.keys.map fun k =>
      { k with columns := k.columns.map fun (name, collation) => (rename name, collation) }
    conditions := t.conditions.map fun c =>
      { c with body := c.body.map (renameLexeme source target newName) }
    references := t.references.map fun r => { r with
      columns := r.columns.map rename
      targets := if sameName r.table t.name then r.targets.map rename else r.targets } }

/-- A table with a new name for a column of another table, where it refers to that. -/
def retarget (t : Table) (other source newName : String) : Table :=
  { t with
    references := t.references.map fun r =>
      if sameName r.table other then { r with targets := r.targets.map (renamed source newName) }
      else r }

end Table

end TagGraph
