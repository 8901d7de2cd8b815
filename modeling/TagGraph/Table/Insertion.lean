import TagGraph.Table.Conflict
import TagGraph.Table.Term.Reader

/-!
# Rows of tables

A row that is put into a table is completed first: a column that is given nothing holds its standard
value, and each value is kept as its column prefers. Then the constraints of the table are looked
at: missing values, conditions, keys, and last the references to rows of other tables. A constraint
says what becomes of a row that breaks it.
-/

namespace TagGraph

/-- A row: the cells of the columns of a table, in their order. -/
abbrev Row : Type := List Cell

/-- A constraint that a row breaks, and what becomes of the row. -/
abbrev Violation : Type := Conflict × Resolution

/-- What becomes of a row that collides with another one in a key. -/
def Key.onCollision (k : Key) : Resolution :=
  k.resolution.getD .refuse

namespace Table

/-! ## Cells -/

/-- The cell of a row in a column. A name that no column has means the number of the row. -/
def cell (t : Table) (row : Row) (name : String) : Cell :=
  let inColumn (name : String) : Option Cell :=
    ((t.columns.zip row).find? fun (c, _) => sameName c.name name).map (·.2)
  ((inColumn name).or (t.rowNumber.bind inColumn)).getD .null

/-- What a column holds in a row that gives it nothing. -/
def standardCell (c : Column) : Cell :=
  c.affinity.apply (c.standard.getD .null)

/-- Whether the standard values of all columns can be told that are given nothing. -/
def canComplete (t : Table) (given : List (String × Cell)) : Bool :=
  t.columns.all fun c => c.standard.isSome || given.any fun (name, _) => sameName name c.name

/-- The row with given cells. The column of row numbers holds the number at hand unless it is
given another one. -/
def rowOf (t : Table) (number : Int) (given : List (String × Cell)) : Row :=
  t.columns.map fun c =>
    let own := (given.find? fun (name, _) => sameName name c.name).map (·.2)
    if t.rowNumber.any (sameName · c.name) && own.all (·.isNull) then .integer number
    else
      match own with
      | some cell => c.affinity.apply cell
      | none => standardCell c

/-- Whether the number of a row is a whole number. -/
def isNumbered (t : Table) (row : Row) : Bool :=
  t.rowNumber.all fun name => (t.cell row name).whole?.isSome

/-- A row with the standard values of the columns that ask for them in place of nothing. -/
def filled (t : Table) (row : Row) : Row :=
  (t.columns.zip row).map fun (c, cell) =>
    if c.required = some .replace && cell.isNull then standardCell c else cell

/-! ## Constraints -/

/-- The name of a column with that of its table. -/
def qualified (t : Table) (column : String) : String :=
  t.name ++ "." ++ column

/-- Whether a row breaks a condition: it is false, and not merely unknown. -/
def breaks (t : Table) (row : Row) (c : Condition) : Bool :=
  match Term.ofLexemes? { table := t.name, columns := t.columns } c.body with
  | some term => (term.eval (t.cell row)).truth? = some false
  | none => false

/-- The values that a row lacks and the conditions that it breaks. -/
def faults (t : Table) (row : Row) : List Violation :=
  let missing : List Violation := t.columns.filterMap fun c =>
    c.required.bind fun resolution =>
      if (t.cell row c.name).isNull then
        some (.missing (t.qualified c.name), if resolution = .skip then .skip else .refuse)
      else none
  missing ++ (t.conditions.filter (t.breaks row)).map fun c => (.condition c.label, .refuse)

/-- Whether two rows agree in the columns of a key, without one of them holding nothing. -/
def collide (t : Table) (k : Key) (a b : Row) : Bool :=
  k.columns.all fun (name, collation) => (t.cell a name).same collation (t.cell b name)

/-- The keys in the order in which they are looked at: the row number, then the last key first, and
those behind all others in which the new row wins. -/
def keysInOrder (t : Table) : List Key :=
  let number : List Key := t.rowNumber.toList.map fun name =>
    ⟨[(name, .binary)], true, t.numberResolution⟩
  let keys := number ++ t.keys.reverse
  let wins (k : Key) : Bool := k.onCollision = .replace
  keys.filter (!wins ·) ++ keys.filter wins

/-- The keys in which a row collides with other rows. -/
def collisions (t : Table) (others : List Row) (row : Row) : List Violation :=
  (t.keysInOrder.filter fun k => others.any (t.collide k row)).map fun k =>
    (.duplicate (k.columns.map fun (name, _) => t.qualified name), k.onCollision)

/-- Whether a row has to go because a new one takes its place. -/
def isDisplacedBy (t : Table) (row other : Row) : Bool :=
  t.keysInOrder.any fun k => k.onCollision = .replace && t.collide k row other

/-- The first violation that keeps a row out. -/
def decisive? (violations : List Violation) : Option Violation :=
  violations.find? fun (_, resolution) => resolution ≠ .replace

/-! ## References -/

/-- The columns of a reference, each with the column of the other table that it refers to. There are
none unless a key of the other table tells its rows apart by just these columns. -/
def pairs? (r : Reference) (other : Table) : Option (List (String × String)) :=
  let byNumber : Option String :=
    match r.columns, r.targets, other.rowNumber with
    | [_], [], some number => some number
    | [_], [target], some number => if sameName target number then some number else none
    | _, _, _ => none
  let isPlain (column : String × Collation) : Bool :=
    (other.column? column.1).any (·.collation == column.2)
  let fits (k : Key) : Bool :=
    k.columns.length == r.columns.length &&
      if r.targets.isEmpty then k.isPrimary
      else k.columns.all fun column =>
        isPlain column && r.targets.any (sameName · column.1)
  match byNumber with
  | some number => some (r.columns.map (·, number))
  | none =>
    (other.keys.find? fits).map fun k =>
      r.columns.zip (if r.targets.isEmpty then k.columns.map (·.1) else r.targets)

/-- Whether a row refers to a row of another table. -/
def refersTo (t other : Table) (pairs : List (String × String)) (row target : Row) : Bool :=
  pairs.all fun (source, column) =>
    match other.column? column with
    | some c => (c.affinity.apply (t.cell row source)).same c.collation (other.cell target c.name)
    | none => false

/-- Whether a row refers to nothing: one of its columns is empty. -/
def refersToNothing (t : Table) (r : Reference) (row : Row) : Bool :=
  r.columns.any fun name => (t.cell row name).isNull

end Table

end TagGraph
