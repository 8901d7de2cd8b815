import TagGraph.Store.Basic
import TagGraph.Table.Insertion

/-!
# Foreign tables

Tables that other tools have made can ask more of a row, or less, than those of this library. A row
for such a table is completed and looked at as the definition of the table says.
-/

namespace TagGraph

/-- A text or nothing as a cell. -/
def Cell.ofText? : Option String → Cell
  | some s => .text s
  | none => .null

/-- The cells of a stored node by column. -/
def NodeRecord.cells (r : NodeRecord) : List (String × Cell) := [
  ("id", .text r.id.text), ("content", .text r.content), ("content_plain", .text r.contentPlain),
  ("system_id", .ofText? r.systemId), ("owner_id", .ofText? (r.ownerId.map (·.text))),
  ("created_at", r.createdAt), ("updated_at", r.updatedAt), ("deleted_at", r.deletedAt)]

/-- The cells of a stored row of a field by column, without its number. -/
def PropertyRecord.cells (r : PropertyRecord) : List (String × Cell) := [
  ("node_id", .text r.nodeId.text), ("field_node_id", .text r.fieldId.text),
  ("value", .text r.value), ("sort_order", r.order),
  ("created_at", r.createdAt), ("updated_at", r.updatedAt)]

namespace ForeignTables

/-! ## Rows -/

/-- The table with a name. -/
def table? (f : ForeignTables) (name : String) : Option Table :=
  f.tables.find? (sameName ·.name name)

/-- The rows of a table. Only the two tables of the graph have any. -/
def rows (s : Store) (t : Table) : List Row :=
  if sameName t.name "nodes" then
    s.nodes.zipIdx.map fun (r, place) => t.rowOf (place + 1) r.cells
  else if sameName t.name "node_properties" then
    s.properties.zipIdx.map fun (r, place) => t.rowOf (place + 1) (("id", r.id) :: r.cells)
  else []

/-! ## References -/

/-- The table of a reference and the columns that it pairs, if there are such. -/
def target? (f : ForeignTables) (r : Reference) : Option (Table × List (String × String)) := do
  let other ← f.table? r.table
  let pairs ← Table.pairs? r other
  return (other, pairs)

/-- The deferred references of all tables to a table. -/
def deferredTo (f : ForeignTables) (t : Table) : List Reference :=
  (f.tables.flatMap (·.references)).filter fun r => r.deferred && sameName r.table t.name

/-- Refuses a table whose references, or the deferred references to it, cannot lead anywhere. -/
def checkReferences (f : ForeignTables) (t : Table) : Except StoreError Unit :=
  if (t.references ++ f.deferredTo t).all fun r => (f.target? r).isSome then .ok ()
  else .error (.refused ("foreign key mismatch in " ++ t.name))

/-- Whether a row refers to nothing or to a row that is there. -/
def isGrounded (f : ForeignTables) (s : Store) (t : Table) (row : Row) (r : Reference) : Bool :=
  Table.refersToNothing t r row ||
    match f.target? r with
    | some (other, pairs) => (rows s other).any (t.refersTo other pairs row)
    | none => false

/-- Refuses a store with a row whose deferred references lead to no row. -/
def checkDeferred (f : ForeignTables) (s : Store) : Except StoreError Unit :=
  let holds (t : Table) : Bool :=
    (t.references.filter (·.deferred)).all fun r => (rows s t).all fun row => f.isGrounded s t row r
  if f.tables.all holds then .ok () else .error (.conflict .danglingReference)

/-! ## Adding rows -/

/-- Refuses a store in which a new row of a table refers to no row. -/
def checkGrounded (f : ForeignTables) (s : Store) (t : Table) (row : Row) :
    Except StoreError Unit :=
  if t.references.all fun r => r.deferred || f.isGrounded s t row r then .ok ()
  else .error (.conflict .danglingReference)

/-- The collision of a new live node with another one of the same handle. -/
def handleViolations (f : ForeignTables) (s : Store) (r : NodeRecord) : List Violation :=
  if f.handlesApart && r.systemId.isSome && r.isLive &&
      s.nodes.any fun n => n.systemId == r.systemId && n.isLive
  then [(.duplicateSystemId, .refuse)]
  else []

/-- The table with a name, and a new row of it, if such a row can be made. -/
def newRow (f : ForeignTables) (name : String) (number : Int) (cells : List (String × Cell)) :
    Except StoreError (Table × Row) :=
  match f.table? name with
  | none => .error (.refused ("no such table: " ++ name))
  | some t => do
    f.checkReferences t
    if !t.canComplete cells then throw (.refused "unknown function")
    let row := t.rowOf number cells
    if t.isNumbered row then return (t, row) else throw (.refused "datatype mismatch")

/-- The store with a further node. One that breaks a constraint other than a reference is an error,
or is passed over if that is wanted. -/
def withNode (f : ForeignTables) (s : Store) (lenient : Bool) (r : NodeRecord) :
    Except StoreError (Option Store) := do
  let (t, row) ← f.newRow "nodes" (s.nodes.length + 1) r.cells
  let row := if lenient then row else t.filled row
  let others := rows s t
  let added := { r with
    createdAt := t.cell row "created_at"
    updatedAt := t.cell row "updated_at"
    deletedAt := t.cell row "deleted_at" }
  let violations := t.faults row ++ f.handleViolations s added ++ t.collisions others row
  match if lenient then violations.head? else Table.decisive? violations with
  | some (cause, resolution) =>
    if lenient || resolution = .skip then return none else throw (.conflict cause)
  | none =>
    -- An owner that is the number of a row is none.
    if (t.cell row "owner_id").whole?.isSome then throw (.refused "datatype mismatch")
    let kept := (s.nodes.zip others).filter fun (_, other) => !t.isDisplacedBy row other
    let s := { s with nodes := kept.map (·.1) ++ [added] }
    f.checkGrounded s t row
    return some s

/-- The store with a further row of a field, under the number at hand. A constraint may say that the
row is passed over. -/
def withProperty (f : ForeignTables) (s : Store) (number : Int) (r : PropertyRecord) :
    Except StoreError Store := do
  let (t, row) ← f.newRow "node_properties" number r.cells
  let row := t.filled row
  let others := rows s t
  let added := { r with
    id := t.cell row "id"
    order := t.cell row "sort_order"
    createdAt := t.cell row "created_at"
    updatedAt := t.cell row "updated_at" }
  match Table.decisive? (t.faults row ++ t.collisions others row) with
  | some (_, .skip) => return s
  | some (cause, _) => throw (.conflict cause)
  | none =>
    let kept := (s.properties.zip others).filter fun (_, other) => !t.isDisplacedBy row other
    let s := { s with properties := kept.map (·.1) ++ [added], lastRowId := number }
    f.checkGrounded s t row
    return s

/-! ## Removing tables -/

/-- The columns of the references by which a row refers to rows of a table, with what becomes of it
when they go away. -/
def hits (f : ForeignTables) (s : Store) (t gone : Table) (row : Row) :
    List (List String × DeleteRule) :=
  t.references.filterMap fun r =>
    match f.target? r with
    | some (other, pairs) =>
      if sameName other.name gone.name && !Table.refersToNothing t r row &&
          (rows s gone).any (t.refersTo gone pairs row)
      then some (r.columns, r.onDelete)
      else none
    | none => none

/-- Whether a row of a table is kept when another table goes away, or an error if it cannot do
without the rows of that table. A row whose references are cleared is of no more use to the graph.
-/
def survives (f : ForeignTables) (s : Store) (t gone : Table) (row : Row) :
    Except StoreError Bool :=
  let isRequired (name : String) : Bool := (t.column? name).any (·.required.isSome)
  let hits := f.hits s t gone row
  if hits.isEmpty then .ok true
  else if hits.any (·.2 = .cascade) then .ok false
  else if hits.all fun (columns, rule) => rule = .clear && !columns.any isRequired then .ok false
  else .error (.storage .constraint)

/-- The store that is left when a table goes away with its rows. -/
def withoutTable (f : ForeignTables) (s : Store) (gone : Table) : Except StoreError Store := do
  let keep (t : Option Table) (row : Row) : Except StoreError Bool :=
    match t with
    | some t => if sameName t.name gone.name then .ok false else f.survives s t gone row
    | none => .ok true
  let rowsOf (t : Option Table) : List Row := (t.map (rows s)).getD []
  let nodes := f.table? "nodes"
  let properties := f.table? "node_properties"
  let keptNodes ← (s.nodes.zip (rowsOf nodes)).filterM fun (_, row) => keep nodes row
  let keptProperties ← (s.properties.zip (rowsOf properties)).filterM fun (_, row) =>
    keep properties row
  return { s with
    nodes := keptNodes.map (·.1)
    properties := keptProperties.map (·.1)
    lastRowId := if sameName gone.name "node_properties" then 0 else s.lastRowId }

end ForeignTables

end TagGraph
