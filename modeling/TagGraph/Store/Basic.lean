import TagGraph.Error
import TagGraph.Table.Basic

/-!
# The store

Two tables: nodes, and the rows of their fields. Both keep their rows in the order of insertion. A
deleted node stays as a tombstone, and row numbers are given out once.

A stored identifier is a text that other tools may have changed. It counts as known while it is
exactly the text that this library writes; any other text is kept as it is, is read if it writes an
identifier in some form, and equals no known one. A stored time, order or row number is a cell of
which only a whole number can be read.

The tables may also have been made by other tools. The store then carries their definitions.
-/

namespace TagGraph

/-- An identifier as it stands in a row. -/
inductive StoredId where
  | known (id : NodeId)
  | foreign (text : String)
deriving DecidableEq

namespace StoredId

/-- A text as a stored identifier. -/
def ofText (text : String) : StoredId :=
  match NodeId.ofString? text with
  | some id => if id.toString = text then .known id else .foreign text
  | none => .foreign text

/-- The text of a stored identifier. -/
def text : StoredId → String
  | .known id => id.toString
  | .foreign text => text

/-- The identifier that a row means, or the corruption of its column. -/
def read (column : IdColumn) : StoredId → Except StoreError NodeId
  | .known id => .ok id
  | .foreign text =>
    match NodeId.ofString? text with
    | some id => .ok id
    | none => .error (.corrupt (.badId text column))

@[simp] theorem read_known (column : IdColumn) (id : NodeId) : (known id).read column = .ok id :=
  rfl

end StoredId

namespace Cell

/-- The whole number that a cell holds. -/
def readWhole : Cell → Except StoreError Int
  | .integer i => .ok i
  | _ => .error (.storage .notWhole)

/-- The whole number that a cell holds, or nothing if it holds nothing. -/
def readWhole? : Cell → Except StoreError (Option Int)
  | .null => .ok none
  | c => some <$> c.readWhole

@[simp] theorem readWhole_integer (i : Int) : (integer i).readWhole = .ok i := rfl

@[simp] theorem readWhole?_null : null.readWhole? = .ok none := rfl

@[simp] theorem readWhole?_integer (i : Int) : (integer i).readWhole? = .ok (some i) := rfl

end Cell

/-- A stored node. It is a tombstone unless nothing is noted as the time of its deletion. -/
structure NodeRecord where
  id : StoredId
  content : String
  contentPlain : String
  systemId : Option String
  ownerId : Option StoredId
  createdAt : Cell
  updatedAt : Cell
  deletedAt : Cell
deriving DecidableEq

namespace NodeRecord

/-- Whether the node has not been deleted. -/
def isLive (r : NodeRecord) : Bool :=
  r.deletedAt.isNull

/-- The node that a row means. The owner is looked at before the identifier. -/
def read (r : NodeRecord) : Except StoreError Node := do
  let ownerId ← match r.ownerId with
    | some owner => some <$> owner.read .ownerId
    | none => pure none
  let id ← r.id.read .nodeId
  let createdAt ← r.createdAt.readWhole
  let updatedAt ← r.updatedAt.readWhole
  let deletedAt ← r.deletedAt.readWhole?
  return {
    id, ownerId, createdAt, updatedAt, deletedAt
    content := r.content
    contentPlain := r.contentPlain
    systemId := r.systemId }

end NodeRecord

/-- A stored row of a field. -/
structure PropertyRecord where
  id : Cell
  nodeId : StoredId
  fieldId : StoredId
  value : String
  order : Cell
  createdAt : Cell
  updatedAt : Cell
deriving DecidableEq

/-- The row of a field that a stored row means. Its number is looked at before the identifiers. -/
def PropertyRecord.read (r : PropertyRecord) : Except StoreError Property := do
  let id ← r.id.readWhole
  let nodeId ← r.nodeId.read .propertyNode
  let fieldId ← r.fieldId.read .propertyField
  let order ← r.order.readWhole
  let createdAt ← r.createdAt.readWhole
  let updatedAt ← r.updatedAt.readWhole
  return { id, nodeId, fieldId, order, createdAt, updatedAt, value := r.value }

/-- Tables that other tools have made: all those of a database, and whether it keeps apart the
handles of live nodes. -/
structure ForeignTables where
  tables : List Table
  handlesApart : Bool
deriving DecidableEq

/-- The rows of the two tables, and the greatest row number given out so far. If other tools have
made the tables, their definitions decide which rows can be added. -/
structure Store where
  nodes : List NodeRecord
  properties : List PropertyRecord
  lastRowId : Int
  foreign : Option ForeignTables := none
deriving DecidableEq

/-- The store without rows. -/
def Store.empty : Store :=
  { nodes := [], properties := [], lastRowId := 0 }

instance : Inhabited Store := ⟨Store.empty⟩

end TagGraph
