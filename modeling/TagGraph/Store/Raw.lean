import TagGraph.Store.Edit

/-!
# Rows as other tools write them

Another program with access to the tables can put any text into a column, without regard to the
rules of the graph. A column of whole numbers keeps a text that writes one as that number and any
other text as it is. The tables themselves still refuse a missing value where one is needed, a
second live node with one handle, a second row with one number, and a row number that is none.
-/

namespace TagGraph

/-- The columns of the table of nodes. -/
inductive NodeColumn where
  | id
  | content
  | contentPlain
  | systemId
  | ownerId
  | createdAt
  | updatedAt
  | deletedAt
deriving DecidableEq

/-- The columns of the table of rows of fields. -/
inductive PropertyColumn where
  | id
  | nodeId
  | fieldId
  | value
  | order
  | createdAt
  | updatedAt
deriving DecidableEq

namespace NodeColumn

/-- All columns with their names. -/
def names : List (String × NodeColumn) := [
  ("id", .id), ("content", .content), ("content_plain", .contentPlain),
  ("system_id", .systemId), ("owner_id", .ownerId), ("created_at", .createdAt),
  ("updated_at", .updatedAt), ("deleted_at", .deletedAt)]

end NodeColumn

namespace PropertyColumn

/-- All columns with their names. -/
def names : List (String × PropertyColumn) := [
  ("id", .id), ("node_id", .nodeId), ("field_node_id", .fieldId), ("value", .value),
  ("sort_order", .order), ("created_at", .createdAt), ("updated_at", .updatedAt)]

end PropertyColumn

namespace Raw

/-- What a column of whole numbers keeps of a text. -/
def kept (text : String) : Cell :=
  Affinity.integer.apply (.text text)

/-- The row number that a text writes. -/
def rowNumber? (text : String) : Option Int :=
  (kept text).whole?

/-- A row of a node with another text in one column, if the column can hold it. -/
def setNode? (column : NodeColumn) (value : Option String) (r : NodeRecord) :
    Option NodeRecord :=
  match column with
  | .id => value.map fun v => { r with id := .ofText v }
  | .content => value.map fun v => { r with content := v }
  | .contentPlain => value.map fun v => { r with contentPlain := v }
  | .systemId => some { r with systemId := value }
  | .ownerId => some { r with ownerId := value.map .ofText }
  | .createdAt => value.map fun v => { r with createdAt := kept v }
  | .updatedAt => value.map fun v => { r with updatedAt := kept v }
  | .deletedAt => some { r with deletedAt := (value.map kept).getD .null }

/-- A row of a field with another text in one column, if the column can hold it. -/
def setProperty? (column : PropertyColumn) (value : Option String) (r : PropertyRecord) :
    Option PropertyRecord :=
  match column with
  | .id => (value.bind rowNumber?).map fun i => { r with id := .integer i }
  | .nodeId => value.map fun v => { r with nodeId := .ofText v }
  | .fieldId => value.map fun v => { r with fieldId := .ofText v }
  | .value => value.map fun v => { r with value := v }
  | .order => value.map fun v => { r with order := kept v }
  | .createdAt => value.map fun v => { r with createdAt := kept v }
  | .updatedAt => value.map fun v => { r with updatedAt := kept v }

/-- Rows in which those that are meant have been changed, if each of them can be. -/
def changeRows? {α : Type} (isMeant : α → Bool) (change : α → Option α) (rows : List α) :
    Option (List α) :=
  rows.mapM fun r => if isMeant r then change r else some r

end Raw

namespace Edit

/-- Overwrites a column in the row of a node that is named by the text of its identifier, and tells
how many rows there were. -/
def overwriteNode (column : NodeColumn) (id : String) (value : Option String) : Edit Nat := do
  let s ← get
  let isMeant (r : NodeRecord) : Bool := r.id.text == id
  match Raw.changeRows? isMeant (Raw.setNode? column value) s.nodes with
  | none => throw (.storage .constraint)
  | some nodes =>
    let changed : Store := { s with nodes }
    -- Identifiers differ among all nodes, handles among the live ones.
    unless (nodes.map (·.id)).Nodup ∧ changed.liveHandles.Nodup do throw (.storage .constraint)
    set changed
    return (s.nodes.filter isMeant).length

/-- Overwrites a column in the row of a field that is named by its number, and tells how many rows
there were. -/
def overwriteProperty (column : PropertyColumn) (id : String) (value : Option String) :
    Edit Nat := do
  let s ← get
  let isMeant (r : PropertyRecord) : Bool := r.id == Raw.kept id
  match Raw.changeRows? isMeant (Raw.setProperty? column value) s.properties with
  | none => throw (.storage .constraint)
  | some properties =>
    unless (properties.map (·.id)).Nodup do throw (.storage .constraint)
    set { s with properties }
    return (s.properties.filter isMeant).length

/-- Overwrites the times of a node and tells how many rows there were. -/
def overwriteTimes (id : NodeId) (createdAt updatedAt : Option Int) : Edit Nat := do
  let s ← get
  let isMeant (r : NodeRecord) : Bool := r.id == .known id
  set { s with
    nodes := s.nodes.map fun (r : NodeRecord) =>
      if isMeant r then
        { r with
          createdAt := (createdAt.map Cell.integer).getD r.createdAt
          updatedAt := (updatedAt.map Cell.integer).getD r.updatedAt }
      else r }
  return (s.nodes.filter isMeant).length

end Edit

end TagGraph
