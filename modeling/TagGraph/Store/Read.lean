import TagGraph.Store.Basic

/-!
# Reading the store

Nodes are listed in the order of creation, and those created at one time in the order of insertion.
The rows of a field stand in their order, and those of one order by row number. Deleted nodes are
left out unless they are asked for.
-/

namespace TagGraph

/-- What a look-up gives: a value, or the error of a row that cannot be read. -/
abbrev Reading (α : Type) : Type :=
  Except StoreError α

namespace Store

/-! ## Nodes -/

/-- The row of a node, whether it is deleted or not. -/
def recordOf? (s : Store) (id : NodeId) : Option NodeRecord :=
  s.nodes.find? (·.id == .known id)

/-- The row of a live node. -/
def liveRecordOf? (s : Store) (id : NodeId) : Option NodeRecord :=
  s.nodes.find? fun r => r.id == .known id && r.isLive

/-- The node that a row means, if there is a row. -/
def readRecord? : Option NodeRecord → Reading (Option Node)
  | some r => some <$> r.read
  | none => .ok none

/-- A live node. -/
def node? (s : Store) (id : NodeId) : Reading (Option Node) :=
  readRecord? (s.liveRecordOf? id)

/-- A node, whether it is deleted or not. -/
def nodeOrTombstone? (s : Store) (id : NodeId) : Reading (Option Node) :=
  readRecord? (s.recordOf? id)

/-- The live node with the handle. -/
def nodeBySystemId? (s : Store) (systemId : String) : Reading (Option Node) :=
  readRecord? (s.nodes.find? fun r => r.systemId == some systemId && r.isLive)

/-- The live node that a text names by identifier or handle, with white space around it. An
identifier that no live node has is tried as a handle. -/
def findLive? (s : Store) (identifier : String) : Reading (Option Node) := do
  let identifier := Text.trim identifier
  match NodeId.ofString? identifier with
  | some id =>
    match ← s.node? id with
    | some node => return some node
    -- A handle may look like an identifier.
    | none => s.nodeBySystemId? identifier
  | none => s.nodeBySystemId? identifier

/-- All rows of nodes, in the order of creation. -/
def recordsByCreation (s : Store) : List NodeRecord :=
  s.nodes.mergeSort fun a b => a.createdAt.precedes b.createdAt

/-- The rows of live nodes, in the order of creation. -/
def liveRecords (s : Store) : List NodeRecord :=
  s.recordsByCreation.filter (·.isLive)

/-- The handles of the live nodes. -/
def liveHandles (s : Store) : List String :=
  (s.nodes.filter (·.isLive)).filterMap (·.systemId)

/-- The nodes in the order of creation: of one owner or of all, with or without deleted ones. -/
def listNodes (s : Store) (owner : Option NodeId) (includeDeleted : Bool) :
    Reading (List Node) :=
  let rows : List NodeRecord := if includeDeleted then s.recordsByCreation else s.liveRecords
  let owned : List NodeRecord :=
    match owner with
    | some owner => rows.filter fun r => r.ownerId == some (.known owner)
    | none => rows
  owned.mapM NodeRecord.read

/-! ## Rows of fields -/

/-- Whether a row comes in front of another one or at its place: rows stand by their order, and
those of one order by number. -/
def rowPrecedes (a b : PropertyRecord) : Bool :=
  ((a.order.order .binary b.order).then (a.id.order .binary b.id)) != .gt

/-- Rows by their order, and those of one order by number. -/
def inOrder (rows : List PropertyRecord) : List PropertyRecord :=
  rows.mergeSort rowPrecedes

/-- The stored rows of one field of a node. -/
def fieldRecords (s : Store) (node field : NodeId) : List PropertyRecord :=
  inOrder (s.properties.filter fun r => r.nodeId == .known node && r.fieldId == .known field)

/-- The rows of a node. -/
def propertiesOf (s : Store) (node : NodeId) : Reading (List Property) :=
  (inOrder (s.properties.filter (·.nodeId == .known node))).mapM PropertyRecord.read

/-- The rows of one field of a node. -/
def fieldPropertiesOf (s : Store) (node field : NodeId) : Reading (List Property) :=
  (s.fieldRecords node field).mapM PropertyRecord.read

/-- The rows of one field over all live nodes, node by node in the order of creation. -/
def propertiesByField (s : Store) (field : NodeId) : Reading (List Property) :=
  (s.liveRecords.flatMap fun n =>
    inOrder (s.properties.filter fun r => r.nodeId == n.id && r.fieldId == .known field)).mapM
      PropertyRecord.read

/-- The number for a new row: one more than any number that a row has or has been given. It must fit
sixty-four bits. -/
def nextRowId (s : Store) : Reading Int :=
  let numbers : List Int := s.properties.filterMap fun r => r.id.whole?
  let next := numbers.foldl max s.lastRowId + 1
  if fitsLong next then .ok next else .error (.storage .rowsExhausted)

/-- The next free place in a field of a node: one behind the last, or zero. It must be a whole
number of sixty-four bits. -/
def nextOrder (s : Store) (node field : NodeId) : Reading Int :=
  match Cell.greatest (((s.fieldRecords node field).map (·.order)).filter (!·.isNull)) with
  | none => .ok 0
  | some last =>
    match last.toNumber with
    | .integer i => if fitsLong (i + 1) then .ok (i + 1) else .error (.storage .orderExhausted)
    | _ => .error (.storage .notWhole)

end Store

end TagGraph
