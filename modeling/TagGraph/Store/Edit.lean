import TagGraph.Store.Foreign
import TagGraph.Store.Read

/-!
# Changing the store

An edit runs on a store, gives a value or an error, and leaves a store. What an edit has written
before it fails stays written, unless it runs as one step: `Edit.atomically` then leaves the store
as it was.

Edits that write a time take the reading of the clock as an argument.
-/

namespace TagGraph

/-- A change of the store that gives a value or fails. -/
abbrev Edit (α : Type) : Type :=
  EStateM StoreError Store α

namespace Edit

/-- Looks something up. -/
def ask {α : Type} (look : Store → Reading α) : Edit α := fun s =>
  match look s with
  | .ok a => .ok a s
  | .error e => .error e s

/-- Runs an edit as one step: if it fails, the store is left as it was. -/
def atomically {α : Type} (edit : Edit α) : Edit α := fun s =>
  match edit s with
  | .ok a s' => .ok a s'
  | .error e _ => .error e s

@[simp] theorem atomically_of_error {α : Type} {edit : Edit α} {s s' : Store} {e : StoreError}
    (h : edit s = .error e s') : edit.atomically s = .error e s := by
  simp [atomically, h]

@[simp] theorem atomically_of_ok {α : Type} {edit : Edit α} {s s' : Store} {a : α}
    (h : edit s = .ok a s') : edit.atomically s = .ok a s' := by
  simp [atomically, h]

/-! ## Nodes -/

/-- The row of a new node, created at `now`. -/
def newRecord (now : Int) (n : NewNode) : NodeRecord where
  id := .known n.id
  content := n.content
  contentPlain := Text.plain n.content
  systemId := n.systemId
  ownerId := n.ownerId.map .known
  createdAt := .integer now
  updatedAt := .integer now
  deletedAt := .null

/-- The constraint that a new row would break. Handles are looked at first; they must be free among
the live nodes, identifiers among all. -/
def conflict? (s : Store) (r : NodeRecord) : Option Conflict :=
  if r.systemId.isSome && r.isLive && s.nodes.any (fun n => n.systemId == r.systemId && n.isLive)
  then some .duplicateSystemId
  else if s.nodes.any (·.id == r.id) then some .duplicateId
  else none

/-- Adds the row of a node and tells whether it did. A row that breaks a constraint is an error, or
is passed over if that is wanted. -/
def addNode (lenient : Bool) (record : NodeRecord) : Edit Bool := do
  let s ← get
  match s.foreign with
  | none =>
    match conflict? s record with
    | none =>
      set { s with nodes := s.nodes ++ [record] }
      return true
    | some cause => if lenient then return false else throw (.conflict cause)
  | some tables =>
    match tables.withNode s lenient record with
    | .ok (some s) =>
      set s
      return true
    | .ok none => return false
    | .error e => throw e

/-- Creates a node, without regard to the supertags of the request. -/
def insertNode (now : Int) (n : NewNode) : Edit Node := do
  if let some fault := n.fault? then throw (.invalidNode fault)
  let _ ← addNode false (newRecord now n)
  match ← ask (·.nodeOrTombstone? n.id) with
  | some node => return node
  | none => throw (.nodeNotFound n.id)

/-- Creates a node for a handle unless a live one has it; `id` is the identifier for a new node.
Gives the node with the handle and whether it is new. -/
def insertSystemNode (now : Int) (id : NodeId) (systemId content : String) :
    Edit (NodeId × Bool) := do
  let request := NewNode.system id systemId content
  if let some fault := request.fault? then throw (.invalidNode fault)
  -- A taken identifier is passed over like a taken handle.
  let created ← addNode true (newRecord now request)
  match ← ask (·.nodeBySystemId? systemId) with
  | some node => return (node.id, created)
  | none => throw (.corrupt (.vanished systemId))

/-- Changes the row of a live node and tells whether there is one. -/
def updateLive (id : NodeId) (change : NodeRecord → NodeRecord) : Edit Bool := do
  let s ← get
  let found := (s.liveRecordOf? id).isSome
  if found then
    set { s with
      nodes := s.nodes.map fun (r : NodeRecord) =>
        if r.id == StoredId.known id && r.isLive then change r else r }
  return found

/-- Replaces the content of a live node. -/
def updateContent (now : Int) (id : NodeId) (content : String) : Edit Unit := do
  let found ← updateLive id fun r =>
    { r with content, contentPlain := Text.plain content, updatedAt := .integer now }
  unless found do throw (.nodeNotFound id)

/-- Notes a change of a live node. Its time of change never goes back. -/
def touchNode (now : Int) (id : NodeId) : Edit Unit := do
  let found ← updateLive id fun r => { r with updatedAt := r.updatedAt.max (.integer now) }
  unless found do throw (.nodeNotFound id)

/-- Makes a live node a tombstone. A tombstone is left as it is. -/
def deleteNode (now : Int) (id : NodeId) : Edit Unit := do
  let found ← updateLive id fun r =>
    { r with deletedAt := .integer now, updatedAt := .integer now }
  unless found do
    if (← ask (·.nodeOrTombstone? id)).isNone then throw (.nodeNotFound id)

/-! ## Rows of fields -/

/-- Whether a node has been inserted under the identifier. -/
def hasNode (s : Store) (id : NodeId) : Bool :=
  s.nodes.any (·.id == .known id)

/-- Adds a row of a field under a number. The node and the field must have been inserted. -/
def addProperty (number : Int) (node field : NodeId) (record : PropertyRecord) : Edit Unit := do
  let s ← get
  match s.foreign with
  | none =>
    unless hasNode s node && hasNode s field do throw (.conflict .danglingReference)
    set { s with properties := s.properties ++ [record], lastRowId := number }
  | some tables =>
    match tables.withProperty s number record with
    | .ok s => set s
    | .error e => throw e

/-- Adds a row to a field of a node, at the given place or else behind the last row. -/
def insertProperty (now : Int) (node field : NodeId) (raw : String) (order : Option Int) :
    Edit Property := do
  let order ← match order with
    | some order => pure order
    | none => ask (·.nextOrder node field)
  let id ← ask (·.nextRowId)
  addProperty id node field
    ⟨.integer id, .known node, .known field, raw, .integer order, .integer now, .integer now⟩
  return ⟨id, node, field, raw, order, now, now⟩

/-- Removes the rows of a field of a node and tells how many there were. -/
def deleteFieldProperties (node field : NodeId) : Edit Nat := do
  let s ← get
  let gone (r : PropertyRecord) : Bool := r.nodeId == .known node && r.fieldId == .known field
  set { s with properties := s.properties.filter (!gone ·) }
  return (s.properties.filter gone).length

/-- Adds rows to a field of a node at consecutive places from `first` on. A place that does not fit
64 bits is an ordinary error here; the program panics there if it is built with overflow checks, as
debug builds are, and in release builds the place wraps around. -/
def insertFrom (now : Int) (node field : NodeId) : (first : Int) → List String → Edit Unit
  | _, [] => return
  | first, raw :: raws => do
    unless first < 2 ^ 63 do throw (.storage .orderOverflow)
    let _ ← insertProperty now node field raw (some first)
    insertFrom now node field (first + 1) raws

/-- Replaces the rows of a field of a node, in one step, by rows at consecutive places. -/
def replaceFieldProperties (now : Int) (node field : NodeId) (raws : List String) (first : Int) :
    Edit Unit :=
  atomically do
    let _ ← deleteFieldProperties node field
    insertFrom now node field first raws

/-- Creates a node together with rows of its fields, in one step. -/
def insertNodeWithProperties (now : Int) (n : NewNode) (rows : List (NodeId × String)) :
    Edit Node :=
  atomically do
    let node ← insertNode now n
    for (field, raw) in rows do
      let _ ← insertProperty now node.id field raw none
    return node

end Edit

end TagGraph
