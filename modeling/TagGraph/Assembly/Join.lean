import TagGraph.Assembly.Basic
import TagGraph.Memo

/-!
# Joining a node with its fields

The rows of a node are read in order. Rows of fields that are gone and rows that hold no value are
passed over, as are supertags that are gone. A name belongs to the first field that has it, unless
that field has no handle and a later field of the name has one.

What is known about fields and supertags is remembered from node to node.
-/

namespace TagGraph

/-! ## Look-ups -/

/-- What is known about a live field. -/
structure FieldInfo where
  key : String
  hasHandle : Bool
  isSupertag : Bool
deriving DecidableEq

namespace Store

/-- What is known about a field, if it is live. -/
def fieldInfo? (s : Store) (field : NodeId) : Reading (Option FieldInfo) := do
  return (← s.node? field).map fun node =>
    ⟨Handle.fieldKey node.systemId node.content, node.systemId.isSome,
      node.systemId = some Handle.fieldSupertag⟩

/-- A supertag, if it is live. -/
def supertagRef? (s : Store) (supertag : NodeId) : Reading (Option SupertagRef) := do
  return (← s.node? supertag).map fun node => ⟨node.id, node.systemId, node.content⟩

end Store

/-- The fields and supertags that have been looked up. -/
structure AssemblyMemo where
  fields : Memo NodeId (Option FieldInfo)
  supertags : Memo NodeId (Option SupertagRef)

/-- A reading that remembers fields and supertags. -/
abbrev Assembling (α : Type) : Type :=
  StateT AssemblyMemo (Except StoreError) α

namespace Assembling

/-- The start of a reading: nothing has been looked up. -/
def noMemo : AssemblyMemo := ⟨.empty, .empty⟩

/-- Runs a reading from its start. -/
def fresh {α : Type} (reading : Assembling α) : Reading α := do
  return (← reading noMemo).1

/-- What is known about a field. -/
def fieldInfo? (s : Store) (field : NodeId) : Assembling (Option FieldInfo) := fun memo => do
  let (info, fields) ← memo.fields.consult field (s.fieldInfo? field)
  return (info, { memo with fields })

/-- A supertag, if it is live. -/
def supertagRef? (s : Store) (supertag : NodeId) : Assembling (Option SupertagRef) :=
  fun memo => do
    let (tag, supertags) ← memo.supertags.consult supertag (s.supertagRef? supertag)
    return (tag, { memo with supertags })

/-- The live supertags among nodes. -/
def supertagRefs (s : Store) : List NodeId → Assembling (List SupertagRef)
  | [] => return []
  | id :: rest => do
    let tag ← supertagRef? s id
    let tags ← supertagRefs s rest
    return tag.toList ++ tags

end Assembling

/-! ## Rows -/

/-- A row with its field and value, and with the supertags that it assigns. -/
structure HeldValue where
  field : NodeId
  info : FieldInfo
  value : PropertyValue
  supertags : List SupertagRef

namespace HeldValue

/-- The held value of a row, unless its field is gone or it holds none. -/
def ofRow (s : Store) (row : Property) : Assembling (Option HeldValue) := do
  match ← Assembling.fieldInfo? s row.fieldId with
  | none => return none
  | some info =>
    match PropertyValue.decode? row.value with
    | none => return none
    | some value =>
      let tags ←
        if info.isSupertag then Assembling.supertagRefs s value.referenced else pure []
      return some ⟨row.fieldId, info, value, tags⟩

/-- The held values of rows. -/
def ofRows (s : Store) : List Property → Assembling (List HeldValue)
  | [] => return []
  | row :: rest => do
    let held ← ofRow s row
    let more ← ofRows s rest
    return held.toList ++ more

end HeldValue

/-! ## Names -/

/-- A name with the field that it belongs to. -/
structure NameOwner where
  name : String
  field : NodeId
  hasHandle : Bool
deriving DecidableEq

/-- The owners of names after a further value. Its field gets its name if the name is free, or if it
belongs to a field without handle and the new field has one. -/
def NameOwner.claim (held : HeldValue) : List NameOwner → List NameOwner
  | [] => [⟨held.info.key, held.field, held.info.hasHandle⟩]
  | owner :: rest =>
    if owner.name = held.info.key then
      -- A field with a handle takes the name over from one without.
      if held.info.hasHandle && !owner.hasHandle then ⟨owner.name, held.field, true⟩ :: rest
      else owner :: rest
    else owner :: claim held rest

/-- The owners of the names of values, in the order in which the names occur. -/
def NameOwner.ofHeld (held : List HeldValue) : List NameOwner :=
  held.foldl (fun owners h => claim h owners) []

/-! ## Nodes -/

/-- The values of each field, by identifier. -/
def valuesByField (held : List HeldValue) : List (NodeId × List PropertyValue) :=
  let fields := (held.map (·.field)).eraseDups
  (fields.map fun field => (field, (held.filter (·.field == field)).map (·.value))).mergeSort
    fun a b => a.1.number ≤ b.1.number

/-- The field that each name belongs to, by name. -/
def ownersByName (held : List HeldValue) : List (String × NodeId) :=
  ((NameOwner.ofHeld held).map fun owner => (owner.name, owner.field)).mergeSort
    fun a b => a.1 ≤ b.1

/-- Supertags with the later ones of one identifier left out. -/
def distinctTags (tags : List SupertagRef) : List SupertagRef :=
  tags.foldl (fun kept t => if kept.any (·.id == t.id) then kept else kept ++ [t]) []

/-- A node joined with the values that it holds. -/
def AssembledNode.ofHeld (node : Node) (held : List HeldValue) : AssembledNode :=
  let fieldValues := valuesByField held
  let fieldIds := ownersByName held
  { id := node.id
    content := node.content
    systemId := node.systemId
    ownerId := node.ownerId
    createdAt := node.createdAt
    updatedAt := node.updatedAt
    properties := fieldIds.map fun (name, field) => (name, (fieldValues.lookup field).getD [])
    fieldIds
    fieldValues
    supertags := distinctTags (held.flatMap (·.supertags)) }

namespace Assembling

/-- Assembles a live node. -/
def ofNode (s : Store) (node : Node) : Assembling AssembledNode := do
  let held ← HeldValue.ofRows s (← liftM (s.propertiesOf node.id))
  return .ofHeld node held

/-- Assembles the node with an identifier, if it is live. -/
def ofId (s : Store) (id : NodeId) : Assembling (Option AssembledNode) := do
  match ← liftM (s.node? id) with
  | some node => return some (← ofNode s node)
  | none => return none

/-- Assembles nodes one after the other. -/
def ofNodes (s : Store) : List Node → Assembling (List AssembledNode)
  | [] => return []
  | node :: rest => do
    let assembled ← ofNode s node
    let more ← ofNodes s rest
    return assembled :: more

/-- Assembles the live nodes among identifiers, one after the other. -/
def ofIds (s : Store) : List NodeId → Assembling (List AssembledNode)
  | [] => return []
  | id :: rest => do
    let assembled ← ofId s id
    let more ← ofIds s rest
    return assembled.toList ++ more

end Assembling

namespace Store

/-- Assembles a node, if it is live. -/
def assemble? (s : Store) (id : NodeId) : Reading (Option AssembledNode) :=
  (Assembling.ofId s id).fresh

/-- Assembles the live nodes among identifiers. -/
def assembleMany (s : Store) (ids : List NodeId) : Reading (List AssembledNode) :=
  (Assembling.ofIds s ids).fresh

/-- Assembles all live nodes, in the order of creation. -/
def assembleAll (s : Store) : Reading (List AssembledNode) := do
  let nodes ← s.listNodes none false
  (Assembling.ofNodes s nodes).fresh

end Store

end TagGraph
