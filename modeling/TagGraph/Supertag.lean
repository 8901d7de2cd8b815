import TagGraph.Field

/-!
# Supertags of nodes

The supertags of a node are the references in its `field:supertag`, in the order of assignment. The
first one is the primary type. Supertags are named by handle or identifier.
-/

namespace TagGraph.Edit

/-- The live node of a supertag. -/
def requireSupertag (supertag : String) : Edit Node := do
  match ← ask (·.findLive? supertag) with
  | some found => return found
  | none => throw (.supertagNotFound supertag)

/-- The nodes of supertags, one after the other. -/
def requireSupertags (supertags : List String) : Edit (List NodeId) :=
  supertags.mapM fun supertag => do return (← requireSupertag supertag).id

/-- The rows that assign supertags, each supertag once. -/
def supertagRows (field : NodeId) (supertags : List NodeId) : Edit (List (NodeId × String)) :=
  (Store.unseen [] supertags).mapM fun supertag => do return (field, ← encode (.node supertag))

/-- Creates a node together with its supertags, in one step. -/
def createNode (now : Int) (n : NewNode) : Edit NodeId := do
  let rows ←
    if n.supertags.isEmpty then pure []
    else
      let field ← requireField Handle.fieldSupertag
      supertagRows field.id (← requireSupertags n.supertags)
  return (← insertNodeWithProperties now n rows).id

/-- Whether one of the rows refers to a node. -/
def refersTo (rows : List Property) (target : NodeId) : Bool :=
  (Store.decodeRows rows).any (·.referenced.contains target)

/-- Assigns a supertag by identifier, behind those that a node has, and tells whether it is new to
the node. The supertag need not exist as a live node. -/
def attachSupertag (now : Int) (node supertag : NodeId) : Edit Bool := do
  let _ ← requireLive node
  let field ← requireField Handle.fieldSupertag
  if refersTo (← ask (·.fieldPropertiesOf node field.id)) supertag then return false
  else
    let raw ← encode (.node supertag)
    let _ ← insertProperty now node field.id raw none
    touchNode now node
    return true

/-- Assigns a supertag behind those that a node has, and tells whether it is new to the node. -/
def addSupertag (now : Int) (node : NodeId) (supertag : String) : Edit Bool := do
  attachSupertag now node (← requireSupertag supertag).id

/-- Assigns supertags in place of those that a node has. -/
def setSupertags (now : Int) (node : NodeId) (supertags : List String) : Edit Unit := do
  let ids ← requireSupertags supertags
  setPropertyValues now node Handle.fieldSupertag (ids.map .node)

end TagGraph.Edit
