import TagGraph.Assembly.Join
import TagGraph.Inheritance

/-!
# Nodes by supertag

Which nodes carry a supertag, with or without those that carry a supertag below it, and whether a
node carries one. A supertag that does not exist is carried by no node.
-/

namespace TagGraph.Store

/-- The supertags that count as the given one: itself alone, or with all those below it. -/
def acceptedSupertags (s : Store) (supertag : NodeId) (includeInherited : Bool) :
    Reading (List NodeId) :=
  if includeInherited then s.descendants supertag else return [supertag]

/-- Whether a stored text refers to one of the nodes. -/
def refersToAny (accepted : List NodeId) (raw : String) : Bool :=
  match PropertyValue.decode? raw with
  | some value => value.referenced.any accepted.contains
  | none => false

/-- The live nodes that carry a supertag, in the order of creation. -/
def nodesBySupertag (s : Store) (supertag : String) (includeInherited : Bool) :
    Reading (List AssembledNode) := do
  match ← s.findLive? supertag with
  | none => return []
  | some tag =>
    match ← s.nodeBySystemId? Handle.fieldSupertag with
    | none => return []
    | some field =>
      let accepted ← s.acceptedSupertags tag.id includeInherited
      let rows ← s.propertiesByField field.id
      let holders := (rows.filter fun r => refersToAny accepted r.value).map (·.nodeId)
      s.assembleMany holders.eraseDups

/-- Whether one of the supertags is the target or is below it. -/
def anyReaches (s : Store) (target : NodeId) : List SupertagRef → Reading Bool
  | [] => return false
  | tag :: rest => do
    if tag.id = target then return true
    else if (← s.ancestors tag.id).contains target then return true
    else anyReaches s target rest

/-- Whether an assembled node carries a supertag or one below it. -/
def isA (s : Store) (node : AssembledNode) (supertag : String) : Reading Bool := do
  match ← s.findLive? supertag with
  | none => return false
  | some target => s.anyReaches target.id node.supertags

end TagGraph.Store
