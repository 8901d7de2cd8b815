import TagGraph.NodeId
import TagGraph.Text.Blank
import TagGraph.Text.Plain

/-!
# Nodes

Everything in the graph is a node: items, tags, fields, supertags and saved queries. A node has a
content, may have a handle, may be grouped under an owner, and carries the times of its creation,
last change and deletion in milliseconds since 1970.
-/

namespace TagGraph

/-- A node as it is read. -/
structure Node where
  id : NodeId
  content : String
  contentPlain : String
  systemId : Option String
  ownerId : Option NodeId
  createdAt : Int
  updatedAt : Int
  deletedAt : Option Int
deriving DecidableEq

/-- Whether a node is visible: it has not been deleted. -/
def Node.isActive (n : Node) : Bool :=
  n.deletedAt.isNone

/-- A row of a field on a node, its value still encoded. -/
structure Property where
  id : Int
  nodeId : NodeId
  fieldId : NodeId
  value : String
  order : Int
  createdAt : Int
  updatedAt : Int
deriving DecidableEq

/-- A request to create a node. Supertags are given by identifier or handle, in order. -/
structure NewNode where
  id : NodeId
  content : String
  systemId : Option String
  ownerId : Option NodeId
  supertags : List String
deriving DecidableEq

/-- What can be wrong with a request on its own. -/
inductive NodeFault where
  | blankSystemId
  | spacedSystemId (systemId : String)
  | selfOwned (id : NodeId)
deriving DecidableEq

/-- The wording of a fault. -/
def NodeFault.message : NodeFault → String
  | .blankSystemId => "system_id cannot be blank"
  | .spacedSystemId systemId => "system_id must not contain whitespace: \x60" ++ systemId ++ "\x60"
  | .selfOwned id => "node cannot own itself: " ++ id.toString

namespace NewNode

/-- What is wrong with the handle of a request: it is blank, or has white space in it. -/
def systemIdFault? (systemId : String) : Option NodeFault :=
  if Text.isBlankText systemId then some .blankSystemId
  else if systemId.toList.any Text.isBlank then some (.spacedSystemId systemId)
  else none

/-- What is wrong with a request on its own. -/
def fault? (n : NewNode) : Option NodeFault :=
  match n.systemId.bind systemIdFault? with
  | some fault => some fault
  | none => if n.ownerId = some n.id then some (.selfOwned n.id) else none

/-- A request for a node of the catalogue: a content under a handle. -/
def system (id : NodeId) (systemId content : String) : NewNode :=
  ⟨id, content, some systemId, none, []⟩

end NewNode

end TagGraph
