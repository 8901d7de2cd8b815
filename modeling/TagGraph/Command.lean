import TagGraph.Tagged

/-!
# Commands

The flat view of a node that is a command. A command belongs to the item that owns it.
-/

namespace TagGraph

/-- A command. -/
structure Command where
  id : NodeId
  title : String
  itemId : Option NodeId
  command : Option String
  description : Option String
deriving DecidableEq

/-- The command view of a node with the supertag of commands. -/
def Command.ofNode? (n : AssembledNode) : Option Command :=
  if n.hasSupertag Handle.supertagCommand then
    some ⟨n.id, n.content, n.ownerId, n.textForField? Handle.fieldCommand,
      n.textForField? Handle.fieldDescription⟩
  else none

namespace Store

/-- All commands, in the order of creation. -/
def commands (s : Store) : Reading (List Command) := do
  return (← s.nodesBySupertag Handle.supertagCommand false).filterMap Command.ofNode?

/-- The commands of an item, in the order of creation. -/
def commandsOf (s : Store) (item : NodeId) : Reading (List Command) := do
  return (← s.commands).filter (·.itemId == some item)

end Store

end TagGraph
