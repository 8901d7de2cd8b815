import TagGraph.Tagged

/-!
# Tags

The flat view of a node that is a tag.
-/

namespace TagGraph

/-- A tag. -/
structure Tag where
  id : NodeId
  name : String
  color : Option String
deriving DecidableEq

/-- The tag view of a node with the supertag of tags. -/
def Tag.ofNode? (n : AssembledNode) : Option Tag :=
  if n.hasSupertag Handle.supertagTag then
    some ⟨n.id, n.content, n.textForField? Handle.fieldColor⟩
  else none

/-- All tags, in the order of creation. -/
def Store.tags (s : Store) : Reading (List Tag) := do
  return (← s.nodesBySupertag Handle.supertagTag false).filterMap Tag.ofNode?

end TagGraph
