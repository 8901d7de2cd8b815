import TagGraph.Tagged

/-!
# Items

The flat view of a node that is an item: tagged with `supertag:item` or one of its kinds. The list
of all items also covers kinds that were declared later.
-/

namespace TagGraph

/-- An item. -/
structure Item where
  id : NodeId
  title : String
  itemType : String
  supertags : List String
  status : Option String
  description : Option String
  url : Option String
  createdAt : Int
  updatedAt : Int
deriving DecidableEq

namespace Item

/-- The built-in supertags of items. -/
def supertagsOfItems : List String :=
  [Handle.supertagItem, Handle.supertagTool, Handle.supertagRepo, Handle.supertagTask,
    Handle.supertagEvent]

/-- The item view of a node, whatever its supertags are. -/
def view (n : AssembledNode) : Item where
  id := n.id
  title := n.content
  itemType := (n.primarySupertag?.map (·.name)).getD ""
  supertags := n.supertags.map (·.name)
  status := n.textForField? Handle.fieldStatus
  description := n.textForField? Handle.fieldDescription
  url := n.textForField? Handle.fieldUrl
  createdAt := n.createdAt
  updatedAt := n.updatedAt

/-- The item view of a node with one of the built-in supertags of items. -/
def ofNode? (n : AssembledNode) : Option Item :=
  if supertagsOfItems.any n.hasSupertag then some (view n) else none

end Item

/-- All items, in the order of creation. -/
def Store.items (s : Store) : Reading (List Item) := do
  return (← s.nodesBySupertag Handle.supertagItem true).map Item.view

end TagGraph
