import TagGraph.Proofs.Edit
import TagGraph.Query.Saved
import TagGraph.Seed

/-!
# Operations and runs

Everything that a user can do to a store, as data: edits of the tables, edits of the graph with its
checks, edits of saved queries, and the seeding of the catalogue. A run carries out operations one
after the other, each at its own reading of the clock, and goes on after those that fail.
-/

namespace TagGraph

/-! ## Operations -/

/-- An edit of the tables. -/
inductive TableEdit where
  | insertNode (n : NewNode)
  | insertNodeWithProperties (n : NewNode) (rows : List (NodeId × String))
  | insertSystemNode (id : NodeId) (systemId content : String)
  | updateContent (id : NodeId) (content : String)
  | touchNode (id : NodeId)
  | deleteNode (id : NodeId)
  | insertProperty (node field : NodeId) (raw : String) (order : Option Int)
  | deleteFieldProperties (node field : NodeId)
  | replaceFieldProperties (node field : NodeId) (raws : List String) (first : Int)

/-- An edit of the graph. -/
inductive GraphEdit where
  | createNode (n : NewNode)
  | updateContent (id : NodeId) (content : String)
  | deleteNode (id : NodeId)
  | setProperty (node : NodeId) (field : String) (value : PropertyValue) (order : Option Int)
  | setPropertyValues (node : NodeId) (field : String) (values : List PropertyValue)
  | removeProperty (node : NodeId) (field : String)
  | addSupertag (node : NodeId) (supertag : String)
  | attachSupertag (node supertag : NodeId)
  | setSupertags (node : NodeId) (supertags : List String)

/-- An edit of a saved query. -/
inductive QueryEdit where
  | save (node : NodeId) (d : QueryDefinition)
  | run (node : NodeId) (refresh : Bool)
  | dropCache (node : NodeId)

/-- Anything that can be done to a store. Seeding takes the numbered identifiers for new nodes. -/
inductive Operation where
  | table (e : TableEdit)
  | graph (e : GraphEdit)
  | query (e : QueryEdit)
  | bootstrap (fresh : Nat → NodeId)

/-- The edit of the tables at a time, without its value. -/
def TableEdit.edit (now : Int) : TableEdit → Edit Unit
  | .insertNode n => discard (Edit.insertNode now n)
  | .insertNodeWithProperties n rows => discard (Edit.insertNodeWithProperties now n rows)
  | .insertSystemNode id systemId content =>
    discard (Edit.insertSystemNode now id systemId content)
  | .updateContent id content => Edit.updateContent now id content
  | .touchNode id => Edit.touchNode now id
  | .deleteNode id => Edit.deleteNode now id
  | .insertProperty node field raw order => discard (Edit.insertProperty now node field raw order)
  | .deleteFieldProperties node field => discard (Edit.deleteFieldProperties node field)
  | .replaceFieldProperties node field raws first =>
    Edit.replaceFieldProperties now node field raws first

/-- The edit of the graph at a time, without its value. -/
def GraphEdit.edit (now : Int) : GraphEdit → Edit Unit
  | .createNode n => discard (Edit.createNode now n)
  | .updateContent id content => Edit.updateContent now id content
  | .deleteNode id => Edit.deleteNode now id
  | .setProperty node field value order => Edit.setProperty now node field value order
  | .setPropertyValues node field values => Edit.setPropertyValues now node field values
  | .removeProperty node field => discard (Edit.removeProperty now node field)
  | .addSupertag node supertag => discard (Edit.addSupertag now node supertag)
  | .attachSupertag node supertag => discard (Edit.attachSupertag now node supertag)
  | .setSupertags node supertags => Edit.setSupertags now node supertags

/-- The edit of a saved query at a time, without its value. -/
def QueryEdit.edit (now : Int) : QueryEdit → Edit Unit
  | .save node d => Edit.saveQuery now node d
  | .run node refresh => discard (Edit.runSaved now node refresh)
  | .dropCache node => Edit.dropCache now node

/-- The edit that an operation is at a time, without its value. -/
def Operation.edit (now : Int) : Operation → Edit Unit
  | .table e => e.edit now
  | .graph e => e.edit now
  | .query e => e.edit now
  | .bootstrap fresh => discard (Edit.bootstrap now fresh)

/-- Whether an operation checks what it is given, as all of them do but the edits of the tables. -/
def Operation.isChecked : Operation → Bool
  | .table _ => false
  | _ => true

/-- The node whose time of change an edit of the tables sets to its own time, even if that is an
earlier one. -/
def TableEdit.overwritten? : TableEdit → Option NodeId
  | .updateContent id _ | .deleteNode id => some id
  | _ => none

/-- The node whose time of change an edit of the graph sets to its own time, even if that is an
earlier one. -/
def GraphEdit.overwritten? : GraphEdit → Option NodeId
  | .updateContent id _ | .deleteNode id => some id
  | _ => none

/-- The node whose time of change an operation sets to its own time, even if that is an earlier one.
Every other operation only moves times of change on. -/
def Operation.overwritten? : Operation → Option NodeId
  | .table e => e.overwritten?
  | .graph e => e.overwritten?
  | _ => none

/-! ## Runs -/

/-- An operation and the reading of the clock at which it is carried out. -/
structure Step where
  now : Int
  operation : Operation

/-- The store after a step, whether its operation fails or not. -/
def Store.step (s : Store) (step : Step) : Store :=
  (step.operation.edit step.now).after s

/-- The store after a run. -/
def Store.run (s : Store) (steps : List Step) : Store :=
  steps.foldl Store.step s

@[simp] theorem Store.run_nil (s : Store) : s.run [] = s := rfl

@[simp] theorem Store.run_cons (s : Store) (step : Step) (steps : List Step) :
    s.run (step :: steps) = (s.step step).run steps := rfl

theorem Store.run_append (s : Store) (before after : List Step) :
    s.run (before ++ after) = (s.run before).run after :=
  List.foldl_append

end TagGraph
