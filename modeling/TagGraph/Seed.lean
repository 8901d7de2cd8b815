import TagGraph.Catalogue
import TagGraph.Query.Wire
import TagGraph.Supertag

/-!
# Seeding the catalogue

The catalogue is written into a store by a fixed list of steps. Each step leaves alone what is there
already, so seeding again adds nothing: nodes are created only for handles that no live node has,
supertags are assigned only once, and the definition of a query is written only where there is none.
-/

namespace TagGraph

/-! ## Steps -/

/-- One step of the seeding. Nodes are named by handle. -/
inductive SeedStep where
  | create (systemId content : String)
  | declare (field : String) (type : FieldType)
  | assign (node supertag : String)
  | inherit (supertag parent : String)
  | save (query : String) (definition : QueryDefinition)

namespace SeedStep

/-- The steps that assign a supertag and mark a node as built in. -/
def marks (node supertag : String) : List SeedStep :=
  [.assign node supertag, .assign node Handle.supertagSystem]

/-- The steps for a supertag. -/
def ofSupertag (t : CatalogueSupertag) : List SeedStep :=
  .create t.systemId t.name :: marks t.systemId Handle.supertagSupertag ++
    (t.parent.map fun parent => inherit t.systemId parent).toList

/-- The steps for a field. -/
def ofField (f : CatalogueField) : List SeedStep :=
  .create f.systemId f.name :: marks f.systemId Handle.supertagField ++
    [.declare f.systemId f.type]

/-- The steps for a saved query. -/
def ofQuery (q : CatalogueQuery) : List SeedStep :=
  .create q.systemId q.name :: marks q.systemId Handle.supertagQuery ++
    [.save q.systemId q.definition]

/-- All steps. The fields that describe fields come first, since everything else, they included, is
described by them. -/
def plan : List SeedStep :=
  Catalogue.coreFields.map (fun f => .create f.systemId f.name) ++
  Catalogue.coreFields.map (fun f => .declare f.systemId f.type) ++
  Catalogue.metaSupertags.map (fun t => .create t.systemId t.name) ++
  Catalogue.metaSupertags.flatMap (fun t => marks t.systemId Handle.supertagSupertag) ++
  Catalogue.coreFields.flatMap (fun f => marks f.systemId Handle.supertagField) ++
  Catalogue.entitySupertags.flatMap ofSupertag ++
  Catalogue.commonFields.flatMap ofField ++
  Catalogue.queries.flatMap ofQuery

end SeedStep

/-! ## Running the steps -/

/-- What the seeding of a store has found out: the nodes of the handles so far, how many of them are
new, and how many identifiers have been drawn. -/
structure SeedContext where
  ids : List (String × NodeId)
  created : Nat
  drawn : Nat
deriving DecidableEq

/-- The start of a seeding. -/
def SeedContext.empty : SeedContext := ⟨[], 0, 0⟩

/-- The node of a handle. -/
def SeedContext.id? (c : SeedContext) (systemId : String) : Option NodeId :=
  c.ids.lookup systemId

/-- A store under seeding. -/
structure SeedState where
  store : Store
  context : SeedContext

/-- A part of the seeding. What it has written before it fails stays written. -/
abbrev Seeding (α : Type) : Type :=
  EStateM StoreError SeedState α

namespace Seeding

/-- An edit of the store as a part of the seeding. -/
def edit {α : Type} (e : Edit α) : Seeding α := fun state =>
  match e state.store with
  | .ok a store => .ok a { state with store }
  | .error err store => .error err { state with store }

/-- The node of a handle that an earlier step has found or created. -/
def require (systemId : String) : Seeding NodeId := do
  match (← get).context.id? systemId with
  | some id => return id
  | none => throw (.corrupt (.missingCatalogueNode systemId))

/-- Draws the identifier for a further node. -/
def draw (fresh : Nat → NodeId) : Seeding NodeId := fun state =>
  .ok (fresh state.context.drawn)
    { state with context := { state.context with drawn := state.context.drawn + 1 } }

/-- Notes the node of a handle. -/
def note (systemId : String) (id : NodeId) (created : Bool) : Seeding Unit :=
  modify fun state =>
    { state with
      context := { state.context with
        ids := state.context.ids ++ [(systemId, id)]
        created := state.context.created + created.toNat } }

/-- Carries out a step; `fresh` numbers the identifiers for new nodes. -/
def step (now : Int) (fresh : Nat → NodeId) : SeedStep → Seeding Unit
  | .create systemId content => do
    let id ← draw fresh
    let (id, created) ← edit (Edit.insertSystemNode now id systemId content)
    note systemId id created
  | .declare field type => do
    let id ← require field
    edit (Edit.setProperty now id Handle.fieldFieldType (.string type.name) none)
  | .assign node supertag => do
    let id ← require node
    let tag ← require supertag
    let _ ← edit (Edit.attachSupertag now id tag)
  | .inherit supertag parent => do
    let id ← require supertag
    let parentId ← require parent
    edit (Edit.setProperty now id Handle.fieldExtends (.node parentId) none)
  | .save query definition => do
    let id ← require query
    if (← edit (Edit.ask fun s => s.value? id Handle.fieldQueryDefinition)).isNone then
      edit (Edit.setProperty now id Handle.fieldQueryDefinition (.json definition.toDocument) none)

/-- Carries out steps one after the other. -/
def steps (now : Int) (fresh : Nat → NodeId) : List SeedStep → Seeding Unit
  | [] => return
  | s :: rest => do
    step now fresh s
    steps now fresh rest

end Seeding

/-! ## Outcome -/

/-- The outcome of a seeding: how many catalogue nodes there are, how many rows they have, how many
of them are new, and whether none is. -/
structure SeedSummary where
  nodeCount : Nat
  propertyCount : Nat
  nodesCreated : Nat
  alreadyBootstrapped : Bool
deriving DecidableEq

namespace Seeding

/-- The number of rows of nodes. -/
def countRows (s : Store) (ids : List NodeId) : Reading Nat := do
  return (← ids.mapM s.propertiesOf).foldl (fun count rows => count + rows.length) 0

/-- Writes the catalogue into a store. -/
def all (now : Int) (fresh : Nat → NodeId) : Seeding SeedSummary := do
  steps now fresh SeedStep.plan
  let context := (← get).context
  let propertyCount ← edit (Edit.ask fun s => countRows s (context.ids.map (·.2)))
  return ⟨context.ids.length, propertyCount, context.created, context.created == 0⟩

end Seeding

namespace Store

/-- Writes the catalogue into a store, with whatever has been written if it fails. -/
def seed (s : Store) (now : Int) (fresh : Nat → NodeId) :
    EStateM.Result StoreError SeedState SeedSummary :=
  Seeding.all now fresh ⟨s, .empty⟩

end Store

namespace Edit

/-- Writes the catalogue into a store, in one step. -/
def bootstrap (now : Int) (fresh : Nat → NodeId) : Edit SeedSummary :=
  atomically fun s =>
    match s.seed now fresh with
    | .ok summary state => .ok summary state.store
    | .error e state => .error e state.store

end Edit

namespace Store

/-- How many identifiers a seeding of the store draws, whether it fails or not. -/
def seedDraws (s : Store) (now : Int) (fresh : Nat → NodeId) : Nat :=
  match s.seed now fresh with
  | .ok _ state => state.context.drawn
  | .error _ state => state.context.drawn

end Store

end TagGraph
