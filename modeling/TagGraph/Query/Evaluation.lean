import TagGraph.Query.Comparison
import TagGraph.Tagged

/-!
# Evaluating queries

All live nodes are assembled, the ones that satisfy every filter are kept, put in order and cut to
the limit. A filter that names a field, supertag or target that does not exist is false.

What the names stand for is looked up once for a whole evaluation and remembered.
-/

namespace TagGraph

/-- The answer to a query: the nodes up to the limit, and how many there are in all. -/
structure QueryPage where
  nodes : List AssembledNode
  totalCount : Nat

/-- The identifiers of the nodes of a page. -/
def QueryPage.nodeIds (page : QueryPage) : List NodeId :=
  page.nodes.map (·.id)

/-! ## What an evaluation knows -/

/-- What an evaluation runs on: the store, its live nodes, and the present time. -/
structure QueryScope where
  store : Store
  candidates : List AssembledNode
  now : Int

/-- The live node with an identifier. -/
def QueryScope.candidate? (scope : QueryScope) (id : NodeId) : Option AssembledNode :=
  scope.candidates.reverse.find? (·.id == id)

/-- What the names in the filters stand for, as far as it has been looked up. -/
structure QueryMemo where
  fields : Memo String (Option NodeId)
  targets : Memo String (Option NodeId)
  supertags : Memo (String × Bool) (Option (List NodeId))
  backlinks : Memo (Option NodeId) (List NodeId)
  supertagField : Memo Unit (Option NodeId)

/-- The start of an evaluation: nothing has been looked up. -/
def QueryMemo.empty : QueryMemo := ⟨.empty, .empty, .empty, .empty, .empty⟩

/-- A step of an evaluation. -/
abbrev Evaluating (α : Type) : Type :=
  StateT QueryMemo (Except StoreError) α

namespace Store

/-- The identifier of the live node that a text names. -/
def findLiveId? (s : Store) (identifier : String) : Reading (Option NodeId) := do
  return (← s.findLive? identifier).map (·.id)

/-- The supertags that a filter accepts, if it names one that exists. -/
def acceptedBy? (s : Store) (supertag : String) (includeInherited : Bool) :
    Reading (Option (List NodeId)) := do
  match ← s.findLive? supertag with
  | some tag => return some (← s.acceptedSupertags tag.id includeInherited)
  | none => return none

/-- The identifier of the field that holds supertags. -/
def supertagFieldId? (s : Store) : Reading (Option NodeId) := do
  return (← s.nodeBySystemId? Handle.fieldSupertag).map (·.id)

end Store

namespace Evaluating

/-- The field that a text names. -/
def field? (scope : QueryScope) (identifier : String) : Evaluating (Option NodeId) :=
  fun memo => do
    let (id, fields) ← memo.fields.consult identifier (scope.store.findLiveId? identifier)
    return (id, { memo with fields })

/-- The target of a relation that a text names. -/
def target? (scope : QueryScope) (identifier : String) : Evaluating (Option NodeId) :=
  fun memo => do
    let (id, targets) ← memo.targets.consult identifier (scope.store.findLiveId? identifier)
    return (id, { memo with targets })

/-- The supertags that a filter accepts. -/
def accepted? (scope : QueryScope) (supertag : String) (includeInherited : Bool) :
    Evaluating (Option (List NodeId)) := fun memo => do
  let (ids, supertags) ← memo.supertags.consult (supertag, includeInherited)
    (scope.store.acceptedBy? supertag includeInherited)
  return (ids, { memo with supertags })

/-- The field that holds supertags. -/
def supertagField? (scope : QueryScope) : Evaluating (Option NodeId) := fun memo => do
  let (id, supertagField) ← memo.supertagField.consult () scope.store.supertagFieldId?
  return (id, { memo with supertagField })

end Evaluating

/-! ## Relations -/

/-- Whether the references in a field count: in the wanted field alone, or in any but the field of
supertags. -/
def countsReferences (wanted supertagField : Option NodeId) (field : NodeId) : Bool :=
  match wanted with
  | some wanted => field == wanted
  | none => some field != supertagField

/-- The nodes that a node refers to in the fields that count. -/
def AssembledNode.references (n : AssembledNode) (wanted supertagField : Option NodeId) :
    List NodeId :=
  (n.fieldValues.filter fun entry => countsReferences wanted supertagField entry.1).flatMap
    fun entry => entry.2.flatMap (·.referenced)

namespace Evaluating

/-- The nodes that a node refers to, in one field or in any but that of supertags. -/
def references (scope : QueryScope) (n : AssembledNode) (field : Option NodeId) :
    Evaluating (List NodeId) := do
  return n.references field (← supertagField? scope)

/-- The nodes that some live node refers to. -/
def backlinks (scope : QueryScope) (field : Option NodeId) : Evaluating (List NodeId) :=
  fun memo =>
    match memo.backlinks.get? field with
    | some ids => return (ids, memo)
    | none => do
      let (found, memo) ← (scope.candidates.mapM fun n => references scope n field) memo
      let ids := found.flatten
      return (ids, { memo with backlinks := memo.backlinks.insert field ids })

/-- An optional name resolved: no name is no restriction, and a name that stands for nothing makes
the whole filter false. -/
def named? (find? : String → Evaluating (Option NodeId)) (name : Option String) :
    Evaluating (Option (Option NodeId)) := do
  match name with
  | none => return some none
  | some name =>
    match ← find? name with
    | some id => return some (some id)
    | none => return none

/-- Whether a node stands in a relation to a target, or to any node. -/
def related (scope : QueryScope) (n : AssembledNode) (kind : RelationKind)
    (target field : Option NodeId) : Evaluating Bool := do
  match kind with
  | .childOf | .ownedBy =>
    match target with
    | some target => return n.ownerId == some target
    | none => return n.ownerId.isSome
  | .linksTo =>
    let found ← references scope n field
    match target with
    | some target => return found.contains target
    | none => return !found.isEmpty
  | .linkedFrom =>
    match target with
    | some target =>
      match scope.candidate? target with
      | some source => return (← references scope source field).contains n.id
      | none => return false
    | none => return (← backlinks scope field).contains n.id

/-- Whether a node passes a filter of relations. -/
def testRelation (scope : QueryScope) (n : AssembledNode) (kind : RelationKind)
    (target field : Option String) : Evaluating Bool := do
  match ← named? (target? scope) target with
  | none => return false
  | some target =>
    match ← named? (field? scope) field with
    | none => return false
    | some field => related scope n kind target field

end Evaluating

/-! ## Other tests -/

/-- The milliseconds of a day. -/
def dayLength : Int := 86400000

/-- A time of a node. -/
def TimeField.of (field : TimeField) (n : AssembledNode) : Int :=
  match field with
  | .createdAt => n.createdAt
  | .updatedAt => n.updatedAt

/-- Whether a time passes a test. -/
def TimeOp.test (op : TimeOp) (now : Int) (days : Option UInt32) (date : Option String)
    (time : Int) : Bool :=
  match op with
  | .within => days.any fun days => decide (now - days.toNat * dayLength ≤ time)
  | .before => (date.bind Calendar.ofString?).any fun bound => decide (time < bound)
  | .after => (date.bind Calendar.ofString?).any fun bound => decide (bound < time)

/-- Whether a content has a text in it. -/
def contentMatches (content query : String) (caseSensitive : Bool) : Bool :=
  if caseSensitive then Text.contains content query
  else Text.contains (Text.lower content) (Text.lower query)

/-! ## Filters -/

namespace Evaluating

mutual

/-- Whether a node passes a filter. -/
def test (scope : QueryScope) (n : AssembledNode) : Filter → Evaluating Bool
  | .supertag tag includeInherited => do
    match ← accepted? scope tag includeInherited with
    | some ids => return n.supertags.any fun t => ids.contains t.id
    | none => return false
  | .property field op value => do
    match ← field? scope field with
    | some id => return op.test (PropertyValue.flatten (n.valuesByFieldId id)) value
    | none => return false
  | .content query caseSensitive => return contentMatches n.content query caseSensitive
  | .relation kind target field => testRelation scope n kind target field
  | .temporal field op days date => return op.test scope.now days date (field.of n)
  | .hasField field negate => do
    match ← field? scope field with
    | some id => return (!(n.valuesByFieldId id).isEmpty) != negate
    | none => return false
  | .and filters => testAll scope n filters
  | .or filters => testAny scope n filters
  | .not filters => do return !(← testAny scope n filters)

/-- Whether a node passes every filter. -/
def testAll (scope : QueryScope) (n : AssembledNode) : List Filter → Evaluating Bool
  | [] => return true
  | f :: rest => do
    if ← test scope n f then testAll scope n rest else return false

/-- Whether a node passes some filter. -/
def testAny (scope : QueryScope) (n : AssembledNode) : List Filter → Evaluating Bool
  | [] => return false
  | f :: rest => do
    if ← test scope n f then return true else testAny scope n rest

end

/-- The nodes that pass every filter. -/
def select (scope : QueryScope) (filters : List Filter) :
    List AssembledNode → Evaluating (List AssembledNode)
  | [] => return []
  | n :: rest => do
    let keep ← testAll scope n filters
    let more ← select scope filters rest
    return if keep then n :: more else more

end Evaluating

/-! ## Order -/

/-- A node with its key and its place in the order of creation. -/
structure RankedNode where
  key : Option SortKey
  place : Nat
  node : AssembledNode

namespace RankedNode

/-- The order of two nodes with respect to keys that both have or both lack: ties go by place, and
the other direction turns everything round. -/
def directed (direction : SortDirection) (order : Ordering) : Ordering :=
  match direction with
  | .asc => order
  | .desc => order.swap

/-- The order of two nodes. Nodes without key come last in either direction. -/
def order (direction : SortDirection) (a b : RankedNode) : Ordering :=
  match a.key, b.key with
  -- Places differ, so no two nodes are level.
  | some k, some l => directed direction ((k.order l).then (compare a.place b.place))
  | some _, none => .lt
  | none, some _ => .gt
  | none, none => directed direction (compare a.place b.place)

/-- Nodes put in order. -/
def sort (direction : SortDirection) (nodes : List RankedNode) : List RankedNode :=
  nodes.mergeSort fun a b => order direction a b != .gt

end RankedNode

namespace Evaluating

/-- The keys of nodes under an order. Names other than the three built-in ones name a field. -/
def sortKey (scope : QueryScope) (field : String) :
    Evaluating (AssembledNode → Option SortKey) := do
  match field with
  | "content" => return fun n => some (.text (Text.lower n.content))
  | "createdAt" => return fun n => some (.ofTime n.createdAt)
  | "updatedAt" => return fun n => some (.ofTime n.updatedAt)
  | _ =>
    match ← field? scope field with
    | some id => return fun n => (n.valuesByFieldId id).head?.bind SortKey.ofValue?
    | none => return fun _ => none

/-- Nodes, given in the order of creation, put in the order of a query. -/
def arrange (scope : QueryScope) (sort : Option QuerySort) (nodes : List AssembledNode) :
    Evaluating (List AssembledNode) := do
  match sort with
  | none => return nodes
  | some sort =>
    let key ← sortKey scope sort.field
    let ranked := nodes.mapIdx fun place node => (⟨key node, place, node⟩ : RankedNode)
    return (RankedNode.sort sort.direction ranked).map (·.node)

/-- The answer to a definition. -/
def answer (scope : QueryScope) (d : QueryDefinition) : Evaluating QueryPage := do
  let found ← select scope d.filters scope.candidates
  let arranged ← arrange scope d.sort found
  return ⟨arranged.take d.limit.toNat, found.length⟩

end Evaluating

namespace Store

/-- The answer to a query at the time `now`. -/
def evaluate (s : Store) (now : Int) (d : QueryDefinition) : Reading QueryPage := do
  if let some fault := d.fault? then throw (.invalidDefinition fault)
  let candidates ← s.assembleAll
  return (← (Evaluating.answer ⟨s, candidates, now⟩ d) .empty).1

end Store

end TagGraph
