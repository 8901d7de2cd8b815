import TagGraph.Proofs.Assembly
import TagGraph.Proofs.Query.Order

/-!
# What a query means

A filter is read recursively, each name in it looked up in the store on its own (`Filter.holds`), so
that its meaning for a node depends on the store, the time and the node alone. A query asks for the
live nodes that all its filters hold of (`Store.matching`), in its order (`Store.Arranged`).
-/

namespace TagGraph

open Reading

/-! ## Relations -/

namespace Store

/-- What an optional name stands for: no name is no restriction, and a name that stands for nothing
is no answer. -/
def named? (s : Store) : Option String → Option (Option NodeId)
  | none => some none
  | some name => (found? (s.findLiveId? name)).map some

/-- The nodes that a node refers to, in one field or in any but that of supertags. -/
def referencesOf (s : Store) (n : AssembledNode) (field : Option NodeId) : List NodeId :=
  n.references field (found? s.supertagFieldId?)

/-- Whether a node stands in a relation to a target, or to any node. -/
def relates (s : Store) (n : AssembledNode) (kind : RelationKind) (target field : Option NodeId) :
    Bool :=
  match kind, target with
  | .childOf, some target | .ownedBy, some target => n.ownerId == some target
  | .childOf, none | .ownedBy, none => n.ownerId.isSome
  | .linksTo, some target => (s.referencesOf n field).contains target
  | .linksTo, none => !(s.referencesOf n field).isEmpty
  | .linkedFrom, some target =>
    (found? (s.assemble? target)).any fun source => (s.referencesOf source field).contains n.id
  | .linkedFrom, none =>
    s.joinedNodes.any fun source => (s.referencesOf source field).contains n.id

end Store

/-! ## Filters -/

namespace Filter

mutual

/-- Whether a filter holds of a node at the time `now`. -/
def holds (s : Store) (now : Int) (n : AssembledNode) : Filter → Bool
  | .supertag tag includeInherited =>
    (found? (s.acceptedBy? tag includeInherited)).any fun ids =>
      n.supertags.any fun t => ids.contains t.id
  | .property field op value =>
    (found? (s.findLiveId? field)).any fun id =>
      op.test (PropertyValue.flatten (n.valuesByFieldId id)) value
  | .content query caseSensitive => contentMatches n.content query caseSensitive
  | .relation kind target field =>
    (s.named? target).any fun target =>
      (s.named? field).any fun field => s.relates n kind target field
  | .temporal field op days date => op.test now days date (field.of n)
  | .hasField field negate =>
    (found? (s.findLiveId? field)).any fun id => (!(n.valuesByFieldId id).isEmpty) != negate
  | .and filters => allHold s now n filters
  | .or filters => someHolds s now n filters
  | .not filters => !someHolds s now n filters

/-- Whether every filter holds. -/
def allHold (s : Store) (now : Int) (n : AssembledNode) : List Filter → Bool
  | [] => true
  | f :: rest => holds s now n f && allHold s now n rest

/-- Whether some filter holds. -/
def someHolds (s : Store) (now : Int) (n : AssembledNode) : List Filter → Bool
  | [] => false
  | f :: rest => holds s now n f || someHolds s now n rest

end

variable (s : Store) (now : Int) (n : AssembledNode)

theorem allHold_eq (filters : List Filter) :
    allHold s now n filters = filters.all (holds s now n) := by
  induction filters with
  | nil => rfl
  | cons f rest ih => rw [allHold, ih, List.all_cons]

theorem someHolds_eq (filters : List Filter) :
    someHolds s now n filters = filters.any (holds s now n) := by
  induction filters with
  | nil => rfl
  | cons f rest ih => rw [someHolds, ih, List.any_cons]

/-- A conjunction holds if all its filters do. -/
@[simp] theorem holds_and (filters : List Filter) :
    holds s now n (.and filters) = filters.all (holds s now n) := by
  rw [holds, allHold_eq]

/-- A disjunction holds if one of its filters does. -/
@[simp] theorem holds_or (filters : List Filter) :
    holds s now n (.or filters) = filters.any (holds s now n) := by
  rw [holds, someHolds_eq]

/-- A negation holds if none of its filters does. -/
@[simp] theorem holds_not (filters : List Filter) :
    holds s now n (.not filters) = filters.all fun f => !holds s now n f := by
  rw [holds, someHolds_eq, List.not_any_eq_all_not]

/-- What filters read of a node of one store and of a node of another one is the same: what names
stand for, which nodes they are related to, their contents, times and supertags, and under each field
the values once reference lists are split. -/
structure ReadsAlike (s s' : Store) (n n' : AssembledNode) : Prop where
  accepted : s'.acceptedBy? = s.acceptedBy?
  found : s'.findLiveId? = s.findLiveId?
  related : s'.relates n' = s.relates n
  content : n'.content = n.content
  times : n'.createdAt = n.createdAt ∧ n'.updatedAt = n.updatedAt
  supertags : n'.supertags = n.supertags
  values : ∀ field, PropertyValue.flatten (n'.valuesByFieldId field) =
    PropertyValue.flatten (n.valuesByFieldId field)
  isEmpty : ∀ field, (n'.valuesByFieldId field).isEmpty = (n.valuesByFieldId field).isEmpty

mutual

/-- What a filter means depends on nothing else. -/
theorem holds_congr {s s' : Store} {n n' : AssembledNode} (h : ReadsAlike s s' n n') (now : Int)
    (f : Filter) : holds s' now n' f = holds s now n f := by
  cases f with
  | supertag tag includeInherited => rw [holds, holds, h.accepted, h.supertags]
  | property field op value =>
    rw [holds, holds, h.found]
    simp only [h.values]
  | content query caseSensitive => rw [holds, holds, h.content]
  | relation kind target field =>
    have hnamed : s'.named? = s.named? := by
      funext name
      cases name with
      | none => rfl
      | some name => rw [Store.named?, Store.named?, h.found]
    rw [holds, holds, hnamed, h.related]
  | temporal field op days date =>
    have htime : field.of n' = field.of n := by
      cases field with
      | createdAt => exact h.times.1
      | updatedAt => exact h.times.2
    rw [holds, holds, htime]
  | hasField field negate =>
    rw [holds, holds, h.found]
    simp only [h.isEmpty]
  | and filters => rw [holds, holds, allHold_congr h now filters]
  | or filters => rw [holds, holds, someHolds_congr h now filters]
  | not filters => rw [holds, holds, someHolds_congr h now filters]

theorem allHold_congr {s s' : Store} {n n' : AssembledNode} (h : ReadsAlike s s' n n') (now : Int)
    (filters : List Filter) : allHold s' now n' filters = allHold s now n filters := by
  cases filters with
  | nil => rw [allHold, allHold]
  | cons f rest => rw [allHold, allHold, holds_congr h now f, allHold_congr h now rest]

theorem someHolds_congr {s s' : Store} {n n' : AssembledNode} (h : ReadsAlike s s' n n')
    (now : Int) (filters : List Filter) :
    someHolds s' now n' filters = someHolds s now n filters := by
  cases filters with
  | nil => rw [someHolds, someHolds]
  | cons f rest => rw [someHolds, someHolds, holds_congr h now f, someHolds_congr h now rest]

end

end Filter

/-! ## Queries -/

namespace Store

/-- The live nodes that every filter holds of, in the order of creation. -/
def matching (s : Store) (now : Int) (filters : List Filter) : List AssembledNode :=
  s.joinedNodes.filter fun n => filters.all (Filter.holds s now n)

/-- The key of a node under an order. Names other than the three built-in ones name a field. -/
def sortKeyOf (s : Store) (field : String) (n : AssembledNode) : Option SortKey :=
  match field with
  | "content" => some (.text (Text.lower n.content))
  | "createdAt" => some (.ofTime n.createdAt)
  | "updatedAt" => some (.ofTime n.updatedAt)
  | _ =>
    (found? (s.findLiveId? field)).bind fun id =>
      (n.valuesByFieldId id).head?.bind SortKey.ofValue?

/-- Nodes with their keys and their places. -/
def ranked (s : Store) (field : String) (nodes : List AssembledNode) : List RankedNode :=
  nodes.mapIdx fun place node => ⟨s.sortKeyOf field node, place, node⟩

/-- Nodes, given in the order of creation, in the order of a query: each node of the arrangement
stands strictly in front of all behind it. -/
def Arranged (s : Store) (sort : Option QuerySort) (nodes arrangement : List AssembledNode) :
    Prop :=
  match sort with
  | none => arrangement = nodes
  | some sort => ∃ order : List RankedNode,
      order.Perm (s.ranked sort.field nodes) ∧
      (order.Pairwise fun a b => RankedNode.order sort.direction a b = .lt) ∧
      arrangement = order.map (·.node)

theorem ranked_nodes (s : Store) (field : String) (nodes : List AssembledNode) :
    (s.ranked field nodes).map (·.node) = nodes := by
  refine List.ext_getElem (by simp [ranked]) fun i h₁ h₂ => ?_
  simp [ranked]

theorem ranked_places (s : Store) (field : String) (nodes : List AssembledNode) :
    (s.ranked field nodes).map (·.place) = List.range nodes.length := by
  refine List.ext_getElem (by simp [ranked]) fun i h₁ h₂ => ?_
  simp [ranked]

/-- Nodes have different places. -/
theorem ranked_places_nodup (s : Store) (field : String) (nodes : List AssembledNode) :
    ((s.ranked field nodes).map (·.place)).Nodup := by
  rw [ranked_places]
  exact List.nodup_range

/-- An arrangement has the nodes that were given, each as often. -/
theorem Arranged.perm {s : Store} {sort : Option QuerySort} {nodes arrangement : List AssembledNode}
    (h : s.Arranged sort nodes arrangement) : arrangement.Perm nodes := by
  cases sort with
  | none =>
    obtain rfl : arrangement = nodes := h
    exact List.Perm.refl _
  | some sort =>
    obtain ⟨order, hperm, _, rfl⟩ := h
    have hnodes := hperm.map (·.node)
    rwa [ranked_nodes] at hnodes

/-- An arrangement is what the nodes are put in order to. -/
theorem Arranged.eq_sort {s : Store} {sort : QuerySort} {nodes arrangement : List AssembledNode}
    (h : s.Arranged (some sort) nodes arrangement) :
    arrangement = (RankedNode.sort sort.direction (s.ranked sort.field nodes)).map (·.node) := by
  obtain ⟨order, hperm, hpairwise, rfl⟩ := h
  rw [RankedNode.eq_sort (s.ranked_places_nodup sort.field nodes) hperm hpairwise]

/-- Nodes have one arrangement only. -/
theorem Arranged.unique {s : Store} {sort : Option QuerySort}
    {nodes arrangement arrangement' : List AssembledNode} (h : s.Arranged sort nodes arrangement)
    (h' : s.Arranged sort nodes arrangement') : arrangement = arrangement' := by
  cases sort with
  | none => exact h.trans h'.symm
  | some sort => exact h.eq_sort.trans h'.eq_sort.symm

end Store

end TagGraph
