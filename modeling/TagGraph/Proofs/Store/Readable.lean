import TagGraph.Proofs.Store.Sound
import TagGraph.Query.Evaluation

/-!
# Reading a sound store

Where every row can be read no look-up fails (`Store.IsReadable`), and so it is in a sound store.
Its live nodes are told apart by their identifiers: each is what its identifier is looked up as.
-/

namespace TagGraph

namespace Reading

variable {α β : Type}

/-- A look-up that gives a value. -/
def Succeeds (r : Reading α) : Prop :=
  ∃ a, r = .ok a

/-- What a look-up has found, which is nothing if it fails. -/
def found? (r : Reading (Option α)) : Option α :=
  match r with
  | .ok found => found
  | .error _ => none

@[simp] theorem found?_ok (a : Option α) : found? (.ok a : Reading (Option α)) = a := rfl

/-- A look-up that succeeds gives what it has found. -/
theorem Succeeds.eq_ok_found {r : Reading (Option α)} (h : Succeeds r) : r = .ok (found? r) := by
  obtain ⟨a, rfl⟩ := h
  rfl

namespace Succeeds

theorem ok (a : α) : Succeeds (.ok a : Reading α) := ⟨a, rfl⟩

/-- A look-up followed by another one gives a value if both do. -/
theorem bind {r : Reading α} {f : α → Reading β} (hr : Succeeds r) (hf : ∀ a, Succeeds (f a)) :
    Succeeds (r >>= f) := by
  obtain ⟨a, rfl⟩ := hr
  exact hf a

theorem map {r : Reading α} (f : α → β) (hr : Succeeds r) : Succeeds (f <$> r) := by
  obtain ⟨a, rfl⟩ := hr
  exact ⟨f a, rfl⟩

/-- Look-ups one after the other succeed if each of them does. -/
theorem mapM {f : α → Reading β} {l : List α} (h : ∀ a ∈ l, Succeeds (f a)) :
    Succeeds (l.mapM f) := by
  induction l with
  | nil => exact ok []
  | cons a l ih =>
    rw [List.mapM_cons]
    exact (h a List.mem_cons_self).bind fun b =>
      (ih fun a ha => h a (List.mem_cons_of_mem _ ha)).bind fun bs => ok (b :: bs)

end Succeeds

/-- If look-ups one after the other succeed, each of them does. -/
theorem ok_of_mapM {f : α → Reading β} {l : List α} {bs : List β} (h : l.mapM f = .ok bs) {a : α}
    (ha : a ∈ l) : Succeeds (f a) := by
  induction l generalizing bs with
  | nil => cases ha
  | cons first l ih =>
    rw [List.mapM_cons] at h
    obtain ⟨b, hfirst, h⟩ := bind_ok h
    obtain ⟨rest, hrest, -⟩ := bind_ok h
    rcases List.mem_cons.mp ha with rfl | ha
    · exact ⟨b, hfirst⟩
    · exact ih hrest ha

/-- What look-ups one after the other give, one of them gives. -/
theorem mem_of_mapM {f : α → Reading β} {l : List α} {bs : List β} (h : l.mapM f = .ok bs) {b : β} :
    b ∈ bs ↔ ∃ a ∈ l, f a = .ok b := by
  induction l generalizing bs with
  | nil =>
    obtain rfl := Except.ok.inj h
    simp
  | cons a l ih =>
    rw [List.mapM_cons] at h
    obtain ⟨first, hfirst, h⟩ := bind_ok h
    obtain ⟨rest, hrest, h⟩ := bind_ok h
    obtain rfl := Except.ok.inj h
    rw [List.mem_cons, ih hrest, List.exists_mem_cons_iff, hfirst, Except.ok.injEq, eq_comm]

/-- A reader that undoes a writer reads back what has been written, one after the other. -/
theorem mapM_map_eq {write : α → β} {read : β → Reading α} (h : ∀ a, read (write a) = .ok a)
    (l : List α) : (l.map write).mapM read = .ok l := by
  induction l with
  | nil => rfl
  | cons a l ih =>
    rw [List.map_cons, List.mapM_cons, h a, ih]
    rfl

/-- If everything in a list has been written, the list has. -/
theorem exists_eq_map {write : α → β} {l : List β} (h : ∀ b ∈ l, ∃ a, b = write a) :
    ∃ l' : List α, l = l'.map write := by
  induction l with
  | nil => exact ⟨[], rfl⟩
  | cons b l ih =>
    obtain ⟨a, rfl⟩ := h b List.mem_cons_self
    obtain ⟨l', rfl⟩ := ih fun b hb => h b (List.mem_cons_of_mem _ hb)
    exact ⟨a :: l', rfl⟩

end Reading

/-- Rows of nodes are read back one by one. -/
theorem Node.mapM_read (nodes : List Node) :
    (nodes.map Node.record).mapM NodeRecord.read = (.ok nodes : Reading (List Node)) :=
  Reading.mapM_map_eq Node.read_record nodes

/-- Rows of fields are read back one by one. -/
theorem Property.mapM_read (rows : List Property) :
    (rows.map Property.record).mapM PropertyRecord.read = (.ok rows : Reading (List Property)) :=
  Reading.mapM_map_eq Property.read_record rows

namespace Store

open Reading

/-! ## Stores that can be read -/

/-- Every row can be read. -/
structure IsReadable (s : Store) : Prop where
  nodes : ∀ r ∈ s.nodes, Succeeds r.read
  rows : ∀ r ∈ s.properties, Succeeds r.read

/-- The order of the rows neither adds nor drops one. -/
theorem mem_inOrder {r : PropertyRecord} {rows : List PropertyRecord} :
    r ∈ inOrder rows ↔ r ∈ rows :=
  List.mem_mergeSort

/-- The rows of live nodes are those of the nodes that have not been deleted. -/
theorem mem_liveRecords {s : Store} {r : NodeRecord} :
    r ∈ s.liveRecords ↔ r ∈ s.nodes ∧ r.isLive = true := by
  rw [liveRecords, recordsByCreation, List.mem_filter, List.mem_mergeSort]

/-- The rows of a field are those of live nodes. -/
theorem mem_rowsByField {s : Store} {field : NodeId} {r : PropertyRecord} :
    (r ∈ s.liveRecords.flatMap fun n =>
      inOrder (s.properties.filter fun r => r.nodeId == n.id && r.fieldId == .known field)) ↔
        r ∈ s.properties ∧ r.fieldId = .known field ∧
          ∃ n ∈ s.nodes, n.isLive = true ∧ n.id = r.nodeId := by
  simp only [List.mem_flatMap, mem_inOrder, List.mem_filter, mem_liveRecords, Bool.and_eq_true,
    beq_iff_eq]
  constructor
  · rintro ⟨n, ⟨hn, hlive⟩, hr, hnode, hfield⟩
    exact ⟨hr, hfield, n, hn, hlive, hnode.symm⟩
  · rintro ⟨hr, hfield, n, hn, hlive, hnode⟩
    exact ⟨n, ⟨hn, hlive⟩, hr, hnode.symm, hfield⟩

namespace IsReadable

variable {s : Store} (hs : s.IsReadable)
include hs

/-- Whichever row of a node is looked up, it can be read. -/
theorem readRecord?_succeeds (p : NodeRecord → Bool) :
    Succeeds (readRecord? (s.nodes.find? p)) := by
  cases h : s.nodes.find? p with
  | none => exact Succeeds.ok _
  | some r => exact (hs.nodes r (List.mem_of_find?_eq_some h)).map some

theorem node?_succeeds (id : NodeId) : Succeeds (s.node? id) :=
  hs.readRecord?_succeeds _

theorem nodeBySystemId?_succeeds (systemId : String) : Succeeds (s.nodeBySystemId? systemId) :=
  hs.readRecord?_succeeds _

theorem propertiesOf_succeeds (node : NodeId) : Succeeds (s.propertiesOf node) :=
  Succeeds.mapM fun r hr => hs.rows r (List.mem_filter.mp (mem_inOrder.mp hr)).1

theorem fieldPropertiesOf_succeeds (node field : NodeId) :
    Succeeds (s.fieldPropertiesOf node field) :=
  Succeeds.mapM fun r hr => hs.rows r (List.mem_filter.mp (mem_inOrder.mp hr)).1

/-- The rows of a field can be read, whatever nodes they belong to. -/
theorem propertiesByField_succeeds (field : NodeId) : Succeeds (s.propertiesByField field) :=
  Succeeds.mapM fun r hr => hs.rows r (mem_rowsByField.mp hr).1

/-- The pairs of supertag and parent can be listed, with or without `field:extends`. -/
theorem extensions_succeeds : Succeeds s.extensions := by
  refine (hs.nodeBySystemId?_succeeds _).bind fun field => ?_
  cases field with
  | none => exact Succeeds.ok _
  | some field => exact (hs.propertiesByField_succeeds field.id).bind fun _ => Succeeds.ok _

theorem descendants_succeeds (supertag : NodeId) : Succeeds (s.descendants supertag) :=
  hs.extensions_succeeds.bind fun _ => Succeeds.ok _

/-- The way to the parent of a supertag never fails: a missing field, row or node only ends it. -/
theorem parent?_succeeds (supertag : NodeId) : Succeeds (s.parent? supertag) := by
  refine (hs.nodeBySystemId?_succeeds _).bind fun field => ?_
  cases field with
  | none => exact Succeeds.ok _
  | some field =>
    refine (hs.fieldPropertiesOf_succeeds supertag field.id).bind fun rows => ?_
    cases firstReference? rows with
    | none => exact Succeeds.ok _
    | some parent =>
      refine (hs.node?_succeeds parent).bind fun found => ?_
      cases found with
      | none => exact Succeeds.ok _
      | some node => exact Succeeds.ok _

/-- Nor does the way upwards, for any number of steps. -/
theorem ancestorsFrom_succeeds : ∀ (steps : Nat) (visited : List NodeId) (current : NodeId),
    Succeeds (s.ancestorsFrom steps visited current)
  | 0, _, _ => Succeeds.ok []
  | steps + 1, visited, current => by
    refine (hs.parent?_succeeds current).bind fun found => ?_
    cases found with
    | none => exact Succeeds.ok []
    | some parent =>
      dsimp only
      split
      · exact Succeeds.ok []
      · exact (ancestorsFrom_succeeds steps (parent :: visited) parent).bind fun _ => Succeeds.ok _

theorem ancestors_succeeds (supertag : NodeId) : Succeeds (s.ancestors supertag) :=
  hs.ancestorsFrom_succeeds _ _ _

end IsReadable

/-- The live nodes, in the order of creation. -/
def liveNodes (s : Store) : List Node :=
  s.liveRecords.filterMap fun r => r.read.toOption

namespace Sound

variable {s : Store}

/-! ## Nodes -/

/-- Every row of a node is the row of a node that can be told. -/
theorem record_of_mem (hs : s.Sound) {r : NodeRecord} (hr : r ∈ s.nodes) :
    ∃ n : Node, r = n.record :=
  (hs.nodes r hr).readable

/-- Rows of the store, in whatever order, stand for nodes. -/
theorem exists_nodes (hs : s.Sound) {rows : List NodeRecord} (h : ∀ r ∈ rows, r ∈ s.nodes) :
    ∃ l : List Node, rows = l.map Node.record :=
  exists_eq_map fun r hr => hs.record_of_mem (h r hr)

/-- A search among the rows of nodes ends with nothing or with a node. -/
theorem find?_nodes (hs : s.Sound) (p : NodeRecord → Bool) :
    s.nodes.find? p = none ∨ ∃ n : Node, s.nodes.find? p = some n.record := by
  cases h : s.nodes.find? p with
  | none => exact Or.inl rfl
  | some r =>
    obtain ⟨n, rfl⟩ := hs.record_of_mem (List.mem_of_find?_eq_some h)
    exact Or.inr ⟨n, rfl⟩

/-- In a sound store every row can be read. -/
theorem isReadable (hs : s.Sound) : s.IsReadable where
  nodes r hr := by
    obtain ⟨n, rfl⟩ := hs.record_of_mem hr
    exact ⟨n, Node.read_record n⟩
  rows r hr := by
    obtain ⟨p, rfl⟩ := hs.rows r hr
    exact ⟨p, Property.read_record p⟩

theorem node?_succeeds (hs : s.Sound) (id : NodeId) : Succeeds (s.node? id) :=
  hs.isReadable.node?_succeeds id

theorem nodeBySystemId?_succeeds (hs : s.Sound) (systemId : String) :
    Succeeds (s.nodeBySystemId? systemId) :=
  hs.isReadable.nodeBySystemId?_succeeds systemId

/-- A name can be looked up, be it an identifier or a handle. -/
theorem findLive?_succeeds (hs : s.Sound) (identifier : String) :
    Succeeds (s.findLive? identifier) := by
  have hhandle := hs.nodeBySystemId?_succeeds (Text.trim identifier)
  unfold findLive?
  simp only
  generalize Text.trim identifier = name at hhandle
  cases NodeId.ofString? name with
  | none => exact hhandle
  | some id =>
    refine (hs.node?_succeeds id).bind fun found => ?_
    cases found with
    | some node => exact Succeeds.ok _
    | none => exact hhandle

/-- The rows of live nodes are those of `liveNodes`. -/
theorem liveRecords_eq (hs : s.Sound) : s.liveRecords = s.liveNodes.map Node.record := by
  have hall : ∀ r ∈ s.liveRecords, ∃ n : Node, r = n.record :=
    fun r hr => hs.record_of_mem (mem_liveRecords.mp hr).1
  rw [liveNodes]
  generalize s.liveRecords = l at hall
  induction l with
  | nil => rfl
  | cons r l ih =>
    obtain ⟨n, rfl⟩ := hall r (List.mem_cons_self ..)
    have hrest := ih fun r' hr' => hall r' (List.mem_cons_of_mem _ hr')
    have hread : n.record.read.toOption = some n := by
      rw [Node.read_record]
      rfl
    rw [List.filterMap_cons, hread, List.map_cons, ← hrest]

/-- All live nodes are listed. -/
theorem listNodes_live (hs : s.Sound) : s.listNodes none false = .ok s.liveNodes := by
  show s.liveRecords.mapM NodeRecord.read = .ok s.liveNodes
  rw [hs.liveRecords_eq, Node.mapM_read]

/-- The live nodes are those whose rows are stored and not marked as deleted. -/
theorem mem_liveNodes (hs : s.Sound) {n : Node} :
    n ∈ s.liveNodes ↔ n.record ∈ s.nodes ∧ n.isActive = true := by
  rw [← Node.isLive_record, ← mem_liveRecords, hs.liveRecords_eq, List.mem_map]
  constructor
  · intro h
    exact ⟨n, h, rfl⟩
  · rintro ⟨m, hm, heq⟩
    rwa [← Node.record_injective heq]

/-- Two rows with one identifier are one row. -/
theorem record_unique (hs : s.Sound) {r r' : NodeRecord} (hr : r ∈ s.nodes) (hr' : r' ∈ s.nodes)
    (h : r.id = r'.id) : r = r' :=
  List.inj_on_of_nodup_map hs.ids hr hr' h

/-- A live node is what its identifier is looked up as. -/
theorem node?_eq_some_iff (hs : s.Sound) {id : NodeId} {n : Node} :
    s.node? id = .ok (some n) ↔ n ∈ s.liveNodes ∧ n.id = id := by
  unfold node? liveRecordOf?
  rw [hs.mem_liveNodes]
  constructor
  · intro h
    rcases hs.find?_nodes fun r => r.id == .known id && r.isLive with hnone | ⟨m, hsome⟩
    · rw [hnone] at h
      cases h
    · rw [hsome, readRecord?, Node.read_record] at h
      obtain rfl : m = n := by simpa using h
      have hfound := List.find?_some hsome
      simp only [Bool.and_eq_true, beq_iff_eq, Node.isLive_record] at hfound
      exact ⟨⟨List.mem_of_find?_eq_some hsome, hfound.2⟩, StoredId.known.inj hfound.1⟩
  · rintro ⟨⟨hmem, hactive⟩, rfl⟩
    have hself : (n.record.id == StoredId.known n.id && n.record.isLive) = true := by
      rw [Node.isLive_record, hactive]
      exact Bool.and_eq_true_iff.mpr ⟨beq_self_eq_true _, rfl⟩
    rcases hs.find?_nodes fun r => r.id == .known n.id && r.isLive with hnone | ⟨m, hsome⟩
    · exact absurd hself (List.find?_eq_none.mp hnone _ hmem)
    · have hfound := List.find?_some hsome
      simp only [Bool.and_eq_true, beq_iff_eq] at hfound
      rw [hsome, hs.record_unique (List.mem_of_find?_eq_some hsome) hmem hfound.1, readRecord?,
        Node.read_record]
      rfl

/-- A node, deleted or not, is what its identifier is looked up as. -/
theorem nodeOrTombstone?_eq_some_iff (hs : s.Sound) {id : NodeId} {n : Node} :
    s.nodeOrTombstone? id = .ok (some n) ↔ n.record ∈ s.nodes ∧ n.id = id := by
  unfold nodeOrTombstone? recordOf?
  constructor
  · intro h
    rcases hs.find?_nodes (·.id == .known id) with hnone | ⟨m, hsome⟩
    · rw [hnone] at h
      cases h
    · rw [hsome, readRecord?, Node.read_record] at h
      obtain rfl : m = n := by simpa using h
      have hfound := List.find?_some hsome
      exact ⟨List.mem_of_find?_eq_some hsome, StoredId.known.inj (beq_iff_eq.mp hfound)⟩
  · rintro ⟨hmem, rfl⟩
    rcases hs.find?_nodes (·.id == .known n.id) with hnone | ⟨m, hsome⟩
    · exact absurd (beq_self_eq_true _) (List.find?_eq_none.mp hnone _ hmem)
    · have hfound := List.find?_some hsome
      rw [hsome, hs.record_unique (List.mem_of_find?_eq_some hsome) hmem (beq_iff_eq.mp hfound),
        readRecord?, Node.read_record]
      rfl

/-- Live nodes have different identifiers. -/
theorem liveNodes_ids_nodup (hs : s.Sound) : (s.liveNodes.map (·.id)).Nodup := by
  -- The live nodes are some of the nodes in another order.
  have hperm : s.recordsByCreation.Perm s.nodes := List.mergeSort_perm ..
  have hids : (s.liveRecords.map (·.id)).Nodup :=
    ((hperm.map _).nodup_iff.mpr hs.ids).sublist (List.filter_sublist.map _)
  rw [hs.liveRecords_eq, List.map_map] at hids
  have hknown : s.liveNodes.map (NodeRecord.id ∘ Node.record) =
      (s.liveNodes.map (·.id)).map StoredId.known := by
    rw [List.map_map]
    rfl
  rw [hknown] at hids
  exact hids.of_map _

/-! ## Rows of fields -/

/-- Rows of the store, in whatever order, stand for rows of fields. -/
theorem exists_rows (hs : s.Sound) {rows : List PropertyRecord}
    (h : ∀ r ∈ rows, r ∈ s.properties) : ∃ l : List Property, rows = l.map Property.record :=
  exists_eq_map fun r hr => hs.rows r (h r hr)

theorem propertiesOf_succeeds (hs : s.Sound) (node : NodeId) : Succeeds (s.propertiesOf node) :=
  hs.isReadable.propertiesOf_succeeds node

/-! ## Supertags -/

theorem extensions_succeeds (hs : s.Sound) : Succeeds s.extensions :=
  hs.isReadable.extensions_succeeds

theorem parent?_succeeds (hs : s.Sound) (supertag : NodeId) : Succeeds (s.parent? supertag) :=
  hs.isReadable.parent?_succeeds supertag

/-- The supertags that count for one, with those below it or alone, can be listed. -/
theorem acceptedSupertags_succeeds (hs : s.Sound) (supertag : NodeId) (includeInherited : Bool) :
    Succeeds (s.acceptedSupertags supertag includeInherited) := by
  cases includeInherited with
  | false => exact Succeeds.ok _
  | true => exact hs.extensions_succeeds.bind fun _ => Succeeds.ok _

/-- So can those that count for a supertag given by name. -/
theorem acceptedBy?_succeeds (hs : s.Sound) (supertag : String) (includeInherited : Bool) :
    Succeeds (s.acceptedBy? supertag includeInherited) := by
  refine (hs.findLive?_succeeds supertag).bind fun tag => ?_
  cases tag with
  | none => exact Succeeds.ok _
  | some tag =>
    exact (hs.acceptedSupertags_succeeds tag.id includeInherited).bind fun _ => Succeeds.ok _

theorem findLiveId?_succeeds (hs : s.Sound) (identifier : String) :
    Succeeds (s.findLiveId? identifier) :=
  (hs.findLive?_succeeds identifier).bind fun _ => Succeeds.ok _

theorem supertagFieldId?_succeeds (hs : s.Sound) : Succeeds s.supertagFieldId? :=
  (hs.nodeBySystemId?_succeeds _).bind fun _ => Succeeds.ok _

theorem fieldInfo?_succeeds (hs : s.Sound) (field : NodeId) : Succeeds (s.fieldInfo? field) :=
  (hs.node?_succeeds field).bind fun _ => Succeeds.ok _

/-- What is shown of a supertag can be read, even if it is gone. -/
theorem supertagRef?_succeeds (hs : s.Sound) (supertag : NodeId) :
    Succeeds (s.supertagRef? supertag) :=
  (hs.node?_succeeds supertag).bind fun _ => Succeeds.ok _

end Sound

end Store

end TagGraph
