import TagGraph.Proofs.Field.Outcome

/-!
# What comes with a new node

A node is created together with the rows that assign its supertags, one row for each supertag, or
not at all (`Edit.createNode_ok`). Nothing else changes.
-/

namespace TagGraph

namespace Edit

open Store

variable {s s' : Store} {now : Int} {n : NewNode}

/-- A node that has been inserted stands behind the others. -/
theorem insertNode_ok (hs : s.foreign = none) {node : Node}
    (h : insertNode now n s = .ok node s') :
    conflict? s (newRecord now n) = none ∧
      s' = { s with nodes := s.nodes ++ [newRecord now n] } := by
  unfold insertNode at h
  cases hvalid : n.fault? with
  | some fault =>
    simp only [hvalid] at h
    cases h
  | none =>
    simp only [hvalid] at h
    obtain ⟨added, t, hadd, h⟩ := ok_of_bind h
    obtain ⟨found, -, h⟩ := (Reads.ask _).ok_of_bind h
    cases found with
    | none => cases h
    | some found =>
      obtain ⟨-, rfl⟩ := EStateM.Result.ok.inj h
      rcases addNode_ok hs hadd with ⟨-, hfree, rfl⟩ | ⟨hlenient, -⟩
      · exact ⟨hfree, rfl⟩
      · cases hlenient

/-- A row says of a node what a pair of a field and a text does. -/
def RowFor (node : NodeId) (pair : NodeId × String) (r : PropertyRecord) : Prop :=
  r.nodeId = .known node ∧ r.fieldId = .known pair.1 ∧ r.value = pair.2

/-- The rows that come with a node are added one by one. -/
theorem insertRows_ok {node : NodeId} : ∀ {rows : List (NodeId × String)} {s s' : Store}
    {u : PUnit}, s.foreign = none →
      (forIn rows PUnit.unit fun row _ => do
        let _ ← insertProperty now node row.1 row.2 none
        pure (ForInStep.yield PUnit.unit) : Edit PUnit) s = .ok u s' →
      ∃ added, List.Forall₂ (RowFor node) rows added ∧
        s'.properties = s.properties ++ added ∧ s'.nodes = s.nodes
  | [], s, s', _, _, h => by
    obtain ⟨-, rfl⟩ := EStateM.Result.ok.inj h
    exact ⟨[], .nil, (List.append_nil _).symm, rfl⟩
  | row :: rows, s, s', _, hs, h => by
    rw [List.forIn_cons] at h
    obtain ⟨_, t, hfirst, h⟩ := ok_of_bind h
    obtain ⟨_, u, hadd, hfirst⟩ := ok_of_bind hfirst
    obtain ⟨rfl, rfl⟩ := EStateM.Result.ok.inj hfirst
    obtain ⟨number, place, rfl⟩ := insertProperty_ok hs hadd
    obtain ⟨added, hrows, hproperties, hnodes⟩ := insertRows_ok (s := s.addRow number _) hs h
    refine ⟨newRow now number node row.1 row.2 place :: added, .cons ⟨rfl, rfl, rfl⟩ hrows, ?_,
      hnodes⟩
    rw [hproperties, addRow, List.append_assoc]
    rfl

theorem insertNodeWithProperties_ok (hs : s.foreign = none) {rows : List (NodeId × String)}
    {node : Node} (h : insertNodeWithProperties now n rows s = .ok node s') :
    conflict? s (newRecord now n) = none ∧ s'.nodes = s.nodes ++ [newRecord now n] ∧
      ∃ added, List.Forall₂ (RowFor n.id) rows added ∧ s'.properties = s.properties ++ added := by
  obtain ⟨created, t, hinsert, h⟩ := ok_of_bind (ok_of_atomically h)
  have hid := insertNode_id hinsert
  obtain ⟨hfree, rfl⟩ := insertNode_ok hs hinsert
  obtain ⟨_, u, hloop, h⟩ := ok_of_bind h
  obtain ⟨-, rfl⟩ := EStateM.Result.ok.inj h
  obtain ⟨added, hrows, hproperties, hnodes⟩ := insertRows_ok
    (s := { s with nodes := s.nodes ++ [newRecord now n] }) hs hloop
  exact ⟨hfree, hnodes, added, hid ▸ hrows, hproperties⟩

/-- The texts name live nodes, one by one. -/
def NamesLive (s : Store) (names : List String) (ids : List NodeId) : Prop :=
  List.Forall₂ (fun name id => ∃ n, s.findLive? name = .ok (some n) ∧ n.id = id) names ids

theorem requireSupertags_ok {supertags : List String} {ids : List NodeId}
    (h : requireSupertags supertags s = .ok ids s') : NamesLive s supertags ids := by
  refine (Reads.mapM_ok (fun supertag => ?_) h).imp fun supertag id hid => ?_
  · exact (requireSupertag_reads supertag).bind fun n => Reads.pure n.id
  · obtain ⟨tag, htag, hid⟩ := (requireSupertag_reads supertag).ok_of_bind hid
    obtain ⟨rfl, -⟩ := EStateM.Result.ok.inj hid
    exact ⟨tag, ask_require_ok (·.findLive? supertag) htag, rfl⟩

theorem requireSupertags_of {supertags : List String} {ids : List NodeId}
    (h : NamesLive s supertags ids) : requireSupertags supertags s = .ok ids s := by
  refine Reads.mapM_of (h.imp fun supertag id hid => ?_)
  obtain ⟨n, hfound, rfl⟩ := hid
  rw [bind_of_ok (requireSupertag_of hfound)]
  rfl

/-- A row assigns a supertag to a node. -/
structure Assigns (s : Store) (node supertag : NodeId) (r : PropertyRecord) : Prop where
  node : r.nodeId = .known node
  field : s.Holds r.fieldId (some Handle.fieldSupertag)
  value : (PropertyValue.node supertag).encode? = some r.value

/-- What the creation of a node leaves: its row, and one that assigns it each of its supertags. -/
structure Creates (s s' : Store) (now : Int) (n : NewNode) (supertags : List NodeId) : Prop where
  free : conflict? s (newRecord now n) = none
  nodes : s'.nodes = s.nodes ++ [newRecord now n]
  named : NamesLive s n.supertags supertags
  rows : ∃ added, s'.properties = s.properties ++ added ∧
    List.Forall₂ (Assigns s n.id) (unseen [] supertags) added

/-- Rows for pairs that assign supertags assign them. -/
theorem assigns_of_rowFor {node field : NodeId} (hfield : s.Holds (.known field)
    (some Handle.fieldSupertag)) {supertags : List NodeId} {rows : List (NodeId × String)}
    {added : List PropertyRecord}
    (hrows : List.Forall₂ (fun supertag row => row.1 = field ∧
      (PropertyValue.node supertag).encode? = some row.2) supertags rows)
    (hadded : List.Forall₂ (RowFor node) rows added) :
    List.Forall₂ (Assigns s node) supertags added := by
  induction hrows generalizing added with
  | nil =>
    cases hadded
    exact .nil
  | cons hrow _ ih =>
    cases hadded with
    | cons hfirst hrest =>
      obtain ⟨hnode, hat, hvalue⟩ := hfirst
      refine .cons ⟨hnode, ?_, hvalue ▸ hrow.2⟩ (ih hrest)
      rw [hat, hrow.1]
      exact hfield

theorem createNode_ok (hs : s.Sound) {id : NodeId} (h : createNode now n s = .ok id s') :
    ∃ supertags, Creates s s' now n supertags := by
  have hinsert : ∀ {rows : List (NodeId × String)},
      (do return (← insertNodeWithProperties now n rows).id : Edit NodeId) s = .ok id s' →
        ∃ node, insertNodeWithProperties now n rows s = .ok node s' := by
    intro rows h
    obtain ⟨node, t, hinsert, h⟩ := ok_of_bind h
    obtain ⟨-, rfl⟩ := EStateM.Result.ok.inj h
    exact ⟨node, hinsert⟩
  unfold createNode at h
  by_cases hn : n.supertags.isEmpty
  · simp only [hn, if_true] at h
    obtain ⟨node, hinsert⟩ := hinsert h
    obtain ⟨hfree, hnodes, added, hadded, hproperties⟩ :=
      insertNodeWithProperties_ok hs.native hinsert
    cases hadded
    refine ⟨[], hfree, hnodes, ?_, [], hproperties, .nil⟩
    rw [List.isEmpty_iff.mp hn]
    exact .nil
  · simp only [hn, Bool.false_eq_true, if_false] at h
    obtain ⟨field, hfound, h⟩ := (requireField_reads _).ok_of_bind h
    obtain ⟨supertags, hnamed, h⟩ := (requireSupertags_reads _).ok_of_bind h
    obtain ⟨rows, hrows, h⟩ := (supertagRows_reads field.id supertags).ok_of_bind h
    obtain ⟨node, hinsert⟩ := hinsert h
    obtain ⟨hfree, hnodes, added, hadded, hproperties⟩ :=
      insertNodeWithProperties_ok hs.native hinsert
    have hfield := hs.holds_of_found isName_fieldSupertag (requireField_ok hfound)
    exact ⟨supertags, hfree, hnodes, requireSupertags_ok hnamed, added, hproperties,
      assigns_of_rowFor hfield (supertagRows_ok hrows) hadded⟩

/-! ## Rows after the creation -/

namespace Creates

variable {supertags : List NodeId}

/-- The node has not been there before. -/
theorem new (h : Creates s s' now n supertags) : StoredId.known n.id ∉ s.nodes.map (·.id) :=
  not_mem_ids_of_free h.free

/-- Live nodes keep their handles. -/
theorem holds (h : Creates s s' now n supertags) {id : StoredId} {handle : Option String}
    (hholds : s.Holds id handle) : s'.Holds id handle := by
  obtain ⟨r, hr, hr'⟩ := hholds
  refine ⟨r, ?_, hr'⟩
  rw [h.nodes]
  exact List.mem_append_left _ hr

/-- Everything but the supertags of the node is as before. -/
theorem fieldRecords_eq (h : Creates s s' now n supertags) {node field : NodeId}
    (hne : ¬ (node = n.id ∧ s.Holds (.known field) (some Handle.fieldSupertag))) :
    s'.fieldRecords node field = s.fieldRecords node field := by
  obtain ⟨added, hproperties, hadded⟩ := h.rows
  have hnone : added.filter (fun r => r.nodeId == .known node && r.fieldId == .known field) =
      [] := by
    refine List.filter_eq_nil_iff.mpr fun r hr hat => hne ?_
    obtain ⟨supertag, -, hassigns⟩ := exists_paired hadded r hr
    rw [Bool.and_eq_true, beq_iff_eq, beq_iff_eq] at hat
    refine ⟨StoredId.known.inj (hat.1.symm.trans hassigns.node), ?_⟩
    rw [← hat.2]
    exact hassigns.field
  rw [fieldRecords, fieldRecords, hproperties, List.filter_append, hnone, List.append_nil]

/-- The node has one row for each of its supertags, each counted once. -/
theorem length_fieldRecords (h : Creates s s' now n supertags) (hs : s.Sound) {field : NodeId}
    (hfield : s.Holds (.known field) (some Handle.fieldSupertag)) :
    (s'.fieldRecords n.id field).length = (unseen [] supertags).length := by
  obtain ⟨added, hproperties, hadded⟩ := h.rows
  have hall : added.filter (fun r => r.nodeId == .known n.id && r.fieldId == .known field) =
      added := by
    refine List.filter_eq_self.mpr fun r hr => ?_
    obtain ⟨supertag, -, hassigns⟩ := exists_paired hadded r hr
    rw [Bool.and_eq_true, beq_iff_eq, beq_iff_eq]
    exact ⟨hassigns.node, hs.holds_unique hassigns.field hfield⟩
  have hnone : s.properties.filter
      (fun r => r.nodeId == .known n.id && r.fieldId == .known field) = [] := by
    refine List.filter_eq_nil_iff.mpr fun r hr hat => ?_
    obtain ⟨⟨m, hm, hid⟩, -⟩ := hs.grounded r hr
    rw [Bool.and_eq_true, beq_iff_eq, beq_iff_eq] at hat
    exact h.new (List.mem_map.mpr ⟨m, hm, hid.trans hat.1⟩)
  rw [fieldRecords, inOrder, List.length_mergeSort, hproperties, List.filter_append, hnone, hall,
    List.nil_append, hadded.length_eq]

end Creates

end Edit

end TagGraph
