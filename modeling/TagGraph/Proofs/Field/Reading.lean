import TagGraph.Proofs.Inheritance.Steps

/-!
# What the fields of nodes hold

In a sound store the reads of a field of a node depend on the texts of its rows alone
(`Store.texts`) and on which live nodes there are (`Store.Holds`): the declared type of a field
(`Sound.fieldType?_eq`), the values of a field (`Sound.values_eq`) and the parent of a supertag
(`Sound.parent?_eq`).
-/

namespace TagGraph

open Reading

/-- A row is known from what is stored of it. -/
theorem Property.record_injective : Function.Injective Property.record := by
  intro p q h
  have hread := congrArg PropertyRecord.read h
  rw [read_record, read_record] at hread
  exact Except.ok.inj hread

namespace Store

/-- The texts in the rows of a field of a node, in their order. -/
def texts (s : Store) (node field : NodeId) : List String :=
  (s.fieldRecords node field).map (·.value)

/-- The rows of a field of a node, as they are read. -/
def fieldRowsOf (s : Store) (node field : NodeId) : List Property :=
  found? (some <$> s.fieldPropertiesOf node field) |>.getD []

/-- A handle by which a node can be looked up like by an identifier: it has no white space around it
and writes no identifier. -/
structure IsName (handle : String) : Prop where
  trimmed : Text.trim handle = handle
  notId : NodeId.ofString? handle = none

theorem isName_fieldSupertag : IsName Handle.fieldSupertag :=
  ⟨by decide +kernel, by decide +kernel⟩

theorem isName_fieldExtends : IsName Handle.fieldExtends :=
  ⟨by decide +kernel, by decide +kernel⟩

theorem isName_fieldFieldType : IsName Handle.fieldFieldType :=
  ⟨by decide +kernel, by decide +kernel⟩

theorem isName_fieldQueryDefinition : IsName Handle.fieldQueryDefinition :=
  ⟨by decide +kernel, by decide +kernel⟩

theorem isName_fieldResultCache : IsName Handle.fieldResultCache :=
  ⟨by decide +kernel, by decide +kernel⟩

theorem isName_fieldEvaluatedAt : IsName Handle.fieldEvaluatedAt :=
  ⟨by decide +kernel, by decide +kernel⟩

variable {s : Store}

theorem IsName.findLive?_eq {handle : String} (h : IsName handle) :
    s.findLive? handle = s.nodeBySystemId? handle := by
  unfold findLive?
  simp only [h.trimmed, h.notId]

theorem length_fieldRecords (s : Store) (node field : NodeId) :
    (s.fieldRecords node field).length = (s.texts node field).length :=
  (List.length_map _).symm

theorem mem_texts {node field : NodeId} {raw : String} :
    raw ∈ s.texts node field ↔ ∃ r ∈ s.properties, r.nodeId = .known node ∧
      r.fieldId = .known field ∧ r.value = raw := by
  simp only [texts, fieldRecords, List.mem_map, mem_inOrder, List.mem_filter,
    Bool.and_eq_true, beq_iff_eq, and_assoc]

namespace Sound

/-! ## Live nodes -/

/-- The live node that has a handle is found under it. -/
theorem nodeBySystemId?_of_holds (hs : s.Sound) {id : NodeId} {handle : String}
    (h : s.Holds (.known id) (some handle)) :
    ∃ n, s.nodeBySystemId? handle = .ok (some n) ∧ n.id = id ∧ n.systemId = some handle := by
  obtain ⟨found, hfound⟩ := hs.nodeBySystemId?_succeeds handle
  cases found with
  | none => exact absurd h (not_holds_of_nodeBySystemId? hfound _)
  | some n =>
    have hn := hs.holds_of_nodeBySystemId? hfound
    exact ⟨n, hfound, StoredId.known.inj (hs.holds_unique hn h), systemId_of_nodeBySystemId? hfound⟩

theorem holds_of_mem_liveNodes (hs : s.Sound) {n : Node} (h : n ∈ s.liveNodes) :
    s.Holds (.known n.id) n.systemId := by
  obtain ⟨hrecord, hactive⟩ := hs.mem_liveNodes.mp h
  exact ⟨n.record, hrecord, by rw [Node.isLive_record, hactive], rfl, rfl⟩

theorem mem_liveNodes_of_nodeBySystemId? (hs : s.Sound) {handle : String} {n : Node}
    (h : s.nodeBySystemId? handle = .ok (some n)) : n ∈ s.liveNodes := by
  unfold nodeBySystemId? at h
  rcases hs.find?_nodes fun r => r.systemId == some handle && r.isLive with hfind | ⟨m, hfind⟩
  · rw [hfind] at h
    cases h
  · have hlive := List.find?_some hfind
    rw [Bool.and_eq_true, Node.isLive_record] at hlive
    rw [hfind, readRecord?, Node.read_record] at h
    obtain rfl := Option.some.inj (Except.ok.inj h)
    exact hs.mem_liveNodes.mpr ⟨List.mem_of_find?_eq_some hfind, hlive.2⟩

/-- A live node is what its handle is looked up as. -/
theorem nodeBySystemId?_eq_some_iff (hs : s.Sound) {handle : String} {n : Node} :
    s.nodeBySystemId? handle = .ok (some n) ↔ n ∈ s.liveNodes ∧ n.systemId = some handle := by
  refine ⟨fun h => ⟨hs.mem_liveNodes_of_nodeBySystemId? h, systemId_of_nodeBySystemId? h⟩, ?_⟩
  rintro ⟨hn, hhandle⟩
  have hholds := hs.holds_of_mem_liveNodes hn
  rw [hhandle] at hholds
  obtain ⟨m, hm, hid, -⟩ := hs.nodeBySystemId?_of_holds hholds
  rw [hm, List.inj_on_of_nodup_map hs.liveNodes_ids_nodup
    (hs.mem_liveNodes_of_nodeBySystemId? hm) hn hid]

theorem findLive?_of_holds (hs : s.Sound) {id : NodeId} {handle : String} (hname : IsName handle)
    (h : s.Holds (.known id) (some handle)) :
    ∃ n, s.findLive? handle = .ok (some n) ∧ n.id = id ∧ n.systemId = some handle := by
  rw [hname.findLive?_eq]
  exact hs.nodeBySystemId?_of_holds h

theorem holds_of_found (hs : s.Sound) {n : Node} {handle : String} (hname : IsName handle)
    (h : s.findLive? handle = .ok (some n)) : s.Holds (.known n.id) (some handle) := by
  rw [hname.findLive?_eq] at h
  exact hs.holds_of_nodeBySystemId? h

/-! ## Rows of a field -/

theorem fieldRowsOf_records (hs : s.Sound) (node field : NodeId) :
    (s.fieldRowsOf node field).map Property.record = s.fieldRecords node field := by
  obtain ⟨l, hl⟩ : ∃ l : List Property, s.fieldRecords node field = l.map Property.record :=
    hs.exists_rows fun r hr => (List.mem_filter.mp (mem_inOrder.mp hr)).1
  rw [fieldRowsOf, fieldPropertiesOf, hl, Property.mapM_read]
  rfl

theorem mem_fieldRowsOf (hs : s.Sound) {node field : NodeId} {row : Property} :
    row ∈ s.fieldRowsOf node field ↔
      row.record ∈ s.properties ∧ row.nodeId = node ∧ row.fieldId = field := by
  rw [← List.mem_map_of_injective Property.record_injective, hs.fieldRowsOf_records, fieldRecords,
    mem_inOrder, List.mem_filter, Bool.and_eq_true, beq_iff_eq, beq_iff_eq]
  exact and_congr_right fun _ => and_congr (Iff.of_eq (StoredId.known.injEq _ _))
    (Iff.of_eq (StoredId.known.injEq _ _))

theorem fieldRowsOf_values (hs : s.Sound) (node field : NodeId) :
    (s.fieldRowsOf node field).map (·.value) = s.texts node field := by
  rw [texts, ← hs.fieldRowsOf_records, List.map_map]
  rfl

/-- The rows of a field of a node are read, with their texts. -/
theorem exists_fieldRows (hs : s.Sound) (node field : NodeId) :
    ∃ rows, s.fieldPropertiesOf node field = .ok rows ∧
      rows.map (·.value) = s.texts node field := by
  have hmem : ∀ r ∈ s.fieldRecords node field, r ∈ s.properties :=
    fun r hr => (List.mem_filter.mp (mem_inOrder.mp hr)).1
  obtain ⟨rows, hrows⟩ := hs.exists_rows hmem
  refine ⟨rows, ?_, ?_⟩
  · rw [fieldPropertiesOf, hrows, Property.mapM_read]
  · rw [texts, hrows, List.map_map]
    rfl

theorem decodeRows_eq {rows : List Property} {raws : List String}
    (h : rows.map (·.value) = raws) : decodeRows rows = raws.filterMap PropertyValue.decode? := by
  rw [← h, List.filterMap_map]
  rfl

/-- The values of a field of a live node. -/
theorem values_eq (hs : s.Sound) {node : NodeId} {field : String} {fieldNode : Node}
    (hlive : s.IsLive node) (hfound : s.findLive? field = .ok (some fieldNode)) :
    s.values node field = .ok ((s.texts node fieldNode.id).filterMap PropertyValue.decode?) := by
  obtain ⟨n, hn⟩ := hlive
  obtain ⟨rows, hrows, htexts⟩ := hs.exists_fieldRows node fieldNode.id
  rw [values, hn, ← decodeRows_eq htexts]
  simp [hfound, hrows, bind, Except.bind, pure, Except.pure]

/-- The first value of a field of a live node. -/
theorem value?_eq (hs : s.Sound) {node : NodeId} {field : String} {fieldNode : Node}
    (hlive : s.IsLive node) (hfound : s.findLive? field = .ok (some fieldNode)) :
    s.value? node field =
      .ok ((s.texts node fieldNode.id).filterMap PropertyValue.decode?).head? := by
  rw [value?, hs.values_eq hlive hfound]
  rfl

/-- A value that a field of a live node has comes from a text in a field that is live. -/
theorem exists_of_value? (hs : s.Sound) {node : NodeId} {field : String} {value : PropertyValue}
    (hlive : s.IsLive node) (h : s.value? node field = .ok (some value)) :
    ∃ fieldNode, s.findLive? field = .ok (some fieldNode) ∧
      ((s.texts node fieldNode.id).filterMap PropertyValue.decode?).head? = some value := by
  obtain ⟨found, hfound⟩ := hs.findLive?_succeeds field
  cases found with
  | none =>
    obtain ⟨n, hn⟩ := hlive
    simp [value?, values, hn, hfound, bind, Except.bind, pure, Except.pure] at h
  | some fieldNode =>
    rw [hs.value?_eq hlive hfound] at h
    exact ⟨fieldNode, hfound, Except.ok.inj h⟩

end Sound

/-! ## Declared types -/

/-- The type that the rows of a declaration declare. -/
def typeIn? (raws : List String) : Option FieldType :=
  raws.head?.bind fun raw =>
    ((PropertyValue.decode? raw).bind (·.asString?)).bind FieldType.ofString?

/-- The name of a type declares it. -/
theorem typeIn?_of_encode? {type : FieldType} {raw : String}
    (h : (PropertyValue.string type.name).encode? = some raw) : typeIn? [raw] = some type := by
  have hname : FieldType.ofString? type.name = some type := by
    cases type <;> decide +kernel
  rw [typeIn?, List.head?_cons, Option.bind_some, PropertyValue.decode?_of_encode? h]
  exact hname

theorem Sound.fieldType?_eq (hs : s.Sound) {typeField : NodeId}
    (h : s.Holds (.known typeField) (some Handle.fieldFieldType)) (field : NodeId) :
    s.fieldType? field = .ok (typeIn? (s.texts field typeField)) := by
  obtain ⟨n, hn, rfl, -⟩ := hs.nodeBySystemId?_of_holds h
  obtain ⟨rows, hrows, htexts⟩ := hs.exists_fieldRows field n.id
  have htype : typeIn? (s.texts field n.id) = rows.head?.bind fun row =>
      ((PropertyValue.decode? row.value).bind (·.asString?)).bind FieldType.ofString? := by
    rw [typeIn?, ← htexts, List.head?_map]
    cases rows.head? <;> rfl
  rw [fieldType?, hn, htype]
  show (s.fieldPropertiesOf field n.id >>= fun rows => _) = _
  rw [hrows]
  rfl

/-! ## Parents -/

/-- The parent that the rows of `field:extends` name first. -/
def parentOf? (raws : List String) : Option NodeId :=
  raws.findSome? PropertyValue.parentIn?

/-- Where there is one text at most, the first to name a parent is the only one. -/
theorem parentOf?_eq_some_iff {raws : List String} (h : raws.length ≤ 1) {parent : NodeId} :
    parentOf? raws = some parent ↔ ∃ raw ∈ raws, PropertyValue.parentIn? raw = some parent := by
  cases raws with
  | nil => simp [parentOf?]
  | cons raw rest =>
    obtain rfl : rest = [] := List.length_eq_zero_iff.mp (Nat.le_zero.mp (Nat.le_of_succ_le_succ h))
    simp [parentOf?]

/-- The parent of a supertag is the one that its rows name first, if it is live. -/
theorem Sound.exists_parent? (hs : s.Sound) {extendsField : NodeId}
    (h : s.Holds (.known extendsField) (some Handle.fieldExtends)) (supertag : NodeId) :
    ∃ found, s.parent? supertag = .ok found ∧ ∀ parent, found = some parent ↔
      parentOf? (s.texts supertag extendsField) = some parent ∧ s.IsLive parent := by
  obtain ⟨n, hn, rfl, -⟩ := hs.nodeBySystemId?_of_holds h
  obtain ⟨rows, hrows, htexts⟩ := hs.exists_fieldRows supertag n.id
  have hfirst : parentOf? (s.texts supertag n.id) = firstReference? rows := by
    rw [parentOf?, ← htexts, List.findSome?_map]
    rfl
  have hparent : s.parent? supertag = (firstReference? rows).elim (pure none) fun parent => do
      if (← s.node? parent).isSome then return some parent else return none := by
    rw [parent?, hn]
    show (s.fieldPropertiesOf supertag n.id >>= fun rows => _) = _
    rw [hrows]
    dsimp only [bind, Except.bind]
    cases firstReference? rows <;> rfl
  rw [hparent, hfirst]
  cases firstReference? rows with
  | none => exact ⟨none, rfl, by simp⟩
  | some named =>
    obtain ⟨found, hfound⟩ := hs.node?_succeeds named
    cases found with
    | none =>
      refine ⟨none, by simp [hfound, bind, Except.bind, pure, Except.pure], fun parent => ?_⟩
      simp only [reduceCtorEq, Option.some.injEq, false_iff, not_and]
      rintro rfl ⟨node, hnode⟩
      cases hfound.symm.trans hnode
    | some node =>
      refine ⟨some named, by simp [hfound, bind, Except.bind, pure, Except.pure], fun parent => ?_⟩
      rw [Option.some.injEq, and_iff_left_of_imp]
      rintro rfl
      exact ⟨node, hfound⟩

/-- Parents are live. -/
theorem isLive_of_parent? {child parent : NodeId} (h : s.parent? child = .ok (some parent)) :
    s.IsLive parent := by
  obtain ⟨field, -, h⟩ := Reading.bind_ok h
  cases field with
  | none => cases h
  | some field =>
    obtain ⟨rows, -, h⟩ := Reading.bind_ok h
    cases hnamed : firstReference? rows with
    | none =>
      rw [hnamed] at h
      cases h
    | some named =>
      rw [hnamed] at h
      obtain ⟨found, hfound, h⟩ := Reading.bind_ok h
      cases found with
      | none => cases h
      | some node =>
        cases h
        exact ⟨node, hfound⟩

end Store

end TagGraph
