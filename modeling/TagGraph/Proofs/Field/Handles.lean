import TagGraph.Proofs.Field.Writing

/-!
# Fields known by their handles

A field is written and read by its handle. What can be said of it is told by the texts in its rows
(`Store.textsIn`), by the values that its declared type admits (`Store.Takes`), and by the one value
that it may hold (`Store.IsSet`). Edits of other fields leave all of that
(`Store.LeavesFields.textsIn_eq`, `Store.LeavesFields.takes_iff`).
-/

namespace TagGraph

namespace Store

variable {s s' : Store}

/-- There is a live node for a field. -/
def HasField (s : Store) (field : String) : Prop :=
  ∃ fieldNode, s.findLive? field = .ok (some fieldNode)

/-- The texts in the rows of a field of a node; none if there is no live node for the field. -/
def textsIn (s : Store) (node : NodeId) (field : String) : List String :=
  match s.findLive? field with
  | .ok (some fieldNode) => s.texts node fieldNode.id
  | _ => []

/-- There is a live node for a field, and the type that it declares, if any, admits the values. -/
def Takes (s : Store) (field : String) (values : List PropertyValue) : Prop :=
  ∃ fieldNode type, s.findLive? field = .ok (some fieldNode) ∧
    s.fieldType? fieldNode.id = .ok type ∧
    type.all (fun t => values.all (·.conformsTo t)) = true

/-- A field of a node holds a value and nothing else. -/
def IsSet (s : Store) (node : NodeId) (field : String) (value : PropertyValue) : Prop :=
  ∃ raw, value.encode? = some raw ∧ s.textsIn node field = [raw]

/-- The first row of a field of a node holds a value. -/
def HoldsFirst (s : Store) (node : NodeId) (field : String) (value : PropertyValue) : Prop :=
  ∃ raw rest, value.encode? = some raw ∧ s.textsIn node field = raw :: rest

theorem textsIn_of_found {node : NodeId} {field : String} {fieldNode : Node}
    (h : s.findLive? field = .ok (some fieldNode)) :
    s.textsIn node field = s.texts node fieldNode.id := by
  rw [textsIn, h]

theorem textsIn_of_holds (hs : s.Sound) {node f : NodeId} {field : String} (hname : IsName field)
    (h : s.Holds (.known f) (some field)) : s.textsIn node field = s.texts node f := by
  obtain ⟨fieldNode, hfound, rfl, -⟩ := hs.findLive?_of_holds hname h
  exact textsIn_of_found hfound

theorem hasField_of_textsIn {node : NodeId} {field : String} (h : s.textsIn node field ≠ []) :
    s.HasField field := by
  unfold textsIn at h
  split at h
  · next fieldNode hfound => exact ⟨fieldNode, hfound⟩
  · exact absurd rfl h

theorem hasField_iff (hs : s.Sound) {field : String} (hname : IsName field) :
    s.HasField field ↔ ∃ f, s.Holds (.known f) (some field) := by
  constructor
  · intro ⟨fieldNode, hfound⟩
    exact ⟨fieldNode.id, hs.holds_of_found hname hfound⟩
  · intro ⟨f, hf⟩
    obtain ⟨fieldNode, hfound, -, -⟩ := hs.findLive?_of_holds hname hf
    exact ⟨fieldNode, hfound⟩

theorem textsIn_of_not_hasField {node : NodeId} {field : String} (h : ¬ s.HasField field) :
    s.textsIn node field = [] := by
  by_contra hne
  exact h (hasField_of_textsIn hne)

/-- A field of a node is read by its texts. -/
theorem Sound.values_eq_textsIn (hs : s.Sound) {node : NodeId} (field : String)
    (hlive : s.IsLive node) :
    s.values node field = .ok ((s.textsIn node field).filterMap PropertyValue.decode?) := by
  obtain ⟨found, hfound⟩ := hs.findLive?_succeeds field
  cases found with
  | none =>
    obtain ⟨n, hn⟩ := hlive
    simp [values, textsIn, hn, hfound, bind, Except.bind, pure, Except.pure]
  | some fieldNode => rw [textsIn_of_found hfound, hs.values_eq hlive hfound]

/-- The first value of a field is the one that its first row holds, as its text is read, if that is
not too deep to be read. -/
theorem Sound.value?_of_holdsFirst (hs : s.Sound) {node : NodeId} {field : String}
    {value : PropertyValue} (hlive : s.IsLive node) (h : s.HoldsFirst node field value)
    (hdepth : value.payloadDepth ≤ 126) : s.value? node field = .ok (some value.reread) := by
  obtain ⟨raw, rest, hraw, htexts⟩ := h
  have hdecode := PropertyValue.decode?_of_encode? hraw
  rw [if_pos hdepth] at hdecode
  rw [value?, hs.values_eq_textsIn field hlive, htexts, List.filterMap_cons_some hdecode]
  rfl

/-- Without a live `field:fieldType` no field has a type. -/
theorem Sound.fieldType?_of_gone (hs : s.Sound)
    (hgone : ¬ ∃ f, s.Holds (.known f) (some Handle.fieldFieldType)) (field : NodeId) :
    s.fieldType? field = .ok none := by
  obtain ⟨found, hfound⟩ := hs.nodeBySystemId?_succeeds Handle.fieldFieldType
  cases found with
  | none =>
    rw [fieldType?, hfound]
    rfl
  | some n => exact absurd ⟨n.id, hs.holds_of_nodeBySystemId? hfound⟩ hgone

/-! ## What other edits leave -/

namespace LeavesFields

variable {handles : String → Prop} (h : LeavesFields handles s s') (hs : s.Sound)

include h hs

theorem isLive_iff {id : NodeId} : s'.IsLive id ↔ s.IsLive id :=
  hs.isLive_congr (h hs).1 (h hs).2.1

theorem hasField_iff {field : String} (hname : IsName field) :
    s'.HasField field ↔ s.HasField field := by
  rw [Store.hasField_iff (h hs).1 hname, Store.hasField_iff hs hname]
  simp only [(h hs).2.1]

theorem textsIn_eq (node : NodeId) {field : String} (hname : IsName field)
    (hnot : ¬ handles field) : s'.textsIn node field = s.textsIn node field := by
  obtain ⟨hs', hholds, htexts⟩ := h hs
  by_cases hfield : s.HasField field
  · obtain ⟨f, hf⟩ := (Store.hasField_iff hs hname).mp hfield
    rw [textsIn_of_holds hs hname hf, textsIn_of_holds hs' hname ((hholds _ _).mpr hf)]
    exact htexts node f field hf hnot
  · rw [textsIn_of_not_hasField hfield,
      textsIn_of_not_hasField fun hfield' => hfield ((h.hasField_iff hs hname).mp hfield')]

theorem isSet_iff (node : NodeId) {field : String} (value : PropertyValue) (hname : IsName field)
    (hnot : ¬ handles field) : s'.IsSet node field value ↔ s.IsSet node field value := by
  rw [IsSet, IsSet, h.textsIn_eq hs node hname hnot]

/-- The declared types of fields are in `field:fieldType`. -/
theorem fieldType?_eq (hnot : ¬ handles Handle.fieldFieldType) (field : NodeId) :
    s'.fieldType? field = s.fieldType? field := by
  obtain ⟨hs', hholds, htexts⟩ := h hs
  by_cases hdeclared : ∃ f, s.Holds (.known f) (some Handle.fieldFieldType)
  · obtain ⟨f, hf⟩ := hdeclared
    rw [hs.fieldType?_eq hf, hs'.fieldType?_eq ((hholds _ _).mpr hf), htexts field f _ hf hnot]
  · rw [hs.fieldType?_of_gone hdeclared,
      hs'.fieldType?_of_gone (by simpa only [hholds] using hdeclared)]

theorem takes_iff (hnot : ¬ handles Handle.fieldFieldType) {field : String} (hname : IsName field)
    (values : List PropertyValue) : s'.Takes field values ↔ s.Takes field values := by
  have hs' := (h hs).1
  -- The field is the same node in both stores, with the same type.
  have hsame : ∀ n n' : Node, s.findLive? field = .ok (some n) →
      s'.findLive? field = .ok (some n') → n'.id = n.id := by
    intro n n' hn hn'
    have hholds' := ((h hs).2.1 _ _).mp (hs'.holds_of_found hname hn')
    exact StoredId.known.inj (hs.holds_unique hholds' (hs.holds_of_found hname hn))
  have hfields := h.hasField_iff hs hname
  constructor
  · intro ⟨n', type, hn', htype, hadmits⟩
    obtain ⟨n, hn⟩ := hfields.mp ⟨n', hn'⟩
    rw [hsame n n' hn hn', h.fieldType?_eq hs hnot] at htype
    exact ⟨n, type, hn, htype, hadmits⟩
  · intro ⟨n, type, hn, htype, hadmits⟩
    obtain ⟨n', hn'⟩ := hfields.mpr ⟨n, hn⟩
    refine ⟨n', type, hn', ?_, hadmits⟩
    rw [hsame n n' hn hn', h.fieldType?_eq hs hnot]
    exact htype

end LeavesFields

/-! ## Stores with the same rows -/

/-- Two stores have the same nodes and the same rows of fields. -/
structure SameTables (s s' : Store) : Prop where
  nodes : s'.nodes = s.nodes
  properties : s'.properties = s.properties

namespace SameTables

theorem refl (s : Store) : SameTables s s := ⟨rfl, rfl⟩

theorem texts_eq (h : SameTables s s') (node field : NodeId) :
    s'.texts node field = s.texts node field := by
  rw [texts, texts, fieldRecords, fieldRecords, h.properties]

theorem findLive?_eq (h : SameTables s s') (name : String) :
    s'.findLive? name = s.findLive? name := by
  unfold findLive? node? nodeBySystemId? liveRecordOf?
  simp only [h.nodes]

theorem textsIn_eq (h : SameTables s s') (node : NodeId) (field : String) :
    s'.textsIn node field = s.textsIn node field := by
  unfold textsIn
  simp only [h.findLive?_eq, h.texts_eq]

end SameTables

end Store

end TagGraph
