import TagGraph.Proofs.Assembly.Shared
import TagGraph.Proofs.Tagged

/-!
# Values of assembled nodes

An assembled node reads the rows of all its fields at once, in one order, and passes over those of
deleted fields and those that hold no value (`Store.bearsValue`). What it then has under a field are
the values that the rows of the field hold, in their order (`Store.Sound.valuesByFieldId_joined`),
as they are read on their own. Texts may stand in the rows as they like.
-/

namespace TagGraph

open Reading

/-! ## Values by field -/

/-- In a table of keys with their values a look-up finds those that occur. -/
theorem lookup_eq_ite {α β : Type} [DecidableEq α] {l : List (α × β)} (value : α → β)
    (h : ∀ entry ∈ l, entry.2 = value entry.1) (key : α) :
    l.lookup key = if key ∈ l.map (·.1) then some (value key) else none := by
  induction l with
  | nil => rfl
  | cons entry rest ih =>
    obtain ⟨k, v⟩ := entry
    obtain rfl : v = value k := h _ List.mem_cons_self
    rw [List.lookup_cons, ih fun e he => h e (List.mem_cons_of_mem _ he)]
    by_cases hkey : key = k
    · subst hkey
      simp
    · rw [beq_false_of_ne hkey]
      simp only [List.map_cons, List.mem_cons, hkey, false_or]

theorem valuesByField_perm (held : List HeldValue) :
    (valuesByField held).Perm ((held.map (·.field)).eraseDups.map fun field =>
      (field, (held.filter (·.field == field)).map (·.value))) :=
  List.mergeSort_perm _ _

/-- Each field occurs once. -/
theorem valuesByField_nodup (held : List HeldValue) :
    ((valuesByField held).map (·.1)).Nodup := by
  apply ((valuesByField_perm held).map _).nodup_iff.mpr
  rw [List.map_map]
  -- The keys are the fields themselves, without repetitions.
  show ((held.map (·.field)).eraseDups.map id).Nodup
  rw [List.map_id]
  exact nodup_eraseDups _

/-- The entries are the fields with their values, of which there are some. -/
theorem mem_valuesByField {held : List HeldValue} {field : NodeId} {values : List PropertyValue} :
    (field, values) ∈ valuesByField held ↔
      values ≠ [] ∧ (held.filter (·.field == field)).map (·.value) = values := by
  have hoccurs : field ∈ (held.map (·.field)).eraseDups ↔
      (held.filter (·.field == field)).map (·.value) ≠ [] := by
    rw [List.mem_eraseDups, List.mem_map, ne_eq, List.map_eq_nil_iff, List.filter_eq_nil_iff]
    simp
  rw [(valuesByField_perm held).mem_iff, List.mem_map]
  constructor
  · rintro ⟨key, hkey, heq⟩
    obtain ⟨rfl, rfl⟩ := Prod.mk.inj heq
    exact ⟨hoccurs.mp hkey, rfl⟩
  · rintro ⟨hsome, rfl⟩
    exact ⟨field, hoccurs.mpr hsome, rfl⟩

/-- A field has the values that are held of it, in their order. -/
theorem lookup_valuesByField (held : List HeldValue) (field : NodeId) :
    ((valuesByField held).lookup field).getD [] =
      (held.filter (·.field == field)).map (·.value) := by
  rw [lookup_eq_ite (fun key => (held.filter (·.field == key)).map (·.value))
    fun entry hentry => (mem_valuesByField.mp hentry).2.symm]
  split
  · rfl
  · next hkey =>
    -- A field without an entry is one that no value is held of.
    symm
    by_contra hsome
    exact hkey (List.mem_map_of_mem (f := (·.1)) (mem_valuesByField.mpr ⟨hsome, rfl⟩))

theorem valuesByFieldId_ofHeld (node : Node) (held : List HeldValue) (field : NodeId) :
    (AssembledNode.ofHeld node held).valuesByFieldId field =
      (held.filter (·.field == field)).map (·.value) :=
  lookup_valuesByField held field

/-! ## Held values -/

namespace Store

/-- The store with other texts in the rows of its fields. -/
def withTexts (s : Store) (text : PropertyRecord → String) : Store :=
  { s with properties := s.properties.map fun r => { r with value := text r } }

/-- Whether a row is of a live field and holds a value. -/
def bearsValue (s : Store) (r : PropertyRecord) : Bool :=
  match r.fieldId with
  | .known field => decide (s.IsLive field) && (PropertyValue.decode? r.value).isSome
  | .foreign _ => false

/-- The store without the rows of deleted fields and the rows that hold no value. -/
def pruned (s : Store) : Store :=
  { s with properties := s.properties.filter s.bearsValue }

variable {s : Store}

theorem of_heldValue? {row : Property} {held : HeldValue} (h : s.heldValue? row = some held) :
    held.field = row.fieldId ∧ PropertyValue.decode? row.value = some held.value := by
  unfold heldValue? at h
  cases hinfo : found? (s.fieldInfo? row.fieldId) with
  | none => simp [hinfo] at h
  | some info =>
    cases hdecode : PropertyValue.decode? row.value with
    | none => simp [hinfo, hdecode] at h
    | some value =>
      simp only [hinfo, hdecode, Option.some.injEq] at h
      rw [← h]
      exact ⟨rfl, rfl⟩

/-- The values held of a field are those of its rows. -/
theorem filter_heldValues (s : Store) (rows : List Property) (field : NodeId) :
    ((rows.filterMap s.heldValue?).filter (·.field == field)).map (·.value) =
      (rows.filter (·.fieldId == field)).filterMap fun row => (s.heldValue? row).map (·.value) := by
  rw [List.filter_filterMap, List.map_filterMap, List.filterMap_filter]
  -- Both sides run through the rows once, so that they agree if they do so row by row.
  apply List.filterMap_congr
  intro row _
  cases hheld : s.heldValue? row with
  | none => simp
  | some held =>
    rw [← (of_heldValue? hheld).1]
    by_cases hfield : held.field = field
    · simp [hfield]
    · simp [hfield]

/-- A node is joined with the values that its rows hold, row by row. -/
theorem joined_eq (s : Store) (node : Node) :
    s.joined node = .ofHeld node ((s.rowsOf node.id).filterMap s.heldValue?) := by
  rw [joined, List.filterMap_eq_flatMap_toList]

theorem mem_fieldValues_joined (s : Store) (node : Node) {field : NodeId}
    {values : List PropertyValue} : (field, values) ∈ (s.joined node).fieldValues ↔
      values ≠ [] ∧ (s.joined node).valuesByFieldId field = values := by
  rw [joined_eq, valuesByFieldId_ofHeld]
  exact mem_valuesByField

theorem valuesByFieldId_joined (s : Store) (node : Node) (field : NodeId) :
    (s.joined node).valuesByFieldId field =
      ((s.rowsOf node.id).filter (·.fieldId == field)).filterMap fun row =>
        (s.heldValue? row).map (·.value) := by
  rw [joined_eq, valuesByFieldId_ofHeld, filter_heldValues]

namespace Sound

theorem value_heldValue? (hs : s.Sound) (row : Property) : (s.heldValue? row).map (·.value) =
    if s.IsLive row.fieldId then PropertyValue.decode? row.value else none := by
  obtain ⟨found, hfound⟩ := hs.node?_succeeds row.fieldId
  unfold heldValue?
  rw [fieldInfo?, hfound]
  cases found with
  | none =>
    have hgone : ¬ s.IsLive row.fieldId := by
      rintro ⟨n, hn⟩
      cases hfound.symm.trans hn
    rw [if_neg hgone]
    rfl
  | some n =>
    rw [if_pos ⟨n, hfound⟩]
    cases PropertyValue.decode? row.value <;> rfl

/-- A node has under a live field the values of its rows, and under any other one none. -/
theorem valuesByFieldId_eq (hs : s.Sound) (node : Node) (field : NodeId) :
    (s.joined node).valuesByFieldId field =
      if s.IsLive field then
        (s.fieldRowsOf node.id field).filterMap fun row => PropertyValue.decode? row.value
      else [] := by
  have hrow : ∀ row ∈ s.fieldRowsOf node.id field, (s.heldValue? row).map (·.value) =
      if s.IsLive field then PropertyValue.decode? row.value else none := by
    intro row hrow
    rw [hs.value_heldValue?, (hs.mem_fieldRowsOf.mp hrow).2.2]
  rw [valuesByFieldId_joined, hs.rowsOf_filter, List.filterMap_congr hrow]
  by_cases hlive : s.IsLive field
  · simp only [if_pos hlive]
  · simp only [if_neg hlive, List.filterMap_none]

/-- What is read under the name of a field is what the assembled node has under the field. -/
theorem values_joined (hs : s.Sound) {node field : Node} (hnode : node ∈ s.liveNodes)
    {name : String} (hfield : s.findLive? name = .ok (some field)) :
    s.values node.id name = .ok ((s.joined node).valuesByFieldId field.id) := by
  have htexts : (s.texts node.id field.id).filterMap PropertyValue.decode? =
      (s.joined node).valuesByFieldId field.id := by
    rw [hs.valuesByFieldId_eq, if_pos (hs.isLive_of_findLive? hfield), ← hs.fieldRowsOf_values,
      List.filterMap_map]
    rfl
  rw [hs.values_eq ⟨node, hs.node?_eq_some_iff.mpr ⟨hnode, rfl⟩⟩ hfield, htexts]

/-! ## Other rows -/

theorem withTexts (hs : s.Sound) (text : PropertyRecord → String) : (s.withTexts text).Sound := by
  have hnumbers : (s.withTexts text).rowNumbers = s.rowNumbers := by
    rw [rowNumbers, rowNumbers, Store.withTexts, List.filterMap_map]
    rfl
  refine { hs with rows := ?_, grounded := ?_, increasing := ?_, numbered := ?_ }
  · intro r hr
    obtain ⟨r, hstored, rfl⟩ := List.mem_map.mp hr
    obtain ⟨p, rfl⟩ := hs.rows r hstored
    exact ⟨{ p with value := text p.record }, rfl⟩
  · intro r hr
    obtain ⟨r, hstored, rfl⟩ := List.mem_map.mp hr
    exact hs.grounded r hstored
  · rw [hnumbers]
    exact hs.increasing
  · rw [hnumbers]
    exact hs.numbered

theorem pruned (hs : s.Sound) : s.pruned.Sound := by
  have hrows : s.pruned.properties.Sublist s.properties := List.filter_sublist
  have hnumbers : s.pruned.rowNumbers.Sublist s.rowNumbers := hrows.filterMap _
  exact { hs with
    rows := fun r hr => hs.rows r (hrows.subset hr)
    grounded := fun r hr => hs.grounded r (hrows.subset hr)
    increasing := hs.increasing.sublist hnumbers
    numbered := fun i hi => hs.numbered i (hnumbers.subset hi) }

theorem heldValue?_isSome (hs : s.Sound) (row : Property) :
    (s.heldValue? row).isSome = s.bearsValue row.record := by
  have hvalue := congrArg Option.isSome (hs.value_heldValue? row)
  rw [Option.isSome_map] at hvalue
  rw [hvalue]
  show _ = (decide (s.IsLive row.fieldId) && (PropertyValue.decode? row.value).isSome)
  by_cases hlive : s.IsLive row.fieldId
  · simp [hlive]
  · simp [hlive]

/-- A node is joined with nothing from the rows of deleted fields and those without a value. -/
theorem joined_pruned (hs : s.Sound) (node : Node) : s.pruned.joined node = s.joined node := by
  have hrows : s.pruned.rowsOf node.id =
      (s.rowsOf node.id).filter fun row => s.bearsValue row.record := by
    refine List.map_injective_iff.mpr Property.record_injective ?_
    rw [hs.pruned.rowsOf_records, hs.rowsOf_filter_records, Store.pruned, List.filter_filter]
  -- What is known of fields and supertags comes from the nodes, which are the same.
  have hheld : s.pruned.heldValue? = s.heldValue? := rfl
  rw [joined_eq, joined_eq, hrows, hheld, List.filterMap_filter]
  congr 1
  apply List.filterMap_congr
  intro row _
  rw [← hs.heldValue?_isSome]
  cases s.heldValue? row with
  | none => rfl
  | some held => rfl

end Sound

/-! ## Runs -/

/-- On every store that a run leaves, whatever texts stand in its rows, every live node is
assembled, with nothing from the rows of deleted fields and those that hold no value. It has under a
field that a name stands for the values that the rows of the field hold, each once and in the order
of the rows, as they are read on their own, the first of them as the value of the field. It has none
under a deleted field, and its table of values lists the fields that have some, each once. -/
theorem values_run (steps : List Step) (text : PropertyRecord → String) :
    let s := (Store.empty.run steps).withTexts text
    (∀ id, s.assemble? id = s.pruned.assemble? id) ∧
    ∀ n, s.IsLive n → ∃ node, s.assemble? n = .ok (some node) ∧ node.id = n ∧
      (∀ name field, s.findLive? name = .ok (some field) → ∃ rows : List Property,
        (∀ row, row ∈ rows ↔
          row.record ∈ s.properties ∧ row.nodeId = n ∧ row.fieldId = field.id) ∧
        (rows.Pairwise fun p q => p.order < q.order ∨ p.order = q.order ∧ p.id < q.id) ∧
        node.valuesByFieldId field.id =
          (rows.filterMap fun row => PropertyValue.decode? row.value) ∧
        s.values n name = .ok (node.valuesByFieldId field.id) ∧
        s.value? n name = .ok (node.valuesByFieldId field.id).head?) ∧
      (∀ field, ¬ s.IsLive field → node.valuesByFieldId field = []) ∧
      (node.fieldValues.map (·.1)).Nodup ∧
      ∀ field values, (field, values) ∈ node.fieldValues ↔
        values ≠ [] ∧ node.valuesByFieldId field = values := by
  intro s
  have hs : s.Sound := (empty_sound.run steps).withTexts text
  refine ⟨fun id => ?_, fun n hn => ?_⟩
  · have hnode : s.pruned.node? id = s.node? id := rfl
    rw [hs.assemble?_eq, hs.pruned.assemble?_eq, hnode, funext hs.joined_pruned]
  obtain ⟨node, hnode⟩ := hn
  obtain ⟨hmem, rfl⟩ := hs.node?_eq_some_iff.mp hnode
  refine ⟨s.joined node, hs.assemble?_of_live hmem, rfl, fun name field hfield => ?_,
    fun field hfield => ?_, ?_, fun field values => s.mem_fieldValues_joined node⟩
  · have hvalues := hs.valuesByFieldId_eq node field.id
    rw [if_pos (hs.isLive_of_findLive? hfield)] at hvalues
    have hread := hs.values_joined hmem hfield
    refine ⟨s.fieldRowsOf node.id field.id, fun row => hs.mem_fieldRowsOf,
      hs.pairwise_fieldRowsOf _ _, hvalues, hread, ?_⟩
    rw [value?, hread]
    rfl
  · rw [hs.valuesByFieldId_eq, if_neg hfield]
  · rw [joined_eq]
    exact valuesByField_nodup _

end Store

end TagGraph
