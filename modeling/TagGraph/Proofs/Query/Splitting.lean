import TagGraph.Proofs.Alike
import TagGraph.Proofs.Assembly.Shared
import TagGraph.Proofs.Assembly.Values

/-!
# Reference lists in one row or in several

References of a field stand in one row together or in a row each. Filters split lists before they
test values, collect references from all rows, and ask whether a field has some value at all, so
that none of them tells the two apart (`Store.evaluate_split`).
-/

namespace TagGraph

open Reading

/-! ## Held values -/

/-- Values that one value can be replaced by: they are of its field, are the same once lists are
split, and assign the same supertags. -/
structure HeldValue.SplitInto (whole : HeldValue) (parts : List HeldValue) : Prop where
  nonempty : parts ≠ []
  field : ∀ part ∈ parts, part.field = whole.field
  values : PropertyValue.flatten (parts.map (·.value)) = PropertyValue.flatten [whole.value]
  supertags : parts.flatMap (·.supertags) = whole.supertags

/-- One of the held values may have been replaced by parts. -/
inductive Split : List HeldValue → List HeldValue → Prop
  | same (held : List HeldValue) : Split held held
  | split {whole : HeldValue} {parts : List HeldValue} (h : whole.SplitInto parts)
      (before behind : List HeldValue) :
      Split (before ++ whole :: behind) (before ++ parts ++ behind)

theorem PropertyValue.flatten_append (xs ys : List PropertyValue) :
    flatten (xs ++ ys) = flatten xs ++ flatten ys :=
  List.flatMap_append

/-- Splitting lists leaves the references. -/
theorem PropertyValue.flatten_referenced (values : List PropertyValue) :
    (flatten values).flatMap referenced = values.flatMap referenced := by
  rw [flatten, List.flatMap_assoc]
  refine List.flatMap_congr fun v _ => ?_
  cases v with
  | nodes ids => simp [List.flatMap_map, referenced]
  | _ => simp [referenced]

namespace Split

variable {held held' : List HeldValue}

theorem supertags (h : Split held held') :
    held'.flatMap (·.supertags) = held.flatMap (·.supertags) := by
  cases h with
  | same => rfl
  | split h before behind =>
    rw [List.flatMap_append, List.flatMap_append, h.supertags, List.flatMap_append,
      List.flatMap_cons, List.append_assoc]

/-- The values of a field are the same, or have been split with the values of all fields. -/
theorem filter (h : Split held held') (field : NodeId) :
    Split (held.filter (·.field == field)) (held'.filter (·.field == field)) := by
  cases h with
  | same => exact .same _
  | @split whole parts h before behind =>
    rw [List.filter_append, List.filter_append, List.filter_append, List.filter_cons]
    by_cases hfield : (whole.field == field) = true
    · have hall : parts.filter (·.field == field) = parts :=
        List.filter_eq_self.mpr fun part hpart => by rwa [h.field part hpart]
      rw [if_pos hfield, hall]
      exact .split h _ _
    · have hnone : parts.filter (·.field == field) = [] :=
        List.filter_eq_nil_iff.mpr fun part hpart => by rwa [h.field part hpart]
      rw [if_neg hfield, hnone, List.append_nil]
      exact .same _

theorem values (h : Split held held') :
    PropertyValue.flatten (held'.map (·.value)) = PropertyValue.flatten (held.map (·.value)) := by
  cases h with
  | same => rfl
  | @split whole parts h before behind =>
    have hwhole : (whole :: behind).map (·.value) = [whole.value] ++ behind.map (·.value) := rfl
    rw [List.map_append, List.map_append, List.map_append, hwhole]
    simp only [PropertyValue.flatten_append, h.values, List.append_assoc]

theorem isEmpty (h : Split held held') : held'.isEmpty = held.isEmpty := by
  cases h with
  | same => rfl
  | split h before behind =>
    rw [Bool.eq_iff_iff, List.isEmpty_iff, List.isEmpty_iff]
    simp [h.nonempty]

end Split

/-! ## References -/

namespace Store

/-- The references of a node are those of the values of its fields, with lists split or not. -/
theorem mem_references_joined (s : Store) (node : Node) {wanted supertagField : Option NodeId}
    {id : NodeId} : id ∈ (s.joined node).references wanted supertagField ↔
      ∃ field, countsReferences wanted supertagField field = true ∧
        id ∈ (PropertyValue.flatten ((s.joined node).valuesByFieldId field)).flatMap
          (·.referenced) := by
  rw [AssembledNode.references, List.mem_flatMap]
  constructor
  · rintro ⟨⟨field, values⟩, hentry, hid⟩
    obtain ⟨hmem, hcounts⟩ := List.mem_filter.mp hentry
    obtain ⟨-, rfl⟩ := (s.mem_fieldValues_joined node).mp hmem
    exact ⟨field, hcounts, by rwa [PropertyValue.flatten_referenced]⟩
  · rintro ⟨field, hcounts, hid⟩
    rw [PropertyValue.flatten_referenced] at hid
    have hvalues : (s.joined node).valuesByFieldId field ≠ [] := by
      intro hnone
      rw [hnone] at hid
      cases hid
    exact ⟨(field, _), List.mem_filter.mpr
      ⟨(s.mem_fieldValues_joined node).mpr ⟨hvalues, rfl⟩, hcounts⟩, hid⟩

end Store

/-! ## Rows -/

namespace Store

/-- A row with a list of references, among the rows of its node. It does not say what a supertag
extends. -/
structure ListRow (s : Store) (before : List Property) (row : Property) (behind : List Property)
    (ids : List NodeId) : Prop where
  rows : s.rowsOf row.nodeId = before ++ row :: behind
  value : PropertyValue.decode? row.value = some (.nodes ids)
  nonempty : ids ≠ []
  field : ¬ s.Holds (.known row.fieldId) (some Handle.fieldExtends)

/-- A store in which the row has been replaced by a row for each of the references, at its place
among the rows of the node. The nodes, and what all other rows say, are the same. -/
structure Splits (s s' : Store) (before : List Property) (row : Property) (behind : List Property)
    (ids : List NodeId) : Prop where
  sound : s'.Sound
  nodes : s'.nodes = s.nodes
  others : ∀ node, node ≠ row.nodeId →
    (s'.rowsOf node).map Property.said = (s.rowsOf node).map Property.said
  rows : ∃ texts : List String,
    texts.map PropertyValue.decode? = (ids.map PropertyValue.node).map some ∧
    (s'.rowsOf row.nodeId).map Property.said =
      before.map Property.said ++ texts.map (fun text => (row.fieldId, text)) ++
        behind.map Property.said

/-- The value that is held of what a row says. -/
def heldSaid? (s : Store) (said : NodeId × String) : Option HeldValue :=
  (found? (s.fieldInfo? said.1)).bind fun info =>
    (PropertyValue.decode? said.2).map fun value =>
      ⟨said.1, info, value, if info.isSupertag then s.liveTags value.referenced else []⟩

theorem filterMap_heldValue? (s : Store) (rows : List Property) :
    rows.filterMap s.heldValue? = (rows.map Property.said).filterMap s.heldSaid? := by
  rw [List.filterMap_map]
  refine List.filterMap_congr fun row _ => ?_
  rw [heldValue?, Function.comp_apply, heldSaid?, Property.said]
  cases found? (s.fieldInfo? row.fieldId) with
  | none => rfl
  | some info => cases PropertyValue.decode? row.value <;> rfl

/-- A list of references is held in parts, one for each of them. -/
theorem split_filterMap_heldSaid? (s : Store) {ids : List NodeId} (hids : ids ≠ []) {text : String}
    {texts : List String} (hlist : PropertyValue.decode? text = some (.nodes ids))
    (hsingle : texts.map PropertyValue.decode? = (ids.map PropertyValue.node).map some)
    (field : NodeId) (before behind : List (NodeId × String)) :
    Split ((before ++ (field, text) :: behind).filterMap s.heldSaid?)
      ((before ++ texts.map (fun text => (field, text)) ++ behind).filterMap s.heldSaid?) := by
  have hread : texts.filterMap PropertyValue.decode? = ids.map .node := by
    have hsome := congrArg (List.filterMap id) hsingle
    rwa [List.filterMap_map, Function.id_comp, List.filterMap_map, Function.id_comp,
      List.filterMap_some] at hsome
  rw [List.filterMap_append, List.filterMap_append, List.filterMap_append, List.filterMap_cons,
    List.filterMap_map]
  cases hinfo : found? (s.fieldInfo? field) with
  | none =>
    -- Nothing is held of a field that is gone.
    have hnone (text : String) : s.heldSaid? (field, text) = none := by
      rw [heldSaid?, hinfo]
      rfl
    have hparts : texts.filterMap (s.heldSaid? ∘ fun text => (field, text)) = [] :=
      List.filterMap_eq_nil_iff.mpr fun text _ => hnone text
    rw [hnone, hparts, List.append_nil]
    exact .same _
  | some info =>
    let hold (value : PropertyValue) : HeldValue :=
      ⟨field, info, value, if info.isSupertag then s.liveTags value.referenced else []⟩
    have hheld (text : String) :
        s.heldSaid? (field, text) = (PropertyValue.decode? text).map hold := by
      rw [heldSaid?, hinfo]
      rfl
    have hparts : texts.filterMap (s.heldSaid? ∘ fun text => (field, text)) =
        (ids.map .node).map hold := by
      rw [← hread, List.map_filterMap]
      exact List.filterMap_congr fun text _ => hheld text
    rw [hheld, hlist, hparts]
    refine .split ⟨?_, ?_, ?_, ?_⟩ _ _
    · simpa using hids
    · intro part hpart
      obtain ⟨value, -, rfl⟩ := List.mem_map.mp hpart
      rfl
    · simp only [hold, PropertyValue.flatten, List.map_map, List.flatMap_map,
        List.flatMap_singleton]
      exact List.map_eq_flatMap.symm
    · by_cases htag : info.isSupertag = true
      · simp [hold, htag, liveTags, PropertyValue.referenced, List.flatMap_map]
      · simp [hold, htag]

namespace Splits

variable {s s' : Store} {before behind : List Property} {row : Property} {ids : List NodeId}
variable (h : s.Splits s' before row behind ids) (hs : s.Sound)
  (hlist : s.ListRow before row behind ids)

include h in
theorem liveNodes_eq : s'.liveNodes = s.liveNodes := by
  rw [liveNodes, liveNodes, liveRecords, liveRecords, recordsByCreation, recordsByCreation, h.nodes]

include h hs hlist

/-- A node holds the same values, or has one of them split. -/
theorem held (node : NodeId) :
    Split ((s.rowsOf node).filterMap s.heldValue?) ((s'.rowsOf node).filterMap s'.heldValue?) := by
  have hheld : s'.heldValue? = s.heldValue? :=
    funext (hs.heldValue?_congr h.sound h.liveNodes_eq)
  rw [hheld, filterMap_heldValue?, filterMap_heldValue?]
  by_cases hnode : node = row.nodeId
  · obtain ⟨texts, hsingle, hsaid⟩ := h.rows
    rw [hnode, hsaid, hlist.rows, List.map_append, List.map_cons]
    exact s.split_filterMap_heldSaid? hlist.nonempty hlist.value hsingle row.fieldId _ _
  · rw [h.others node hnode]
    exact .same _

/-- What supertags extend is the same. -/
theorem texts_eq {field : NodeId} (hfield : s.Holds (.known field) (some Handle.fieldExtends))
    (node : NodeId) : s'.texts node field = s.texts node field := by
  rw [h.sound.texts_eq_said, hs.texts_eq_said]
  by_cases hnode : node = row.nodeId
  · obtain ⟨texts, -, hsaid⟩ := h.rows
    have hother : row.fieldId ≠ field := by
      rintro rfl
      exact hlist.field hfield
    rw [hnode, hsaid, hlist.rows]
    simp [Property.said, hother]
  · rw [h.others node hnode]

/-! ## Nodes -/

theorem flatten_values (node : Node) (field : NodeId) :
    PropertyValue.flatten ((s'.joined node).valuesByFieldId field) =
      PropertyValue.flatten ((s.joined node).valuesByFieldId field) := by
  rw [Store.joined_eq, Store.joined_eq, valuesByFieldId_ofHeld, valuesByFieldId_ofHeld]
  exact ((h.held hs hlist node.id).filter field).values

theorem isEmpty_values (node : Node) (field : NodeId) :
    ((s'.joined node).valuesByFieldId field).isEmpty =
      ((s.joined node).valuesByFieldId field).isEmpty := by
  rw [Store.joined_eq, Store.joined_eq, valuesByFieldId_ofHeld, valuesByFieldId_ofHeld,
    List.isEmpty_map, List.isEmpty_map]
  exact ((h.held hs hlist node.id).filter field).isEmpty

theorem supertags_eq (node : Node) : (s'.joined node).supertags = (s.joined node).supertags := by
  rw [Store.joined_eq, Store.joined_eq]
  exact congrArg distinctTags (h.held hs hlist node.id).supertags

theorem mem_referencesOf_iff (node : Node) (field : Option NodeId) (id : NodeId) :
    id ∈ s'.referencesOf (s'.joined node) field ↔ id ∈ s.referencesOf (s.joined node) field := by
  rw [hs.referencesOf_congr h.sound h.liveNodes_eq, referencesOf, referencesOf,
    mem_references_joined, mem_references_joined]
  simp only [h.flatten_values hs hlist]

theorem contains_referencesOf (node : Node) (field : Option NodeId) (id : NodeId) :
    (s'.referencesOf (s'.joined node) field).contains id =
      (s.referencesOf (s.joined node) field).contains id := by
  rw [Bool.eq_iff_iff, List.contains_iff_mem, List.contains_iff_mem,
    h.mem_referencesOf_iff hs hlist]

theorem isEmpty_referencesOf (node : Node) (field : Option NodeId) :
    (s'.referencesOf (s'.joined node) field).isEmpty =
      (s.referencesOf (s.joined node) field).isEmpty := by
  rw [Bool.eq_iff_iff, List.isEmpty_iff, List.isEmpty_iff, List.eq_nil_iff_forall_not_mem,
    List.eq_nil_iff_forall_not_mem]
  simp only [h.mem_referencesOf_iff hs hlist]

/-! ## Filters -/

/-- A node stands in the same relations, to targets and to other nodes. -/
theorem relates_eq (node : Node) : s'.relates (s'.joined node) = s.relates (s.joined node) := by
  funext kind target field
  have hnode? (id : NodeId) : s'.node? id = s.node? id :=
    hs.node?_congr h.sound h.liveNodes_eq id
  have hlinked (source : Node) : (s'.referencesOf (s'.joined source) field).contains node.id =
      (s.referencesOf (s.joined source) field).contains node.id :=
    h.contains_referencesOf hs hlist source field node.id
  cases kind with
  | childOf => cases target <;> simp only [relates, joined_ownerId]
  | ownedBy => cases target <;> simp only [relates, joined_ownerId]
  | linksTo =>
    cases target with
    | none => simp only [relates, h.isEmpty_referencesOf hs hlist]
    | some target => simp only [relates, h.contains_referencesOf hs hlist]
  | linkedFrom =>
    cases target with
    | none =>
      simp only [relates, joinedNodes, h.liveNodes_eq, List.any_map, joined_id,
        Function.comp_def, hlinked]
    | some target =>
      simp only [relates, h.sound.assemble?_eq, hs.assemble?_eq, found?_ok, hnode?,
        Option.any_map, joined_id, hlinked]

theorem readsAlike (node : Node) : Filter.ReadsAlike s s' (s.joined node) (s'.joined node) where
  accepted := funext fun supertag => funext (hs.acceptedBy?_congr h.sound h.liveNodes_eq
    (fun _ hfield n _ => h.texts_eq hs hlist hfield n.id) supertag)
  found := funext (hs.findLiveId?_congr h.sound h.liveNodes_eq)
  related := h.relates_eq hs hlist node
  content := rfl
  times := ⟨rfl, rfl⟩
  supertags := h.supertags_eq hs hlist node
  values := h.flatten_values hs hlist node
  isEmpty := h.isEmpty_values hs hlist node

/-- The same nodes match. -/
theorem matching_ids (now : Int) (filters : List Filter) :
    (s'.matching now filters).map (·.id) = (s.matching now filters).map (·.id) := by
  have hall (node : Node) : filters.all (Filter.holds s' now (s'.joined node)) =
      filters.all (Filter.holds s now (s.joined node)) :=
    congrArg filters.all (funext (Filter.holds_congr (h.readsAlike hs hlist node) now))
  simp only [matching, joinedNodes, h.liveNodes_eq, List.filter_map, List.map_map,
    Function.comp_def, joined_id, hall]

theorem evaluate_eq (now : Int) {d : QueryDefinition} (hvalid : d.isValid = true)
    (hsort : d.sort = none) : ∃ page page', s.evaluate now d = .ok page ∧
      s'.evaluate now d = .ok page' ∧ page'.nodeIds = page.nodeIds ∧
      page'.totalCount = page.totalCount := by
  obtain ⟨filters, sort, limit⟩ := d
  obtain rfl : sort = none := hsort
  obtain ⟨arrangement, harranged, hpage⟩ := hs.evaluate_eq now filters none
  obtain ⟨arrangement', harranged', hpage'⟩ := h.sound.evaluate_eq now filters none
  obtain rfl : arrangement = s.matching now filters := harranged
  obtain rfl : arrangement' = s'.matching now filters := harranged'
  have hids := h.matching_ids hs hlist now filters
  refine ⟨_, _, hpage limit hvalid, hpage' limit hvalid, ?_, ?_⟩
  · rw [QueryPage.nodeIds, QueryPage.nodeIds, List.map_take, List.map_take, hids]
  · simpa using congrArg List.length hids

end Splits

end Store

/-! ## Replacing rows -/

namespace Property

/-- Rows with texts in the place of a row, numbered on from `number`. -/
def inParts (p : Property) : (number : Int) → List String → List Property
  | _, [] => []
  | number, text :: rest => { p with id := number, value := text } :: inParts p (number + 1) rest

variable {p q : Property} {number : Int} {texts : List String}

theorem of_mem_inParts (h : q ∈ p.inParts number texts) :
    q.nodeId = p.nodeId ∧ q.fieldId = p.fieldId ∧ q.order = p.order ∧
      number ≤ q.id ∧ q.id < number + texts.length := by
  induction texts generalizing number with
  | nil => cases h
  | cons text rest ih =>
    rw [List.length_cons]
    rcases List.mem_cons.mp h with rfl | h
    · exact ⟨rfl, rfl, rfl, Int.le_refl _, by push_cast; omega⟩
    · obtain ⟨hnode, hfield, horder, hlow, hhigh⟩ := ih h
      exact ⟨hnode, hfield, horder, by omega, by push_cast; omega⟩

theorem inParts_pairwise (p : Property) (number : Int) (texts : List String) :
    (p.inParts number texts).Pairwise fun a b => a.id < b.id := by
  induction texts generalizing number with
  | nil => exact List.Pairwise.nil
  | cons text rest ih =>
    refine List.pairwise_cons.mpr ⟨fun q hq => ?_, ih (number + 1)⟩
    have hlow := (of_mem_inParts hq).2.2.2.1
    show number < q.id
    omega

theorem inParts_said (p : Property) (number : Int) (texts : List String) :
    (p.inParts number texts).map said = texts.map fun text => (p.fieldId, text) := by
  induction texts generalizing number with
  | nil => rfl
  | cons text rest ih => rw [inParts, List.map_cons, List.map_cons, ih (number + 1)]; rfl

end Property

namespace Store

/-- The store with rows for the given texts in the place of each row. Row numbers are multiplied, so
that each row has numbers for `width` rows in its place. -/
def inParts (s : Store) (rows : List Property) (width : Nat) (texts : Property → List String) :
    Store :=
  { s with
    properties := (rows.flatMap fun p => p.inParts (p.id * width) (texts p)).map Property.record
    lastRowId := s.lastRowId * width + width }

theorem rowNumbers_eq {s : Store} {rows : List Property}
    (h : s.properties = rows.map Property.record) : s.rowNumbers = rows.map (·.id) := by
  rw [rowNumbers, h, List.filterMap_map, ← List.filterMap_eq_map]
  rfl

theorem Sound.rowsOf_eq {s : Store} (hs : s.Sound) {rows : List Property}
    (h : s.properties = rows.map Property.record) (node : NodeId) :
    s.rowsOf node = (rows.filter (·.nodeId == node)).mergeSort Property.precedes := by
  have hnode : (fun r : PropertyRecord => r.nodeId == .known node) ∘ Property.record =
      fun p => p.nodeId == node :=
    funext fun p => Bool.eq_iff_iff.mpr (by simp [Property.record])
  refine List.map_injective_iff.mpr Property.record_injective ?_
  rw [hs.rowsOf_records, h, List.filter_map, hnode, inOrder_records]

section Parts

variable {s : Store} {rows : List Property} {width : Nat} {texts : Property → List String}
variable (hs : s.Sound) (hrows : s.properties = rows.map Property.record)
  (hwidth : ∀ p, (texts p).length ≤ width)

include hwidth in
/-- The numbers in the place of a row are behind those in the place of an earlier one. -/
theorem number_lt_of_mem_inParts {p q a b : Property} (hlt : p.id < q.id)
    (ha : a ∈ p.inParts (p.id * width) (texts p)) (hb : b ∈ q.inParts (q.id * width) (texts q)) :
    a.id < b.id := by
  obtain ⟨-, -, -, -, hhigh⟩ := Property.of_mem_inParts ha
  obtain ⟨-, -, -, hlow, -⟩ := Property.of_mem_inParts hb
  have hroom : (p.id + 1) * width ≤ q.id * width :=
    Int.mul_le_mul_of_nonneg_right hlt (Int.natCast_nonneg width)
  have hlength := hwidth p
  rw [Int.add_mul, Int.one_mul] at hroom
  omega

omit hs hrows hwidth in
theorem filter_flatMap_inParts (node : NodeId) :
    (rows.flatMap fun p => p.inParts (p.id * width) (texts p)).filter (·.nodeId == node) =
      (rows.filter (·.nodeId == node)).flatMap fun p => p.inParts (p.id * width) (texts p) := by
  induction rows with
  | nil => rfl
  | cons p rest ih =>
    have hnode : ∀ q ∈ p.inParts (p.id * width) (texts p), q.nodeId = p.nodeId :=
      fun q hq => (Property.of_mem_inParts hq).1
    rw [List.flatMap_cons, List.filter_append, ih, List.filter_cons]
    by_cases hp : (p.nodeId == node) = true
    · rw [if_pos hp, List.filter_eq_self.mpr fun q hq => by rwa [hnode q hq]]
      rfl
    · rw [if_neg hp, List.filter_eq_nil_iff.mpr fun q hq => by rwa [hnode q hq], List.nil_append]

include hs hrows

theorem rows_increasing : rows.Pairwise fun p q => p.id < q.id := by
  have hincreasing := hs.increasing
  rw [rowNumbers_eq hrows] at hincreasing
  exact List.pairwise_map.mp hincreasing

theorem rowsOf_apart (node : NodeId) : (s.rowsOf node).Pairwise fun p q => p.id ≠ q.id := by
  have hnodup := ((rows_increasing hs hrows).imp Int.ne_of_lt).filter (·.nodeId == node)
  rw [hs.rowsOf_eq hrows]
  exact List.pairwise_map.mp (((List.mergeSort_perm _ _).map _).nodup_iff.mpr
    (List.pairwise_map.mpr hnodup))

include hwidth

theorem inParts_increasing :
    (rows.flatMap fun p => p.inParts (p.id * width) (texts p)).Pairwise fun p q => p.id < q.id :=
  List.pairwise_flatMap.mpr ⟨fun p _ => p.inParts_pairwise _ _,
    (rows_increasing hs hrows).imp fun hlt _ ha _ hb => number_lt_of_mem_inParts hwidth hlt ha hb⟩

theorem inParts_sound : (s.inParts rows width texts).Sound := by
  have hstored : ∀ p ∈ rows, p.record ∈ s.properties := fun p hp => by
    rw [hrows]
    exact List.mem_map_of_mem hp
  refine { hs with rows := ?_, grounded := ?_, increasing := ?_, numbered := ?_ }
  · intro r hr
    obtain ⟨p, -, rfl⟩ := List.mem_map.mp hr
    exact ⟨p, rfl⟩
  · intro r hr
    obtain ⟨q, hq, rfl⟩ := List.mem_map.mp hr
    obtain ⟨p, hp, hq⟩ := List.mem_flatMap.mp hq
    obtain ⟨hnode, hfield, -⟩ := Property.of_mem_inParts hq
    have hgrounded := hs.grounded p.record (hstored p hp)
    rwa [Property.record, ← hnode, ← hfield] at hgrounded
  · rw [rowNumbers_eq rfl]
    exact List.pairwise_map.mpr (inParts_increasing hs hrows hwidth)
  · intro i hi
    rw [rowNumbers_eq rfl] at hi
    obtain ⟨q, hq, rfl⟩ := List.mem_map.mp hi
    obtain ⟨p, hp, hq⟩ := List.mem_flatMap.mp hq
    obtain ⟨-, -, -, -, hhigh⟩ := Property.of_mem_inParts hq
    have hlast : p.id ≤ s.lastRowId := by
      refine hs.numbered p.id ?_
      rw [rowNumbers_eq hrows]
      exact List.mem_map_of_mem hp
    have hroom : p.id * width ≤ s.lastRowId * width :=
      Int.mul_le_mul_of_nonneg_right hlast (Int.natCast_nonneg width)
    have hlength := hwidth p
    show q.id ≤ s.lastRowId * width + width
    omega

/-- The rows of a node are replaced one by one, in their order. -/
theorem rowsOf_inParts (node : NodeId) : (s.inParts rows width texts).rowsOf node =
    (s.rowsOf node).flatMap fun p => p.inParts (p.id * width) (texts p) := by
  have hsound := inParts_sound hs hrows hwidth
  have hall := inParts_increasing hs hrows hwidth
  have hapart := rowsOf_apart hs hrows node
  rw [hs.rowsOf_eq hrows] at hapart
  rw [hsound.rowsOf_eq rfl, hs.rowsOf_eq hrows]
  refine mergeSort_precedes_eq (fun p hp q hq _ hid => ?_) ?_ ?_
  · have hnodup := List.pairwise_map.mpr (hall.imp Int.ne_of_lt)
    exact List.inj_on_of_nodup_map hnodup (List.mem_of_mem_filter hp)
      (List.mem_of_mem_filter hq) hid
  · refine ((List.mergeSort_perm _ _).flatMap_right _).trans (List.Perm.of_eq ?_)
    exact (filter_flatMap_inParts node).symm
  · refine List.pairwise_flatMap.mpr ⟨fun p _ => ?_, ?_⟩
    · refine (p.inParts_pairwise _ _).imp_of_mem fun {a b} ha hb hlt => ?_
      obtain ⟨-, -, horder, -⟩ := Property.of_mem_inParts ha
      obtain ⟨-, -, horder', -⟩ := Property.of_mem_inParts hb
      rw [Property.precedes_iff]
      omega
    · refine ((pairwise_mergeSort_precedes _).and hapart).imp ?_
      rintro p q ⟨hprecedes, hid⟩ a ha b hb
      obtain ⟨-, -, horder, -⟩ := Property.of_mem_inParts ha
      obtain ⟨-, -, horder', -⟩ := Property.of_mem_inParts hb
      rw [Property.precedes_iff] at hprecedes ⊢
      rcases hprecedes with hlt | ⟨heq, hle⟩
      · exact Or.inl (by omega)
      · have hnumbers := number_lt_of_mem_inParts hwidth (by omega : p.id < q.id) ha hb
        exact Or.inr ⟨by omega, Int.le_of_lt hnumbers⟩

end Parts

/-- References can be written down one by one. -/
theorem exists_texts (ids : List NodeId) : ∃ texts : List String,
    texts.map PropertyValue.decode? = (ids.map PropertyValue.node).map some := by
  induction ids with
  | nil => exact ⟨[], rfl⟩
  | cons id rest ih =>
    obtain ⟨texts, htexts⟩ := ih
    obtain ⟨text, htext⟩ := Option.isSome_iff_exists.mp
      ((PropertyValue.encode?_isSome_iff (.node id)).mpr fun _ h => nomatch h)
    have hread : PropertyValue.decode? text = some (.node id) :=
      PropertyValue.decode?_of_encode? htext
    exact ⟨text :: texts, by rw [List.map_cons, hread, htexts]; rfl⟩

/-- Every row with a list of references can be replaced. -/
theorem ListRow.exists_splits {s : Store} {before behind : List Property} {row : Property}
    {ids : List NodeId} (h : s.ListRow before row behind ids) (hs : s.Sound) :
    ∃ s', s.Splits s' before row behind ids := by
  obtain ⟨singles, hsingles⟩ := exists_texts ids
  obtain ⟨rows, hrows⟩ := hs.exists_rows (fun r hr => hr)
  let texts (p : Property) : List String := if p = row then singles else [p.value]
  have hlength : 1 ≤ singles.length := by
    have hlengths := congrArg List.length hsingles
    simp only [List.length_map] at hlengths
    rw [hlengths]
    exact List.length_pos_iff.mpr h.nonempty
  have hwidth (p : Property) : (texts p).length ≤ singles.length := by
    by_cases hp : p = row
    · simp [texts, hp]
    · simpa [texts, hp] using hlength
  -- All but the one row say what they said.
  have hsaid (l : List Property) (hl : row ∉ l) :
      (l.flatMap fun p => p.inParts (p.id * singles.length) (texts p)).map Property.said =
        l.map Property.said := by
    rw [List.map_flatMap, List.map_eq_flatMap]
    refine List.flatMap_congr fun p hp => ?_
    have hother : texts p = [p.value] := if_neg fun heq : p = row => hl (heq ▸ hp)
    rw [Property.inParts_said, hother]
    rfl
  have hnodup : (s.rowsOf row.nodeId).Nodup :=
    (rowsOf_apart hs hrows row.nodeId).imp fun hid heq => hid (congrArg Property.id heq)
  rw [h.rows, List.nodup_append, List.nodup_cons] at hnodup
  obtain ⟨-, ⟨hbehind, -⟩, hbefore⟩ := hnodup
  refine ⟨s.inParts rows singles.length texts, inParts_sound hs hrows hwidth, rfl, ?_,
    singles, hsingles, ?_⟩
  · intro node hnode
    rw [rowsOf_inParts hs hrows hwidth]
    exact hsaid _ fun hrow => hnode (hs.mem_rowsOf.mp hrow).2.symm
  · have hrow : texts row = singles := if_pos rfl
    rw [rowsOf_inParts hs hrows hwidth, h.rows, List.flatMap_append, List.flatMap_cons,
      List.map_append, List.map_append, hsaid before fun hmem => ?_, hsaid behind hbehind,
      Property.inParts_said, hrow, List.append_assoc]
    exact hbefore row hmem row (List.mem_cons_self ..) rfl

/-- On every store that a run leaves, a row may hold a list of references, other than of what
supertags extend. Then there is a store in which it has been replaced, at its place, by a row for
each of the references; and whatever store this is, every valid query without a sort finds the same
nodes there, of which it gives the same ones and the same number. -/
theorem evaluate_split (steps : List Step) {before behind : List Property} {row : Property}
    {ids : List NodeId} (h : (Store.empty.run steps).ListRow before row behind ids) :
    let s := Store.empty.run steps
    (∃ s', s.Splits s' before row behind ids) ∧
    ∀ s', s.Splits s' before row behind ids → ∀ now (d : QueryDefinition), d.isValid = true →
      d.sort = none → ∃ page page', s.evaluate now d = .ok page ∧ s'.evaluate now d = .ok page' ∧
        page'.nodeIds = page.nodeIds ∧ page'.totalCount = page.totalCount := by
  intro s
  have hs : s.Sound := empty_sound.run steps
  exact ⟨h.exists_splits hs, fun s' hsplits now d hvalid hsort =>
    hsplits.evaluate_eq hs h now hvalid hsort⟩

/-- The parts of a thing, written in one row and written in a row each. -/
theorem evaluate_split_parts :
    let id (i : Nat) (h : i < 2 ^ 128) : NodeId := ⟨i, h⟩
    let create (id : NodeId) (systemId : String) : Step :=
      ⟨5, .graph (.createNode ⟨id, systemId, some systemId, none, []⟩)⟩
    let parts := id 1 (by decide)
    let bread := id 2 (by decide)
    let flour := id 3 (by decide)
    let salt := id 4 (by decide)
    let start := [create parts "shop:parts", create bread "shop:bread", create flour "shop:flour",
      create salt "shop:salt"]
    let write (values : List PropertyValue) : Step :=
      ⟨6, .graph (.setPropertyValues bread "shop:parts" values)⟩
    let s := Store.empty.run (start ++ [write [.nodes [flour, salt]]])
    let s' := Store.empty.run (start ++ [write [.node flour, .node salt]])
    let d : QueryDefinition :=
      ⟨[.not [.relation .linksTo (some "shop:salt") (some "shop:parts")]], none, 9⟩
    ∃ row, s.ListRow [] row [] [flour, salt] ∧ s.Splits s' [] row [] [flour, salt] ∧
      ∃ page page', s.evaluate 7 d = .ok page ∧ s'.evaluate 7 d = .ok page' ∧
        page'.nodeIds = page.nodeIds := by
  intro id create parts bread flour salt start write s s' d
  have hs : s.Sound := empty_sound.run _
  have hs' : s'.Sound := empty_sound.run _
  have hordered : s.Ordered := ⟨by decide +kernel, by decide +kernel⟩
  have hordered' : s'.Ordered := ⟨by decide +kernel, by decide +kernel⟩
  let text (v : PropertyValue) : String := v.encode?.getD ""
  have hread {v : PropertyValue} (hsome : v.encode?.isSome = true) (hdepth : v.payloadDepth ≤ 126) :
      PropertyValue.decode? (text v) = some v.reread := by
    obtain ⟨raw, hraw⟩ := Option.isSome_iff_exists.mp hsome
    have htext : text v = raw := by
      show v.encode?.getD "" = raw
      rw [hraw]
      rfl
    rw [htext, PropertyValue.decode?_of_encode? hraw, if_pos hdepth]
  have hsaid : (s.rowsOf bread).map Property.said = [(parts, text (.nodes [flour, salt]))] := by
    refine List.map_injective_iff.mpr storedSaid_injective ?_
    rw [hordered.storedSaid_rowsOf hs]
    decide +kernel
  have hsaid' : (s'.rowsOf bread).map Property.said =
      [(parts, text (.node flour)), (parts, text (.node salt))] := by
    refine List.map_injective_iff.mpr storedSaid_injective ?_
    rw [hordered'.storedSaid_rowsOf hs']
    decide +kernel
  have hnone {t : Store} (ht : t.Sound) (hall : ∀ r ∈ t.properties, r.nodeId = .known bread)
      {node : NodeId} (hnode : node ≠ bread) : t.rowsOf node = [] := by
    refine List.eq_nil_iff_forall_not_mem.mpr fun p hp => ?_
    obtain ⟨hstored, rfl⟩ := ht.mem_rowsOf.mp hp
    exact hnode (StoredId.known.inj (hall _ hstored))
  obtain ⟨row, hrows, hrow⟩ := List.map_eq_singleton_iff.mp hsaid
  obtain ⟨hfield, hvalue⟩ := Prod.mk.inj hrow
  have hnode : row.nodeId = bread := (hs.mem_rowsOf.mp (by rw [hrows]; exact .head _)).2
  have hlist : s.ListRow [] row [] [flour, salt] :=
    { rows := by rw [hnode, hrows]; rfl
      value := by rw [hvalue]; exact hread rfl (by decide +kernel)
      nonempty := by decide
      field := by
        rw [hfield]
        unfold Holds
        decide +kernel }
  have hsplits : s.Splits s' [] row [] [flour, salt] :=
    { sound := hs'
      nodes := by decide +kernel
      others := fun node hother => by
        rw [hnode] at hother
        rw [hnone hs (by decide +kernel) hother, hnone hs' (by decide +kernel) hother]
      rows := ⟨[text (.node flour), text (.node salt)], by
          rw [List.map_cons, List.map_cons, hread (v := .node flour) rfl (by decide +kernel),
            hread (v := .node salt) rfl (by decide +kernel)]
          rfl, by
        rw [hnode, hsaid', hfield]
        rfl⟩ }
  obtain ⟨-, hsame⟩ := evaluate_split _ hlist
  obtain ⟨page, page', hpage, hpage', hids, -⟩ := hsame s' hsplits 7 d (by decide) rfl
  exact ⟨row, hlist, hsplits, page, page', hpage, hpage', hids⟩

end Store

end TagGraph
