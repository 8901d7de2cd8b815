import TagGraph.Proofs.Field.Places
import TagGraph.Proofs.Visible

/-!
# Room for further rows

An edit whose checks have passed still fails if all numbers of rows have been given out, or if a row
stands at the last place there is. As long as there is room (`Store.Roomy`) it succeeds, and leaves
room for one row less (`Store.Spends`).
-/

namespace TagGraph

namespace Store

/-- Numbers and places are left for some further rows. -/
structure Roomy (s : Store) (count : Nat) : Prop where
  numbers : s.lastRowId + count < 2 ^ 63
  places : ∀ r ∈ s.properties, ∀ place, r.order = .integer place →
    -2 ^ 63 ≤ place ∧ place + count < 2 ^ 63

/-- At most one number has been given out, and a new row stands at the first place or right behind
a row that was there. -/
structure Spends (s s' : Store) : Prop where
  numbers : s.lastRowId ≤ s'.lastRowId ∧ s'.lastRowId ≤ s.lastRowId + 1
  places : ∀ r ∈ s'.properties, r ∈ s.properties ∨ r.order = .integer 0 ∨
    ∃ old ∈ s.properties, ∃ place, old.order = .integer place ∧ r.order = .integer (place + 1)

variable {s s' : Store} {count : Nat}

theorem Spends.refl (s : Store) : Spends s s :=
  ⟨⟨Int.le_refl _, by omega⟩, fun _ hr => Or.inl hr⟩

theorem Spends.updateNode (h : Spends s s') {id : NodeId} {change : NodeRecord → NodeRecord} :
    Spends s (s'.updateNode id change) :=
  ⟨h.numbers, h.places⟩

/-- A row at the first place, or right behind one that is there, spends the next number. -/
theorem Spends.of_addRow {kept : Store} {now place : Int} {node field : NodeId} {raw : String}
    (hkept : kept.properties ⊆ s.properties) (hplace : place = 0 ∨
      ∃ old ∈ s.properties, ∃ last, old.order = .integer last ∧ place = last + 1) :
    Spends s (kept.addRow (s.lastRowId + 1)
      (newRow now (s.lastRowId + 1) node field raw place)) := by
  refine ⟨⟨by show _ ≤ s.lastRowId + 1; omega, Int.le_refl _⟩, fun r hr => ?_⟩
  rcases List.mem_append.mp hr with hr | hr
  · exact Or.inl (hkept hr)
  · obtain rfl := List.mem_singleton.mp hr
    refine Or.inr ?_
    rcases hplace with rfl | ⟨old, hold, last, hlast, rfl⟩
    · exact Or.inl rfl
    · exact Or.inr ⟨old, hold, last, hlast, rfl⟩

/-- Where one number and one place have been spent there is room for one row less. -/
theorem Roomy.spend (h : s.Roomy (count + 1)) (hcounted : 0 ≤ s.lastRowId) (hspends : Spends s s') :
    s'.Roomy count := by
  obtain ⟨hnumbers, hplaces⟩ := h
  obtain ⟨⟨-, hlast⟩, hnew⟩ := hspends
  refine ⟨by omega, fun r hr place hplace => ?_⟩
  rcases hnew r hr with hold | hfirst | ⟨old, hold, last, hlast, hbehind⟩
  · have hroom := hplaces r hold place hplace
    omega
  · obtain rfl := Cell.integer.inj (hplace.symm.trans hfirst)
    omega
  · obtain rfl := Cell.integer.inj (hplace.symm.trans hbehind)
    have hroom := hplaces old hold last hlast
    omega

namespace Sound

/-- The next number is given out if a row may have it. -/
theorem nextRowId_of_lt (hs : s.Sound) (hcounted : 0 ≤ s.lastRowId)
    (hnumber : s.lastRowId + 1 < 2 ^ 63) : s.nextRowId = .ok (s.lastRowId + 1) := by
  have hfits : fitsLong (s.lastRowId + 1) = true := by
    simp only [fitsLong, Bool.and_eq_true, decide_eq_true_eq]
    omega
  rw [hs.nextRowId_eq_ite, if_pos hfits]

/-- While there is room there is a number for a further row. -/
theorem nextRowId_of_roomy (hs : s.Sound) (hcounted : 0 ≤ s.lastRowId)
    (hroom : s.Roomy (count + 1)) : s.nextRowId = .ok (s.lastRowId + 1) := by
  have hnumbers := hroom.numbers
  exact hs.nextRowId_of_lt hcounted (by omega)

/-- While there is room there is a place in a field, the first one or right behind a row. -/
theorem nextOrder_of_roomy (hs : s.Sound) (hroom : s.Roomy (count + 1)) (node field : NodeId) :
    ∃ place, s.nextOrder node field = .ok place ∧ (place = 0 ∨
      ∃ old ∈ s.properties, ∃ last, old.order = .integer last ∧ place = last + 1) := by
  rw [hs.nextOrder_eq]
  cases hmax : ((s.fieldRowsOf node field).map (·.order)).max? with
  | none => exact ⟨0, rfl, Or.inl rfl⟩
  | some last =>
    obtain ⟨p, hp, rfl⟩ := List.mem_map.mp (List.max?_mem hmax)
    have hstored : p.record ∈ s.properties := by
      have hmem := List.mem_map_of_mem (f := Property.record) hp
      rw [hs.fieldRowsOf_records, fieldRecords, mem_inOrder] at hmem
      exact (List.mem_filter.mp hmem).1
    have hplaces := hroom.places p.record hstored p.order rfl
    have hfits : fitsLong (p.order + 1) = true := by
      simp only [fitsLong, Bool.and_eq_true, decide_eq_true_eq]
      omega
    exact ⟨p.order + 1, if_pos hfits, Or.inr ⟨p.record, hstored, p.order, rfl, rfl⟩⟩

theorem hasNode_of_isLive (hs : s.Sound) {id : NodeId} (h : s.IsLive id) :
    Edit.hasNode s id = true := by
  obtain ⟨_, r, hr, -, hid, -⟩ := hs.isLive_iff.mp h
  exact (hasNode_iff s id).mpr ⟨r, hr, hid⟩

end Sound

end Store

namespace Edit

open Store

variable {s : Store} {count : Nat}

/-! ## Edits of the tables -/

/-- A change of a live node is noted. -/
theorem touchNode_of {id : NodeId} (h : s.IsLive id) (now : Int) :
    touchNode now id s = .ok () (s.updateNode id fun r =>
      { r with updatedAt := r.updatedAt.max (.integer now) }) := by
  obtain ⟨n, hn⟩ := h
  obtain ⟨r, hr, -⟩ := exists_of_readRecord? hn
  unfold touchNode
  have hfound : updateLive id (fun r => { r with updatedAt := r.updatedAt.max (.integer now) }) s =
      .ok true (s.updateNode id fun r =>
        { r with updatedAt := r.updatedAt.max (.integer now) }) := by
    rw [updateLive, get_bind, hr]
    rfl
  rw [bind_of_ok hfound]
  rfl

/-- A row is added for nodes that have been inserted if there is a number for it. -/
theorem insertProperty_some_of (hs : s.foreign = none) {node field : NodeId}
    (hnode : hasNode s node = true) (hfield : hasNode s field = true) {number : Int}
    (hnext : s.nextRowId = .ok number) (now : Int) (raw : String) (place : Int) :
    insertProperty now node field raw (some place) s =
      .ok ⟨number, node, field, raw, place, now, now⟩
        (s.addRow number (newRow now number node field raw place)) := by
  have hadd : addProperty number node field (newRow now number node field raw place) s =
      .ok () (s.addRow number (newRow now number node field raw place)) := by
    rw [addProperty, get_bind, hs]
    simp only [hnode, hfield, Bool.and_self, if_true]
    rw [addRow, hs]
    rfl
  rw [insertProperty_some, bind_of_ok (ask_of_ok (·.nextRowId) hnext), bind_of_ok hadd]
  rfl

/-- The rows of a field of a node are replaced by one row. -/
theorem replaceFieldProperties_of (hs : s.Sound) (hcounted : 0 ≤ s.lastRowId)
    (hroom : s.Roomy (count + 1)) {node field : NodeId} (hnode : s.IsLive node)
    (hfield : s.IsLive field) (now : Int) (raw : String) :
    replaceFieldProperties now node field [raw] 0 s = .ok ()
      ((s.removeRows node field).addRow (s.lastRowId + 1)
        (newRow now (s.lastRowId + 1) node field raw 0)) := by
  have hdelete : ∃ removed, deleteFieldProperties node field s =
      .ok removed (s.removeRows node field) := ⟨_, rfl⟩
  obtain ⟨removed, hdelete⟩ := hdelete
  have hnext : (s.removeRows node field).nextRowId = .ok (s.lastRowId + 1) :=
    (hs.removeRows node field).nextRowId_of_roomy hcounted
      ⟨hroom.numbers, fun r hr => hroom.places r (List.mem_filter.mp hr).1⟩
  have hinsert := insertProperty_some_of (s := s.removeRows node field) hs.native
    (hs.hasNode_of_isLive hnode) (hs.hasNode_of_isLive hfield) hnext now raw 0
  refine atomically_of_ok ?_
  rw [bind_of_ok hdelete]
  unfold insertFrom
  rw [if_pos (by decide)]
  exact (bind_of_ok hinsert).trans rfl

/-! ## Edits of fields -/

/-- A write of one value that passes its checks succeeds if there is room for a row. -/
theorem setProperty_spends (hs : s.Sound) (hcounted : 0 ≤ s.lastRowId) (hroom : s.Roomy (count + 1))
    (now : Int) {node : NodeId} {field : String} {value : PropertyValue} {fieldNode : Node}
    {type : Option FieldType} {raw : String} (hadmits : s.Admits node field [value] fieldNode)
    (htype : s.fieldType? fieldNode.id = .ok type)
    (hconforms : type.all (value.conformsTo ·) = true) (hone : TakesOne type)
    (hraw : value.encode? = some raw) :
    ∃ s', setProperty now node field value none s = .ok () s' ∧ Spends s s' := by
  obtain ⟨rows, hrows, -⟩ := hs.exists_fieldRows node fieldNode.id
  rw [setProperty_checked now hadmits htype hconforms hone hraw hrows]
  by_cases hsettled : isSettled rows raw none
  · rw [if_pos hsettled]
    exact ⟨s, rfl, .refl s⟩
  · rw [if_neg hsettled]
    have hreplace := replaceFieldProperties_of hs hcounted hroom hadmits.live
      (hs.isLive_of_findLive? hadmits.found) now raw
    have htouch := touchNode_of (s := (s.removeRows node fieldNode.id).addRow (s.lastRowId + 1)
      (newRow now (s.lastRowId + 1) node fieldNode.id raw 0)) hadmits.live now
    exact ⟨_, (bind_of_ok hreplace).trans htouch,
      (Spends.of_addRow (List.filter_subset_self _) (Or.inl rfl)).updateNode⟩

/-- A write of one value to the field of a handle succeeds if it passes the checks and there is room
for a row. -/
theorem setProperty_of_holds (hs : s.Sound) (hcounted : 0 ≤ s.lastRowId)
    (hroom : s.Roomy (count + 1)) (now : Int) (value : PropertyValue) {n f : NodeId}
    {field : String} {type : Option FieldType} (hname : IsName field) (hlive : s.IsLive n)
    (hf : s.Holds (.known f) (some field)) (htype : s.fieldType? f = .ok type)
    (hconforms : type.all (value.conformsTo ·) = true) (hone : TakesOne type)
    (hfinite : value.Finite) (hguard : field = Handle.fieldExtends →
      ∀ parent ∈ value.referenced, s.wouldCreateCycle n parent = .ok false) :
    ∃ s', setProperty now n field value none s = .ok () s' ∧ Spends s s' := by
  obtain ⟨fieldNode, hfound, rfl, hhandle⟩ := hs.findLive?_of_holds hname hf
  obtain ⟨raw, hraw⟩ :=
    Option.isSome_iff_exists.mp ((PropertyValue.encode?_isSome_iff value).mpr hfinite)
  refine setProperty_spends hs hcounted hroom now ⟨hlive, hfound, fun hextends parent hmem => ?_⟩
    htype hconforms hone hraw
  rw [List.flatMap_singleton] at hmem
  exact hguard (Option.some.inj (hhandle.symm.trans hextends)) parent hmem

/-- A supertag is assigned if there is room for a row. -/
theorem attachSupertag_spends (hs : s.Sound) (hcounted : 0 ≤ s.lastRowId)
    (hroom : s.Roomy (count + 1)) (now : Int) {node : NodeId} (supertag : NodeId) {field : Node}
    (hlive : s.IsLive node) (hfound : s.findLive? Handle.fieldSupertag = .ok (some field)) :
    ∃ added s', attachSupertag now node supertag s = .ok added s' ∧ Spends s s' := by
  obtain ⟨n, hn⟩ := hlive
  obtain ⟨rows, hrows, -⟩ := hs.exists_fieldRows node field.id
  unfold attachSupertag
  rw [bind_of_ok (requireLive_of hn), bind_of_ok (requireField_of hfound),
    bind_of_ok (ask_of_ok (·.fieldPropertiesOf node field.id) hrows)]
  by_cases hrefers : refersTo rows supertag
  · rw [if_pos hrefers]
    exact ⟨false, s, rfl, .refl s⟩
  · rw [if_neg hrefers]
    obtain ⟨raw, hraw⟩ := Option.isSome_iff_exists.mp
      ((PropertyValue.encode?_isSome_iff (.node supertag)).mpr fun _ h => nomatch h)
    obtain ⟨place, hplace, hbehind⟩ := hs.nextOrder_of_roomy hroom node field.id
    have hinsert := insertProperty_some_of hs.native (hs.hasNode_of_isLive ⟨n, hn⟩)
      (hs.hasNode_of_isLive (hs.isLive_of_findLive? hfound))
      (hs.nextRowId_of_roomy hcounted hroom) now raw place
    rw [bind_of_ok (encode_of hraw), insertProperty_none,
      bind_assoc, bind_of_ok (ask_of_ok (·.nextOrder node field.id) hplace), bind_of_ok hinsert]
    have htouch := touchNode_of (s := s.addRow (s.lastRowId + 1)
      (newRow now (s.lastRowId + 1) node field.id raw place)) ⟨n, hn⟩ now
    exact ⟨true, _, (bind_of_ok htouch).trans rfl,
      (Spends.of_addRow (List.Subset.refl _) hbehind).updateNode⟩

end Edit

end TagGraph
