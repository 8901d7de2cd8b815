import TagGraph.Proofs.Field.Outcome
import TagGraph.Proofs.Inheritance.Cycles

/-!
# Writing a field and reading it back

What has been written to a field of a node is read back, each double as its notation is read, and
what has been removed is gone. Beside the rows of the field such an edit changes nothing but the time
of the last change of the node, which never goes back (`Store.Beside`). A write of one value is
settled at once: to repeat it changes nothing, at whatever time (`Edit.setProperty_repeated`).
-/

namespace TagGraph

/-- The row of a node is the same, or its time of change has moved on. -/
def NodeRecord.MovesOn (node : NodeId) (old new : NodeRecord) : Prop :=
  new = old ∨ ∃ (n : Node) (time : Int), old = n.record ∧ n.id = node ∧ n.updatedAt ≤ time ∧
    new = Node.record { n with updatedAt := time }

namespace NodeRecord.MovesOn

variable {node : NodeId} {a b c : NodeRecord}

theorem trans (hab : MovesOn node a b) (hbc : MovesOn node b c) : MovesOn node a c := by
  rcases hab with rfl | ⟨n, time, rfl, hid, hle, rfl⟩
  · exact hbc
  · rcases hbc with rfl | ⟨m, later, hm, -, hle', rfl⟩
    · exact Or.inr ⟨n, time, rfl, hid, hle, rfl⟩
    · obtain rfl := Node.record_injective hm
      exact Or.inr ⟨n, later, rfl, hid, Int.le_trans hle hle', rfl⟩

theorem all_trans {l l' l'' : List NodeRecord} (h : List.Forall₂ (MovesOn node) l l')
    (h' : List.Forall₂ (MovesOn node) l' l'') : List.Forall₂ (MovesOn node) l l'' := by
  induction h generalizing l'' with
  | nil => exact h'
  | cons hfirst _ ih =>
    cases h' with
    | cons hfirst' hrest' => exact .cons (hfirst.trans hfirst') (ih hrest')

/-- Rows of nodes stay such rows. -/
theorem all_read {l l' : List NodeRecord} (h : List.Forall₂ (MovesOn node) l l')
    (hread : ∀ r ∈ l, ∃ n : Node, r = n.record) : ∀ r ∈ l', ∃ n : Node, r = n.record := by
  induction h with
  | nil => exact hread
  | cons hfirst _ ih =>
    obtain ⟨hold, hrest⟩ := List.forall_mem_cons.mp hread
    refine List.forall_mem_cons.mpr ⟨?_, ih hrest⟩
    rcases hfirst with rfl | ⟨n, time, -, -, -, hnew⟩
    · exact hold
    · exact ⟨_, hnew⟩

end NodeRecord.MovesOn

namespace Store

/-! ## What is beside a field -/

/-- Beside the rows of a field of a node nothing has changed but the time of the last change of the
node. -/
structure Beside (node field : NodeId) (s s' : Store) : Prop where
  rows : s'.properties.filter (isElsewhere node field) =
    s.properties.filter (isElsewhere node field)
  nodes : List.Forall₂ (NodeRecord.MovesOn node) s.nodes s'.nodes

namespace Beside

variable {node field : NodeId} {s s' : Store}

/-- The same of stores whose nodes can all be read. -/
def OfRead (node field : NodeId) (s s' : Store) : Prop :=
  (∀ r ∈ s.nodes, ∃ n : Node, r = n.record) → Beside node field s s'

theorem of_nodes (hrows : s'.properties.filter (isElsewhere node field) =
    s.properties.filter (isElsewhere node field)) (hnodes : s'.nodes = s.nodes) :
    Beside node field s s' where
  rows := hrows
  nodes := by
    rw [hnodes]
    exact List.forall₂_same.mpr fun _ _ => Or.inl rfl

theorem composes : Composes (OfRead node field) where
  refl _ _ := .of_nodes rfl rfl
  trans hab hbc ha := by
    have hb := hab ha
    have hc := hbc (NodeRecord.MovesOn.all_read hb.nodes ha)
    exact ⟨hc.rows.trans hb.rows, NodeRecord.MovesOn.all_trans hb.nodes hc.nodes⟩

/-- Noting a change of the node moves its time on. -/
theorem touch (now : Int) : OfRead node field s (s.updateNode node fun r =>
    { r with updatedAt := r.updatedAt.max (.integer now) }) := by
  intro hread
  refine ⟨rfl, List.forall₂_map_right_iff.mpr (List.forall₂_same.mpr fun r hr => ?_)⟩
  by_cases hmeant : (r.id == StoredId.known node && r.isLive) = true
  · rw [if_pos hmeant]
    obtain ⟨n, rfl⟩ := hread r hr
    have hid : n.record.id = .known node := beq_iff_eq.mp (Bool.and_eq_true_iff.mp hmeant).1
    refine Or.inr ⟨n, max n.updatedAt now, rfl, StoredId.known.inj hid, Int.le_max_left _ _, ?_⟩
    show { n.record with updatedAt := (Cell.integer n.updatedAt).max (.integer now) } = _
    rw [Cell.max_integer]
    rfl
  · rw [if_neg hmeant]
    exact Or.inl rfl

/-- The edits of the field leave what is beside it. -/
theorem rowLaw (node field : NodeId) (texts : String → Prop) :
    RowLaw (Natively (OfRead node field)) (fun n f => n = node ∧ f = field) texts where
  toComposes := composes.natively
  touchNode := by
    rintro now _ ⟨_, rfl, -⟩
    exact Edit.touchNode_respects now _ fun _ => touch now
  insertProperty := by
    rintro now _ _ ⟨rfl, rfl⟩ raw - order
    refine Edit.insertProperty_respects composes now _ _ raw (fun s number place _ _ _ => ?_) order
    exact fun _ => .of_nodes (OnlyField.filter_addRow s now number _ _ raw place) rfl
  deleteFieldProperties := by
    rintro n f ⟨rfl, rfl⟩
    exact Edit.deleteFieldProperties_respects n f fun s _ =>
      .of_nodes (OnlyField.filter_removeRows s n f) rfl

end Beside

namespace Sound

variable {s s' : Store}

/-- Where the same nodes are live, with the same handles, a text names the same node. -/
theorem findLive?_of_same (hs : s.Sound) (hs' : s'.Sound)
    (h : ∀ id handle, s'.Holds id handle ↔ s.Holds id handle) {name : String} {n : Node}
    (hfound : s.findLive? name = .ok (some n)) :
    ∃ n', s'.findLive? name = .ok (some n') ∧ n'.id = n.id := by
  have hhandle : ∀ handle, s.nodeBySystemId? handle = .ok (some n) →
      ∃ n', s'.nodeBySystemId? handle = .ok (some n') ∧ n'.id = n.id := by
    intro handle hn
    obtain ⟨n', hn', hid, -⟩ :=
      hs'.nodeBySystemId?_of_holds ((h _ _).mpr (hs.holds_of_nodeBySystemId? hn))
    exact ⟨n', hn', hid⟩
  unfold findLive? at hfound ⊢
  simp only at hfound ⊢
  generalize Text.trim name = trimmed at hfound ⊢
  cases hid : NodeId.ofString? trimmed with
  | none =>
    simp only [hid] at hfound ⊢
    exact hhandle trimmed hfound
  | some id =>
    simp only [hid] at hfound ⊢
    obtain ⟨found, hnode⟩ := hs.node?_succeeds id
    obtain ⟨found', hnode'⟩ := hs'.node?_succeeds id
    have hlive : (∃ m, found' = some m) ↔ ∃ m, found = some m := by
      have hsame : s'.IsLive id ↔ s.IsLive id := hs.isLive_congr hs' h
      simpa only [IsLive, hnode, hnode', Except.ok.injEq] using hsame
    rw [hnode] at hfound
    rw [hnode']
    cases found with
    | none =>
      obtain rfl : found' = none := by
        simpa [Option.eq_none_iff_forall_ne_some] using hlive
      exact hhandle trimmed hfound
    | some m =>
      obtain ⟨m', rfl⟩ := hlive.mpr ⟨m, rfl⟩
      obtain rfl := Option.some.inj (Except.ok.inj hfound)
      exact ⟨m', rfl, (hs'.node?_eq_some_iff.mp hnode').2.trans
        (hs.node?_eq_some_iff.mp hnode).2.symm⟩

end Sound

end Store

namespace Edit

open Store

variable {α : Type} {s s' : Store} {now : Int} {node : NodeId} {field : String} {fieldNode : Node}

/-! ## What an edit of a field leaves -/

namespace EditsField

variable {e : Edit α} {values : List PropertyValue}

/-- An edit of a field leaves what is beside it, whether it fails or not. -/
theorem beside (he : EditsField e s node field values) (hs : s.Sound)
    (hfound : s.findLive? field = .ok (some fieldNode)) :
    Beside node fieldNode.id s (e.after s) := by
  rcases he with hsame | ⟨fieldNode', hadmits, hrows⟩
  · rw [hsame]
    exact .of_nodes rfl rfl
  · obtain rfl := Option.some.inj (Except.ok.inj (hadmits.found.symm.trans hfound))
    exact (hrows _ (Beside.rowLaw node fieldNode'.id _) hs.native).2 fun r hr =>
      hs.record_of_mem hr

/-- Other fields, and those of other nodes, keep their texts. -/
theorem texts_beside (he : EditsField e s node field values) (hs : s.Sound)
    (hfound : s.findLive? field = .ok (some fieldNode)) {n f : NodeId}
    (hne : ¬ (n = node ∧ f = fieldNode.id)) : (e.after s).texts n f = s.texts n f := by
  have honly : OnlyField node fieldNode.id s (e.after s) :=
    ⟨fun _ _ => he.holds_iff hs, (he.beside hs hfound).rows⟩
  exact honly.texts_eq hne

/-- The field is found again, and what it holds is read there. -/
theorem values_eq (he : EditsField e s node field values) (hs : s.Sound)
    (hs' : (e.after s).Sound) (hlive : s.IsLive node)
    (hfound : s.findLive? field = .ok (some fieldNode)) :
    (e.after s).values node field =
      .ok (((e.after s).texts node fieldNode.id).filterMap PropertyValue.decode?) := by
  have hholds : ∀ id handle, (e.after s).Holds id handle ↔ s.Holds id handle :=
    fun _ _ => he.holds_iff hs
  obtain ⟨fieldNode', hfound', hid⟩ := hs.findLive?_of_same hs' hholds hfound
  rw [hs'.values_eq ((hs.isLive_congr hs' hholds).mpr hlive) hfound', hid]

/-- The declared types stay the same, unless a type is declared. -/
theorem fieldType?_eq (he : EditsField e s node field values) (hs : s.Sound)
    (hs' : (e.after s).Sound) (hfound : s.findLive? field = .ok (some fieldNode)) {f : NodeId}
    (hne : f = node → ¬ s.Holds (.known fieldNode.id) (some Handle.fieldFieldType)) :
    (e.after s).fieldType? f = s.fieldType? f := by
  by_cases hdeclared : ∃ typeField, s.Holds (.known typeField) (some Handle.fieldFieldType)
  · obtain ⟨typeField, htypeField⟩ := hdeclared
    rw [hs.fieldType?_eq htypeField, hs'.fieldType?_eq ((he.holds_iff hs).mpr htypeField),
      he.texts_beside hs hfound]
    rintro ⟨hnode, rfl⟩
    exact hne hnode htypeField
  · rw [hs.fieldType?_of_gone hdeclared,
      hs'.fieldType?_of_gone (by simpa only [he.holds_iff hs] using hdeclared)]

end EditsField

/-! ## Writing one value -/

/-- A single text in place of the rows of a field makes one new row. -/
theorem replaceFieldProperties_single (hs : s.foreign = none) {f : NodeId} {raw : String}
    {first : Int} (h : replaceFieldProperties now node f [raw] first s = .ok () s') :
    ∃ number,
      s' = (s.removeRows node f).addRow number (newRow now number node f raw first) := by
  obtain ⟨_, t, hdelete, h⟩ := ok_of_bind (ok_of_atomically h)
  obtain rfl : s.removeRows node f = t := (EStateM.Result.ok.inj hdelete).2
  unfold insertFrom at h
  by_cases hfirst : first < 2 ^ 63
  · simp only [hfirst, if_true] at h
    obtain ⟨_, t, hadd, h⟩ := ok_of_bind h
    obtain ⟨-, rfl⟩ := EStateM.Result.ok.inj h
    obtain ⟨number, -, rfl⟩ := insertProperty_some_ok (s := s.removeRows node f) hs hadd
    exact ⟨number, rfl⟩
  · simp only [hfirst] at h
    cases h

/-- The new row is the only one of its field. -/
theorem fieldRecords_single (s : Store) (now number : Int) (node f : NodeId) (raw : String)
    (place : Int) :
    ((s.removeRows node f).addRow number (newRow now number node f raw place)).fieldRecords
      node f = [newRow now number node f raw place] := by
  rw [fieldRecords, addRow, List.filter_append, filter_removeRows_self, List.nil_append]
  simp [newRow, inOrder]

variable {value : PropertyValue} {order : Option Int} {type : Option FieldType}

/-- After a write of one value the rows are what it would leave. -/
theorem setProperty_settled (hs : s.Sound)
    (h : setProperty now node field value order s = .ok () s')
    (hfound : s.findLive? field = .ok (some fieldNode))
    (htype : s.fieldType? fieldNode.id = .ok type) (hone : TakesOne type) :
    ∃ raw rows, value.encode? = some raw ∧ s'.fieldPropertiesOf node fieldNode.id = .ok rows ∧
      isSettled rows raw order = true := by
  obtain ⟨fieldNode', type', hadmits, hdeclared, hconforms, hwritten⟩ := setProperty_ok hs h
  obtain rfl := Option.some.inj (Except.ok.inj (hadmits.found.symm.trans hfound))
  obtain rfl := Except.ok.inj (hdeclared.symm.trans htype)
  obtain ⟨raw, hraw, -⟩ := hwritten hone
  obtain ⟨rows, hrows, -⟩ := hs.exists_fieldRows node fieldNode'.id
  rw [setProperty_checked now hadmits htype hconforms hone hraw hrows] at h
  by_cases hsettled : isSettled rows raw order = true
  · rw [if_pos hsettled] at h
    obtain ⟨-, rfl⟩ := EStateM.Result.ok.inj h
    exact ⟨raw, rows, hraw, hrows, hsettled⟩
  · rw [if_neg hsettled] at h
    obtain ⟨_, t, hreplace, htouch⟩ := ok_of_bind h
    obtain ⟨number, rfl⟩ := replaceFieldProperties_single hs.native hreplace
    have hproperties := touchNode_properties
      (s := (s.removeRows node fieldNode'.id).addRow number
        (newRow now number node fieldNode'.id raw (order.getD 0))) now node
    rw [after_of_ok htouch] at hproperties
    have hrecords : s'.fieldRecords node fieldNode'.id =
        [newRow now number node fieldNode'.id raw (order.getD 0)] := by
      rw [← fieldRecords_single s now number node fieldNode'.id raw (order.getD 0), fieldRecords,
        hproperties, fieldRecords]
    refine ⟨raw, [⟨number, node, fieldNode'.id, raw, order.getD 0, now, now⟩], hraw, ?_, ?_⟩
    · rw [fieldPropertiesOf, hrecords]
      rfl
    · cases order <;> simp [isSettled]

/-- A field that takes one value holds it in one row after the write, and it is read as its text
is. -/
theorem setProperty_values (hs : s.Sound)
    (h : setProperty now node field value order s = .ok () s')
    (hfound : s.findLive? field = .ok (some fieldNode))
    (htype : s.fieldType? fieldNode.id = .ok type) (hone : TakesOne type)
    (hdepth : value.payloadDepth ≤ 126) :
    s'.values node field = .ok [value.reread] ∧
      (s'.fieldRecords node fieldNode.id).length = 1 := by
  obtain ⟨fieldNode', type', hadmits, hdeclared, -, hwritten⟩ := setProperty_ok hs h
  obtain rfl := Option.some.inj (Except.ok.inj (hadmits.found.symm.trans hfound))
  obtain rfl := Except.ok.inj (hdeclared.symm.trans htype)
  obtain ⟨raw, hraw, htexts⟩ := hwritten hone
  have hs' := hs.after (setProperty_respects .changes now node field value order)
  have hvalues := (setProperty_editsField now node field value order s).values_eq hs hs'
    hadmits.live hfound
  have hdecode := PropertyValue.decode?_of_encode? hraw
  rw [if_pos hdepth] at hdecode
  rw [after_of_ok h, htexts, List.filterMap_cons_some hdecode] at hvalues
  refine ⟨hvalues, ?_⟩
  rw [length_fieldRecords, htexts]
  rfl

/-- To repeat a write of one value changes nothing, at whatever time. -/
theorem setProperty_repeated (hs : s.Sound)
    (h : setProperty now node field value order s = .ok () s')
    (hfound : s.findLive? field = .ok (some fieldNode))
    (htype : s.fieldType? fieldNode.id = .ok type) (hone : TakesOne type)
    (hself : s.Holds (.known node) (some Handle.fieldFieldType) → fieldNode.id ≠ node)
    (later : Int) : setProperty later node field value order s' = .ok () s' := by
  obtain ⟨fieldNode', type', hadmits, hdeclared, hconforms, -⟩ := setProperty_ok hs h
  obtain rfl := Option.some.inj (Except.ok.inj (hadmits.found.symm.trans hfound))
  obtain rfl := Except.ok.inj (hdeclared.symm.trans htype)
  obtain ⟨raw, rows, hraw, hrows, hsettled⟩ := setProperty_settled hs h hfound htype hone
  have hedit := setProperty_editsField now node field value order s
  have hs' := hs.after (setProperty_respects .changes now node field value order)
  have htype' := hedit.fieldType?_eq hs hs' hfound (f := fieldNode'.id) fun hnode hholds =>
    hself (hnode ▸ hholds) hnode
  have hbeside : ∀ {n f}, ¬ (n = node ∧ f = fieldNode'.id) → _ := hedit.texts_beside hs hfound
  have hholds : ∀ id handle, (Edit.after _ s).Holds id handle ↔ s.Holds id handle :=
    fun _ _ => hedit.holds_iff hs
  rw [after_of_ok h] at hs' htype' hbeside hholds
  obtain ⟨found, hfound', hid⟩ := hs.findLive?_of_same hs' hholds hfound
  have hlive : ∀ id, s'.IsLive id ↔ s.IsLive id := fun _ => hs.isLive_congr hs' hholds
  rw [← hid] at hrows
  have hadmits' : s'.Admits node field [value] found := by
    refine ⟨(hlive node).mpr hadmits.live, hfound', fun hextends parent hparent => ?_⟩
    have hhandle := (hholds _ _).mp (hs'.holds_of_findLive? hfound')
    rw [hid, hextends] at hhandle
    have hguard := hadmits.guarded
      (hs.handle_unique (hs.holds_of_findLive? hfound) hhandle) parent hparent
    -- The chain above the parent does not come to the node, so no step of it has changed.
    obtain ⟨hne, above, habove, hnotabove⟩ := wouldCreateCycle_eq_false_iff.mp hguard
    refine wouldCreateCycle_of_alike hguard fun above' habove' n hn => Or.inl ?_
    obtain rfl := Except.ok.inj (habove.symm.trans habove')
    have hother : n ≠ node := by
      rintro rfl
      rcases hn with rfl | hn
      · exact hne rfl
      · exact hnotabove hn
    exact hs.parent?_congr hs' hhandle ((hholds _ _).mpr hhandle)
      (hbeside fun hat => hother hat.1) hlive
  rw [setProperty_checked later hadmits' (by rw [hid, htype', htype]) hconforms hone hraw hrows,
    if_pos hsettled]
  rfl

/-! ## Writing several values -/

/-- What a write of several values has checked, and what it leaves. -/
theorem setPropertyValues_ok (hs : s.Sound) {values : List PropertyValue}
    (h : setPropertyValues now node field values s = .ok () s') :
    ∃ fieldNode type raws, s.Admits node field values fieldNode ∧
      s.fieldType? fieldNode.id = .ok type ∧
      type.all (fun t => values.all (·.conformsTo t)) = true ∧
      PropertyValue.StoredAs values raws ∧ s'.texts node fieldNode.id = raws := by
  obtain ⟨n, hlive, h⟩ := (requireLive_reads node).ok_of_bind h
  obtain ⟨fieldNode, hfound, h⟩ := (requireField_reads field).ok_of_bind h
  obtain ⟨type, htype, h⟩ := (Reads.ask _).ok_of_bind h
  obtain ⟨_, hconforms, h⟩ := (checkTypes_reads field type values).ok_of_bind h
  obtain ⟨_, hguard, h⟩ := (checkExtends_reads node fieldNode values).ok_of_bind h
  obtain ⟨raws, hraws, h⟩ := (Reads.mapM encode_reads values).ok_of_bind h
  obtain ⟨_, t, hreplace, htouch⟩ := ok_of_bind h
  have hproperties := touchNode_properties (s := t) now node
  rw [after_of_ok htouch] at hproperties
  refine ⟨fieldNode, type, raws, ⟨⟨n, requireLive_ok hlive⟩, requireField_ok hfound,
    checkExtends_ok hguard⟩, ask_ok htype, checkTypes_ok hconforms, mapM_encode_ok hraws, ?_⟩
  rw [← replaceFieldProperties_ok hs.native hreplace, texts, texts, fieldRecords, fieldRecords,
    hproperties]

/-- A field holds the values in their order after the write, and they are read as their texts are. -/
theorem setPropertyValues_values (hs : s.Sound) {values : List PropertyValue}
    (h : setPropertyValues now node field values s = .ok () s')
    (hdepth : ∀ value ∈ values, value.payloadDepth ≤ 126) :
    s'.values node field = .ok (values.map PropertyValue.reread) := by
  obtain ⟨fieldNode, type, raws, hadmits, -, -, hraws, htexts⟩ := setPropertyValues_ok hs h
  have hvalues := (setPropertyValues_editsField now node field values s).values_eq hs
    (hs.after (setPropertyValues_respects .changes now node field values)) hadmits.live
    hadmits.found
  rw [after_of_ok h, htexts, PropertyValue.filterMap_decode_of_storedAs hraws,
    List.filter_eq_self.mpr fun value hvalue => decide_eq_true (hdepth value hvalue)] at hvalues
  exact hvalues

/-! ## Removing values -/

/-- Removing a field always succeeds, removes all its rows and tells how many there were. -/
theorem removeProperty_values (hs : s.Sound) (now : Int) (hlive : s.IsLive node)
    (hfound : s.findLive? field = .ok (some fieldNode)) :
    ∃ s', removeProperty now node field s =
        .ok (s.fieldRecords node fieldNode.id).length s' ∧
      s'.values node field = .ok [] ∧ s'.fieldRecords node fieldNode.id = [] := by
  have h := removeProperty_of now hlive hfound
  generalize hleft : (if s.texts node fieldNode.id = [] then s else _) = s' at h
  have hnone : s'.texts node fieldNode.id = [] := by
    subst hleft
    by_cases htexts : s.texts node fieldNode.id = []
    · rw [if_pos htexts, htexts]
    · rw [if_neg htexts]
      exact texts_removeRows s node fieldNode.id
  have hvalues := (removeProperty_editsField now node field s).values_eq hs
    (hs.after (removeProperty_respects .changes now node field)) hlive hfound
  rw [after_of_ok h, hnone] at hvalues
  exact ⟨s', h, hvalues, List.map_eq_nil_iff.mp hnone⟩

end Edit

namespace Store

/-- On every store that a run leaves, the values that are written to a field of a live node are read
as their texts are, so as they were if and only if their doubles are read back. Removed ones are
gone and counted, and nothing is changed beside the field, even if the edit fails. A field that
takes one value holds it in one row then, and to write it again changes nothing. -/
theorem writeField_run (steps : List Step) (now : Int) {node : NodeId} {field : String}
    {fieldNode : Node} (hlive : (Store.empty.run steps).IsLive node)
    (hfound : (Store.empty.run steps).findLive? field = .ok (some fieldNode)) :
    let s := Store.empty.run steps
    (∀ value order s', Edit.setProperty now node field value order s = .ok () s' →
      s.fieldType? fieldNode.id ≠ .ok (some .nodes) →
      (value.payloadDepth ≤ 126 →
        s'.values node field = .ok [value.reread] ∧
        (s'.values node field = .ok [value] ↔ value.ReadsBack) ∧
        (s'.fieldRecords node fieldNode.id).length = 1) ∧
      ((fieldNode.systemId = some Handle.fieldFieldType → fieldNode.id ≠ node) →
        ∀ later, Edit.setProperty later node field value order s' = .ok () s')) ∧
    (∀ values s', Edit.setPropertyValues now node field values s = .ok () s' →
      (∀ value ∈ values, value.payloadDepth ≤ 126) →
        s'.values node field = .ok (values.map PropertyValue.reread) ∧
        (s'.values node field = .ok values ↔ ∀ value ∈ values, value.ReadsBack)) ∧
    (∃ s', Edit.removeProperty now node field s =
        .ok (s.fieldRecords node fieldNode.id).length s' ∧
      s'.values node field = .ok [] ∧ s'.fieldRecords node fieldNode.id = []) ∧
    (∀ value order,
      s.Beside node fieldNode.id ((Edit.setProperty now node field value order).after s)) ∧
    (∀ values,
      s.Beside node fieldNode.id ((Edit.setPropertyValues now node field values).after s)) ∧
    s.Beside node fieldNode.id ((Edit.removeProperty now node field).after s) := by
  intro s
  have hs : s.Sound := empty_sound.run steps
  refine ⟨fun value order s' h hnodes => ?_, fun values s' h hdepth => ?_, ?_,
    fun value order => ?_, fun values => ?_, ?_⟩
  · obtain ⟨_, type, hadmits, htype, -, -⟩ := Edit.setProperty_ok hs h
    obtain rfl := Option.some.inj (Except.ok.inj (hadmits.found.symm.trans hfound))
    have hone : Edit.TakesOne type := Edit.takesOne_of_ne fun heq => hnodes (heq ▸ htype)
    refine ⟨fun hdepth => ?_, fun hself later => ?_⟩
    · obtain ⟨hvalues, hrows⟩ := Edit.setProperty_values hs h hfound htype hone hdepth
      refine ⟨hvalues, ?_, hrows⟩
      rw [hvalues, ← value.reread_eq_iff]
      simp
    refine Edit.setProperty_repeated hs h hfound htype hone (fun hholds heq => ?_) later
    rw [← heq] at hholds
    exact hself (hs.handle_unique (hs.holds_of_findLive? hfound) hholds) heq
  · have hvalues := Edit.setPropertyValues_values hs h hdepth
    refine ⟨hvalues, ?_⟩
    rw [hvalues, Except.ok.injEq, PropertyValue.map_reread_eq_iff]
  · exact Edit.removeProperty_values hs now hlive hfound
  · exact (Edit.setProperty_editsField now node field value order s).beside hs hfound
  · exact (Edit.setPropertyValues_editsField now node field values s).beside hs hfound
  · exact (Edit.removeProperty_editsField now node field s).beside hs hfound

/-- The price of a thing, written to a field without declared type, is read as another one, although
to write it again changes nothing. -/
theorem writeField_run_price :
    let id (i : Nat) (h : i < 2 ^ 128) : NodeId := ⟨i, h⟩
    let create (id : NodeId) (systemId : String) : Step :=
      ⟨5, .graph (.createNode ⟨id, systemId, some systemId, none, []⟩)⟩
    let milk := id 2 (by decide)
    let price := PropertyValue.ofInt 2000000000000001
    let s := Store.empty.run [create (id 1 (by decide)) "shop:price", create milk "shop:milk"]
    ∃ s', Edit.setProperty 6 milk "shop:price" price none s = .ok () s' ∧
      s'.values milk "shop:price" = .ok [price.reread] ∧ price.reread ≠ price ∧
      ∀ later, Edit.setProperty later milk "shop:price" price none s' = .ok () s' := by
  intro id create milk price s
  have hs : s.Sound := empty_sound.run _
  have hlive : s.IsLive milk := hs.isLive_iff.mpr ⟨some "shop:milk", by
    unfold Holds
    decide +kernel⟩
  have hname : IsName "shop:price" := ⟨by decide +kernel, by decide +kernel⟩
  have hprice : s.Holds (.known (id 1 (by decide))) (some "shop:price") := by
    unfold Holds
    decide +kernel
  obtain ⟨fieldNode, hfound, -, hhandle⟩ := hs.findLive?_of_holds hname hprice
  have hundeclared : ∀ r ∈ s.nodes, r.systemId ≠ some Handle.fieldFieldType := by decide +kernel
  have htype : s.fieldType? fieldNode.id = .ok none := by
    refine hs.fieldType?_of_gone ?_ fieldNode.id
    rintro ⟨_, r, hr, -, -, hhandle⟩
    exact hundeclared r hr hhandle
  obtain ⟨hset, -⟩ := writeField_run _ 6 hlive hfound
  have hsucceeds : (match Edit.setProperty 6 milk "shop:price" price none s with
    | .ok _ _ => true
    | .error _ _ => false) = true := by decide +kernel
  cases h : Edit.setProperty 6 milk "shop:price" price none s with
  | error err s' =>
    rw [h] at hsucceeds
    cases hsucceeds
  | ok _ s' =>
    have hnodes : s.fieldType? fieldNode.id ≠ .ok (some .nodes) := by
      rw [htype]
      exact fun heq => nomatch heq
    obtain ⟨hvalues, hagain⟩ := hset price none s' h hnodes
    have hchanged : ¬ price.ReadsBack := by decide +kernel
    refine ⟨s', rfl, (hvalues (Nat.zero_le _)).1, mt price.reread_eq_iff.mp hchanged,
      hagain fun hdeclares => ?_⟩
    rw [hhandle] at hdeclares
    exact absurd hdeclares (by decide)

end Store

end TagGraph
