import TagGraph.Proofs.Field.Reading

/-!
# What an edit of a field leaves

An edit of one field of a node leaves all rows of other fields and nodes, in their order, and all
live nodes with their handles (`Store.OnlyField`). A field that takes one value holds its text alone
after the write (`Edit.setProperty_ok`), and writing it again changes nothing
(`Edit.setProperty_idle`). An assigned supertag is in a row of `field:supertag` and stays there
(`Edit.attachSupertag_ok`, `Edit.attachSupertag_idle`).
-/

namespace TagGraph

namespace Store

/-! ## Rows of other fields -/

/-- Whether a row is none of those of a field of a node. -/
def isElsewhere (node field : NodeId) (r : PropertyRecord) : Bool :=
  !(r.nodeId == .known node && r.fieldId == .known field)

/-- The live nodes with their handles are the same, and so are the rows but for those of a field of
a node. -/
structure OnlyField (node field : NodeId) (s s' : Store) : Prop where
  holds : ∀ id handle, s'.Holds id handle ↔ s.Holds id handle
  elsewhere : s'.properties.filter (isElsewhere node field) =
    s.properties.filter (isElsewhere node field)

namespace OnlyField

variable {node field : NodeId} {s s' : Store}

theorem composes : Composes (OnlyField node field) where
  refl _ := ⟨fun _ _ => Iff.rfl, rfl⟩
  trans hab hbc := ⟨fun id handle => (hbc.holds id handle).trans (hab.holds id handle),
    hbc.elsewhere.trans hab.elsewhere⟩

/-- A new row of the field is none of the others. -/
theorem filter_addRow (s : Store) (now number : Int) (node field : NodeId) (raw : String)
    (place : Int) :
    (s.addRow number (newRow now number node field raw place)).properties.filter
      (isElsewhere node field) = s.properties.filter (isElsewhere node field) := by
  rw [addRow, List.filter_append, List.filter_cons_of_neg (by simp [isElsewhere, newRow]),
    List.filter_nil, List.append_nil]

/-- To remove the rows of the field leaves the others. -/
theorem filter_removeRows (s : Store) (node field : NodeId) :
    (s.removeRows node field).properties.filter (isElsewhere node field) =
      s.properties.filter (isElsewhere node field) := by
  rw [removeRows, List.filter_filter]
  exact List.filter_congr fun r _ => Bool.and_self _

/-- The edits of the field leave everything else. -/
theorem rowLaw (node field : NodeId) (texts : String → Prop) :
    RowLaw (Natively (OnlyField node field)) (fun n f => n = node ∧ f = field) texts where
  toComposes := composes.natively
  touchNode now {id} _ := Edit.touchNode_respects now id fun s =>
    ⟨fun _ _ => ⟨holds_of_updateNode (NodeRecord.touch_amends now) fun _ h => h,
      holds_updateNode (NodeRecord.touch_amends now) (fun _ h => h) id⟩, rfl⟩
  insertProperty := by
    rintro now _ _ ⟨rfl, rfl⟩ raw - order
    refine Edit.insertProperty_respects composes now _ _ raw (fun s number place _ _ _ => ?_) order
    exact ⟨fun _ _ => Iff.rfl, filter_addRow s now number _ _ raw place⟩
  deleteFieldProperties := by
    rintro n f ⟨rfl, rfl⟩
    exact Edit.deleteFieldProperties_respects n f fun s =>
      ⟨fun _ _ => Iff.rfl, filter_removeRows s n f⟩

/-- Other fields keep their rows. -/
theorem fieldRecords_eq (h : OnlyField node field s s') {n f : NodeId}
    (hne : ¬ (n = node ∧ f = field)) : s'.fieldRecords n f = s.fieldRecords n f := by
  have hrows : ∀ t : Store, (t.properties.filter (isElsewhere node field)).filter
      (fun r => r.nodeId == .known n && r.fieldId == .known f) =
        t.properties.filter (fun r => r.nodeId == .known n && r.fieldId == .known f) := by
    intro t
    rw [List.filter_filter]
    refine List.filter_congr fun r _ => ?_
    by_cases hat : r.nodeId = .known n ∧ r.fieldId = .known f
    · have helsewhere : isElsewhere node field r = true := by
        simpa [isElsewhere, hat.1, hat.2] using not_and_or.mp hne
      rw [helsewhere, Bool.and_true]
    · have hnot : (r.nodeId == StoredId.known n && r.fieldId == StoredId.known f) = false := by
        simpa using hat
      rw [hnot, Bool.false_and]
  rw [fieldRecords, fieldRecords, ← hrows s', ← hrows s, h.elsewhere]

theorem texts_eq (h : OnlyField node field s s') {n f : NodeId}
    (hne : ¬ (n = node ∧ f = field)) : s'.texts n f = s.texts n f := by
  rw [texts, texts, h.fieldRecords_eq hne]

end OnlyField

/-! ## Rows in their places -/

/-- A row with a smaller whole order comes first. -/
theorem rowPrecedes_of_lt {a b : PropertyRecord} {i j : Int} (ha : a.order = .integer i)
    (hb : b.order = .integer j) (h : i < j) : rowPrecedes a b = true := by
  have hcompare : a.order.order .binary b.order = .lt := by
    rw [ha, hb]
    show compare i j = .lt
    exact Int.compare_eq_lt.mpr h
  rw [rowPrecedes, hcompare]
  rfl

/-! ## Several fields -/

/-- In a sound store nothing has changed but the fields of certain handles: the live nodes with
their handles are the same, and so are the texts in all other fields. -/
def LeavesFields (handles : String → Prop) (s s' : Store) : Prop :=
  s.Sound → s'.Sound ∧ (∀ id handle, s'.Holds id handle ↔ s.Holds id handle) ∧
    ∀ node field handle, s.Holds (.known field) (some handle) → ¬ handles handle →
      s'.texts node field = s.texts node field

theorem leavesFields_composes (handles : String → Prop) : Composes (LeavesFields handles) where
  refl _ hs := ⟨hs, fun _ _ => Iff.rfl, fun _ _ _ _ _ => rfl⟩
  trans hab hbc ha := by
    obtain ⟨hb, hholds, htexts⟩ := hab ha
    obtain ⟨hc, hholds', htexts'⟩ := hbc hb
    refine ⟨hc, fun id handle => (hholds' id handle).trans (hholds id handle), ?_⟩
    intro node field handle hfield hnot
    exact (htexts' node field handle ((hholds _ _).mpr hfield) hnot).trans
      (htexts node field handle hfield hnot)

/-- Where the same nodes have handles, the same ones are live. -/
theorem Sound.isLive_congr {s s' : Store} (hs : s.Sound) (hs' : s'.Sound)
    (h : ∀ id handle, s'.Holds id handle ↔ s.Holds id handle) {id : NodeId} :
    s'.IsLive id ↔ s.IsLive id := by
  rw [hs.isLive_iff, hs'.isLive_iff]
  exact exists_congr fun handle => h _ handle

end Store

namespace Edit

open Store

variable {s s' : Store}

/-! ## Edits of one field -/

namespace EditsField

variable {α : Type} {e : Edit α} {node : NodeId} {field : String} {values : List PropertyValue}

/-- An edit of one field leaves the live nodes and their handles. -/
theorem holds_iff (he : EditsField e s node field values) (hs : s.Sound) {id : StoredId}
    {handle : Option String} : (e.after s).Holds id handle ↔ s.Holds id handle := by
  rcases he with hsame | ⟨fieldNode, -, hrows⟩
  · rw [hsame]
  · exact (hrows _ (OnlyField.rowLaw node fieldNode.id _) hs.native).2.holds id handle

/-- An edit of one field leaves all others, and those of other nodes. -/
theorem texts_apart (he : EditsField e s node field values) (hs : s.Sound) (hname : IsName field)
    {n f : NodeId} (hne : n = node → ¬ s.Holds (.known f) (some field)) :
    (e.after s).texts n f = s.texts n f := by
  rcases he with hsame | ⟨fieldNode, hadmits, hrows⟩
  · rw [hsame]
  · refine (hrows _ (OnlyField.rowLaw node fieldNode.id _) hs.native).2.texts_eq ?_
    rintro ⟨hn, rfl⟩
    exact hne hn (hs.holds_of_found hname hadmits.found)

/-- An edit of one field leaves the fields of other handles, and that of other nodes. -/
theorem texts_eq (he : EditsField e s node field values) (hs : s.Sound) (hname : IsName field)
    {n f : NodeId} {handle : String} (hf : s.Holds (.known f) (some handle))
    (hne : ¬ (n = node ∧ handle = field)) : (e.after s).texts n f = s.texts n f :=
  he.texts_apart hs hname fun hn hfield => hne ⟨hn, Option.some.inj (hs.handle_unique hf hfield)⟩

theorem leavesFields (he : EditsField e s node field values)
    (hsound : Respects (Natively Changes) e) (hname : IsName field) :
    LeavesFields (· = field) s (e.after s) :=
  fun hs => ⟨hs.after hsound, fun _ _ => he.holds_iff hs, fun _ _ _ hfield hne =>
    he.texts_eq hs hname hfield fun h => hne h.2⟩

end EditsField

theorem setProperty_leavesFields (now : Int) (node : NodeId) {field : String}
    (value : PropertyValue) (order : Option Int) (hname : IsName field) :
    Respects (LeavesFields (· = field)) (setProperty now node field value order) :=
  fun s => (setProperty_editsField now node field value order s).leavesFields
    (setProperty_respects .changes now node field value order) hname

theorem removeProperty_leavesFields (now : Int) (node : NodeId) {field : String}
    (hname : IsName field) : Respects (LeavesFields (· = field)) (removeProperty now node field) :=
  fun s => (removeProperty_editsField now node field s).leavesFields
    (removeProperty_respects .changes now node field) hname

/-! ## Writing rows -/

/-- A row that has been added at a place has got the next number. -/
theorem insertProperty_some_ok (hs : s.foreign = none) {now : Int} {node field : NodeId}
    {raw : String} {place : Int} {p : Property}
    (h : insertProperty now node field raw (some place) s = .ok p s') :
    ∃ number, s.nextRowId = .ok number ∧
      s' = s.addRow number (newRow now number node field raw place) := by
  rw [insertProperty_some] at h
  obtain ⟨number, hnext, h⟩ := (Reads.ask _).ok_of_bind h
  obtain ⟨_, t, hadd, h⟩ := ok_of_bind h
  obtain ⟨-, rfl⟩ := EStateM.Result.ok.inj h
  refine ⟨number, ask_ok hnext, ?_⟩
  rw [addProperty, get_bind, hs] at hadd
  by_cases hnode : hasNode s node && hasNode s field
  · simp only [hnode, if_true] at hadd
    obtain ⟨-, rfl⟩ := EStateM.Result.ok.inj hadd
    rw [Store.addRow, hs]
  · simp only [hnode] at hadd
    cases hadd

/-- A row that has been added behind the others has got a place and the next number. -/
theorem insertProperty_ok (hs : s.foreign = none) {now : Int} {node field : NodeId}
    {raw : String} {order : Option Int} {p : Property}
    (h : insertProperty now node field raw order s = .ok p s') :
    ∃ number place, s' = s.addRow number (newRow now number node field raw place) := by
  cases order with
  | some place =>
    obtain ⟨number, -, hadd⟩ := insertProperty_some_ok hs h
    exact ⟨number, place, hadd⟩
  | none =>
    rw [insertProperty_none] at h
    obtain ⟨place, -, h⟩ := (Reads.ask _).ok_of_bind h
    obtain ⟨number, -, hadd⟩ := insertProperty_some_ok hs h
    exact ⟨number, place, hadd⟩

/-- Rows of a field of a node for texts, in increasing places from `first` on. -/
structure RowsFrom (node field : NodeId) (first : Int) (raws : List String)
    (rows : List PropertyRecord) : Prop where
  values : rows.map (·.value) = raws
  located : ∀ r ∈ rows, r.nodeId = .known node ∧ r.fieldId = .known field
  placed : ∀ r ∈ rows, ∃ place, r.order = .integer place ∧ first ≤ place
  ordered : rows.Pairwise fun a b => rowPrecedes a b = true

theorem RowsFrom.cons {now number : Int} {node field : NodeId} {first : Int} {raw : String}
    {raws : List String} {rows : List PropertyRecord}
    (h : RowsFrom node field (first + 1) raws rows) :
    RowsFrom node field first (raw :: raws)
      (newRow now number node field raw first :: rows) where
  values := by rw [List.map_cons, h.values]; rfl
  located := List.forall_mem_cons.mpr ⟨⟨rfl, rfl⟩, h.located⟩
  placed := by
    refine List.forall_mem_cons.mpr ⟨⟨first, rfl, Int.le_refl _⟩, fun r hr => ?_⟩
    obtain ⟨place, hplace, hle⟩ := h.placed r hr
    exact ⟨place, hplace, by omega⟩
  ordered := by
    refine List.pairwise_cons.mpr ⟨fun r hr => ?_, h.ordered⟩
    obtain ⟨place, hplace, hle⟩ := h.placed r hr
    exact rowPrecedes_of_lt rfl hplace (by omega)

theorem insertFrom_ok {now : Int} {node field : NodeId} : ∀ {raws : List String} {first : Int}
    {s s' : Store}, s.foreign = none → insertFrom now node field first raws s = .ok () s' →
      ∃ rows, s'.properties = s.properties ++ rows ∧ RowsFrom node field first raws rows
  | [], first, s, s', _, h => by
    obtain ⟨-, rfl⟩ := EStateM.Result.ok.inj h
    refine ⟨[], (List.append_nil _).symm, rfl, ?_, ?_, List.Pairwise.nil⟩
    · exact fun r hr => nomatch hr
    · exact fun r hr => nomatch hr
  | raw :: raws, first, s, s', hs, h => by
    unfold insertFrom at h
    by_cases hfirst : first < 2 ^ 63
    · simp only [hfirst, if_true] at h
      obtain ⟨p, t, hadd, h⟩ := ok_of_bind h
      obtain ⟨number, -, rfl⟩ := insertProperty_some_ok hs hadd
      obtain ⟨rows, hrows, hfrom⟩ := insertFrom_ok (s := s.addRow number _) hs h
      refine ⟨newRow now number node field raw first :: rows, ?_, hfrom.cons⟩
      rw [hrows, addRow, List.append_assoc]
      rfl
    · simp only [hfirst] at h
      cases h

/-- Of rows that have been removed none is left. -/
theorem filter_removeRows_self (s : Store) (node field : NodeId) :
    (s.removeRows node field).properties.filter
      (fun r => r.nodeId == .known node && r.fieldId == .known field) = [] := by
  rw [removeRows, List.filter_filter, List.filter_eq_nil_iff]
  simp

/-- The rows that replace those of a field hold the texts in their order. -/
theorem replaceFieldProperties_ok (hs : s.foreign = none) {now : Int} {node field : NodeId}
    {raws : List String} {first : Int}
    (h : replaceFieldProperties now node field raws first s = .ok () s') :
    s'.texts node field = raws := by
  obtain ⟨_, t, hdelete, h⟩ := ok_of_bind (ok_of_atomically h)
  have ht : t = s.removeRows node field := (EStateM.Result.ok.inj hdelete).2.symm
  obtain ⟨rows, hrows, hfrom⟩ := insertFrom_ok (s := t) (by rw [ht]; exact hs) h
  -- Nothing is left of the field but the new rows, and they stand in their order already.
  have hgone : t.properties.filter (fun r => r.nodeId == .known node && r.fieldId == .known field) =
      [] := by
    rw [ht, filter_removeRows_self]
  have hkept : rows.filter (fun r => r.nodeId == .known node && r.fieldId == .known field) =
      rows :=
    List.filter_eq_self.mpr fun r hr => by simp [hfrom.located r hr]
  rw [texts, fieldRecords, hrows, List.filter_append, hgone, hkept, List.nil_append, inOrder,
    List.mergeSort_of_pairwise hfrom.ordered, hfrom.values]

/-- Noting a change of a node leaves the rows. -/
theorem touchNode_properties (now : Int) (id : NodeId) :
    ((touchNode now id).after s).properties = s.properties := by
  rw [after_touchNode]
  rfl

/-! ## Checks -/

theorem requireLive_of {node : NodeId} {n : Node} (h : s.node? node = .ok (some n)) :
    requireLive node s = .ok n s := by
  unfold requireLive
  rw [bind_of_ok (ask_of_ok (·.node? node) h)]
  rfl

theorem requireField_of {field : String} {n : Node} (h : s.findLive? field = .ok (some n)) :
    requireField field s = .ok n s := by
  unfold requireField
  rw [bind_of_ok (ask_of_ok (·.findLive? field) h)]
  rfl

theorem requireSupertag_of {supertag : String} {n : Node}
    (h : s.findLive? supertag = .ok (some n)) : requireSupertag supertag s = .ok n s := by
  unfold requireSupertag
  rw [bind_of_ok (ask_of_ok (·.findLive? supertag) h)]
  rfl

theorem encode_of {value : PropertyValue} {raw : String} (h : value.encode? = some raw) :
    encode value s = .ok raw s := by
  unfold encode
  simp only [h]
  rfl

theorem checkTypes_ok {field : String} {type : Option FieldType} {values : List PropertyValue}
    (h : checkTypes field type values s = .ok () s') :
    type.all (fun t => values.all (·.conformsTo t)) = true := by
  unfold checkTypes at h
  cases type with
  | none => rfl
  | some type =>
    by_cases hall : values.all (·.conformsTo type)
    · exact hall
    · simp only [hall] at h
      cases h

theorem checkTypes_of {field : String} {type : Option FieldType} {values : List PropertyValue}
    (h : type.all (fun t => values.all (·.conformsTo t)) = true) :
    checkTypes field type values s = .ok () s := by
  unfold checkTypes
  cases type with
  | none => rfl
  | some type =>
    have hall : values.all (·.conformsTo type) = true := h
    simp only [hall, if_true]
    rfl

theorem checkParents_of {supertag : NodeId} : ∀ {parents : List NodeId},
    (∀ parent ∈ parents, s.wouldCreateCycle supertag parent = .ok false) →
      checkParents supertag parents s = .ok () s
  | [], _ => rfl
  | parent :: rest, h => by
    obtain ⟨hfirst, hrest⟩ := List.forall_mem_cons.mp h
    unfold checkParents
    rw [bind_of_ok (ask_of_ok (·.wouldCreateCycle supertag parent) hfirst)]
    exact checkParents_of hrest

theorem checkExtends_of {node : NodeId} {field : Node} {values : List PropertyValue}
    (h : field.systemId = some Handle.fieldExtends →
      ∀ parent ∈ values.flatMap (·.referenced), s.wouldCreateCycle node parent = .ok false) :
    checkExtends node field values s = .ok () s := by
  unfold checkExtends
  by_cases hfield : field.systemId = some Handle.fieldExtends
  · rw [if_pos hfield]
    exact checkParents_of (h hfield)
  · rw [if_neg hfield]
    rfl

/-! ## Writing a value -/

/-- A field of a type takes one value, that type if it has one. -/
def TakesOne (type : Option FieldType) : Prop :=
  type.any (·.isMultiValued) = false

theorem takesOne_of_ne {type : Option FieldType} (h : type ≠ some .nodes) : TakesOne type := by
  rcases type with _ | type
  · rfl
  · cases type with
    | nodes => exact absurd rfl h
    | _ => rfl

/-- A field whose type admits a value that is no reference takes one value. -/
theorem takesOne_of_conforms {type : Option FieldType} {value : PropertyValue}
    (hvalue : value.conformsTo .nodes = false) (h : type.all (value.conformsTo ·) = true) :
    TakesOne type := by
  refine takesOne_of_ne fun hnodes => ?_
  rw [hnodes] at h
  cases hvalue.symm.trans h

/-- What a write of a value has checked, and what it leaves in a field that takes one value. -/
structure Sets (s s' : Store) (node : NodeId) (value : PropertyValue) (field : String)
    (fieldNode : Node) (type : Option FieldType) : Prop where
  admits : s.Admits node field [value] fieldNode
  declared : s.fieldType? fieldNode.id = .ok type
  conforms : type.all (value.conformsTo ·) = true
  written : TakesOne type → ∃ raw, value.encode? = some raw ∧ s'.texts node fieldNode.id = [raw]

theorem texts_of_isSettled {rows : List Property} {raw : String} {order : Option Int}
    (h : isSettled rows raw order = true) : rows.map (·.value) = [raw] := by
  unfold isSettled at h
  split at h
  · next row =>
    rw [Bool.and_eq_true, beq_iff_eq] at h
    rw [List.map_singleton, h.1]
  · cases h

theorem setProperty_ok (hs : s.Sound) {now : Int} {node : NodeId} {field : String}
    {value : PropertyValue} {order : Option Int}
    (h : setProperty now node field value order s = .ok () s') :
    ∃ fieldNode type, Sets s s' node value field fieldNode type := by
  obtain ⟨n, hlive, h⟩ := (requireLive_reads node).ok_of_bind h
  obtain ⟨fieldNode, hfound, h⟩ := (requireField_reads field).ok_of_bind h
  obtain ⟨type, htype, h⟩ := (Reads.ask _).ok_of_bind h
  obtain ⟨_, hconforms, h⟩ := (checkTypes_reads field type [value]).ok_of_bind h
  obtain ⟨_, hguard, h⟩ := (checkExtends_reads node fieldNode [value]).ok_of_bind h
  refine ⟨fieldNode, type, ⟨⟨n, requireLive_ok hlive⟩, requireField_ok hfound,
    checkExtends_ok hguard⟩, ask_ok htype, ?_, fun hone => ?_⟩
  · simpa using checkTypes_ok hconforms
  rw [TakesOne] at hone
  rw [hone] at h
  obtain ⟨raw, hraw, h⟩ := (encode_reads value).ok_of_bind h
  obtain ⟨rows, hrows, h⟩ := (Reads.ask _).ok_of_bind h
  obtain ⟨rows', hrows', htexts⟩ := hs.exists_fieldRows node fieldNode.id
  obtain rfl : rows' = rows := Except.ok.inj (hrows'.symm.trans (ask_ok hrows))
  refine ⟨raw, encode_ok hraw, ?_⟩
  by_cases hsettled : isSettled rows' raw order
  · rw [if_pos hsettled] at h
    obtain ⟨-, rfl⟩ := EStateM.Result.ok.inj h
    rw [← htexts, texts_of_isSettled hsettled]
  · rw [if_neg hsettled] at h
    obtain ⟨_, t, hreplace, htouch⟩ := ok_of_bind h
    have hrows : s'.properties = t.properties := by
      rw [← after_of_ok htouch]
      exact touchNode_properties now node
    rw [← replaceFieldProperties_ok hs.native hreplace, texts, texts, fieldRecords, fieldRecords,
      hrows]

/-- What is left of a write of one value once its checks have passed. -/
theorem setProperty_checked (now : Int) {node : NodeId} {field : String}
    {value : PropertyValue} {order : Option Int} {fieldNode : Node} {type : Option FieldType}
    {raw : String} {rows : List Property} (hadmits : s.Admits node field [value] fieldNode)
    (htype : s.fieldType? fieldNode.id = .ok type)
    (hconforms : type.all (value.conformsTo ·) = true) (hone : TakesOne type)
    (hraw : value.encode? = some raw) (hrows : s.fieldPropertiesOf node fieldNode.id = .ok rows) :
    setProperty now node field value order s =
      (if isSettled rows raw order then pure () else do
        replaceFieldProperties now node fieldNode.id [raw] (order.getD 0)
        touchNode now node : Edit Unit) s := by
  obtain ⟨n, hlive⟩ := hadmits.live
  rw [TakesOne] at hone
  unfold setProperty
  rw [bind_of_ok (requireLive_of hlive), bind_of_ok (requireField_of hadmits.found),
    bind_of_ok (ask_of_ok (·.fieldType? fieldNode.id) htype),
    bind_of_ok (checkTypes_of (by simpa using hconforms)),
    bind_of_ok (checkExtends_of hadmits.guarded), hone]
  show (encode value >>= fun raw => _) s = _
  rw [bind_of_ok (encode_of hraw), bind_of_ok (ask_of_ok (·.fieldPropertiesOf node fieldNode.id)
    hrows)]

/-- A write that would leave what is there changes nothing. -/
theorem setProperty_idle (hs : s.Sound) (now : Int) {node : NodeId} {field : String}
    {value : PropertyValue} {fieldNode : Node} {type : Option FieldType} {raw : String}
    (hadmits : s.Admits node field [value] fieldNode)
    (htype : s.fieldType? fieldNode.id = .ok type)
    (hconforms : type.all (value.conformsTo ·) = true) (hone : TakesOne type)
    (hraw : value.encode? = some raw) (htexts : s.texts node fieldNode.id = [raw]) :
    setProperty now node field value none s = .ok () s := by
  obtain ⟨rows, hrows, hvalues⟩ := hs.exists_fieldRows node fieldNode.id
  have hsettled : isSettled rows raw none = true := by
    rw [htexts] at hvalues
    match rows, hvalues with
    | [row], hvalues => simpa [isSettled] using hvalues
  rw [setProperty_checked now hadmits htype hconforms hone hraw hrows, if_pos hsettled]
  rfl

/-! ## Assigning a supertag -/

/-- A stored text refers to a node. -/
def RefersTo (raw : String) (target : NodeId) : Prop :=
  ∃ value, PropertyValue.decode? raw = some value ∧ target ∈ value.referenced

theorem refersTo_iff {rows : List Property} {raws : List String} {target : NodeId}
    (h : rows.map (·.value) = raws) :
    refersTo rows target = true ↔ ∃ raw ∈ raws, RefersTo raw target := by
  rw [refersTo, Sound.decodeRows_eq h]
  simp only [List.any_eq_true, List.mem_filterMap, List.contains_iff_mem]
  constructor
  · rintro ⟨value, ⟨raw, hraw, hvalue⟩, htarget⟩
    exact ⟨raw, hraw, value, hvalue, htarget⟩
  · rintro ⟨raw, hraw, value, hvalue, htarget⟩
    exact ⟨value, ⟨raw, hraw, hvalue⟩, htarget⟩

/-- The text of a reference refers to the node. -/
theorem refersTo_of_encode? {target : NodeId} {raw : String}
    (h : (PropertyValue.node target).encode? = some raw) : RefersTo raw target := by
  refine ⟨.node target, ?_, List.mem_singleton_self target⟩
  rw [PropertyValue.decode?_of_encode? h]
  rfl

theorem attachSupertag_ok (hs : s.Sound) {now : Int} {node supertag : NodeId} {added : Bool}
    (h : attachSupertag now node supertag s = .ok added s') :
    ∃ field, s.IsLive node ∧ s.findLive? Handle.fieldSupertag = .ok (some field) ∧
      (∃ raw ∈ s'.texts node field.id, RefersTo raw supertag) ∧
      ∀ raw ∈ s.texts node field.id, raw ∈ s'.texts node field.id := by
  obtain ⟨n, hlive, h⟩ := (requireLive_reads node).ok_of_bind h
  obtain ⟨field, hfound, h⟩ := (requireField_reads _).ok_of_bind h
  obtain ⟨rows, hrows, h⟩ := (Reads.ask _).ok_of_bind h
  obtain ⟨rows', hrows', htexts⟩ := hs.exists_fieldRows node field.id
  obtain rfl : rows' = rows := Except.ok.inj (hrows'.symm.trans (ask_ok hrows))
  refine ⟨field, ⟨n, requireLive_ok hlive⟩, requireField_ok hfound, ?_⟩
  by_cases hrefers : refersTo rows' supertag
  · rw [if_pos hrefers] at h
    obtain ⟨-, rfl⟩ := EStateM.Result.ok.inj h
    exact ⟨(refersTo_iff htexts).mp hrefers, fun _ hraw => hraw⟩
  · rw [if_neg hrefers] at h
    obtain ⟨raw, hraw, h⟩ := (encode_reads _).ok_of_bind h
    obtain ⟨p, t, hadd, h⟩ := ok_of_bind h
    obtain ⟨_, u, htouch, h⟩ := ok_of_bind h
    obtain ⟨-, rfl⟩ := EStateM.Result.ok.inj h
    obtain ⟨number, place, rfl⟩ := insertProperty_ok hs.native hadd
    have hproperties : u.properties =
        s.properties ++ [newRow now number node field.id raw place] := by
      rw [← after_of_ok htouch]
      exact touchNode_properties (s := s.addRow number _) now node
    have hnew : raw ∈ u.texts node field.id :=
      mem_texts.mpr
        ⟨newRow now number node field.id raw place, by simp [hproperties], rfl, rfl, rfl⟩
    refine ⟨⟨raw, hnew, refersTo_of_encode? (encode_ok hraw)⟩, fun old hold => ?_⟩
    obtain ⟨r, hr, hat⟩ := mem_texts.mp hold
    exact mem_texts.mpr ⟨r, by simp [hproperties, hr], hat⟩

/-- A supertag that a row refers to is not assigned again. -/
theorem attachSupertag_idle (hs : s.Sound) (now : Int) {node supertag : NodeId} {field : Node}
    (hlive : s.IsLive node) (hfound : s.findLive? Handle.fieldSupertag = .ok (some field))
    (hrefers : ∃ raw ∈ s.texts node field.id, RefersTo raw supertag) :
    attachSupertag now node supertag s = .ok false s := by
  obtain ⟨n, hn⟩ := hlive
  obtain ⟨rows, hrows, hvalues⟩ := hs.exists_fieldRows node field.id
  unfold attachSupertag
  rw [bind_of_ok (requireLive_of hn), bind_of_ok (requireField_of hfound),
    bind_of_ok (ask_of_ok (·.fieldPropertiesOf node field.id) hrows),
    if_pos ((refersTo_iff hvalues).mpr hrefers)]
  rfl

end Edit

end TagGraph
