import TagGraph.Proofs.Operation
import TagGraph.Proofs.Store.Change
import TagGraph.Proofs.Store.Record

/-!
# What operations are made of

Every operation is put together from look-ups and from the edits of the tables. A relation that
composes and that those edits respect (`Store.TableLaw`) is therefore respected by every operation
(`Operation.respects`) and holds over every run (`Store.TableLaw.run`). In particular a run is a
sequence of elementary changes (`Store.run_changes`). The operations that check what they are given
respect more: what the edits of the graph respect (`Store.GraphLaw`). So do those that change neither
a content nor delete a node: what the edits of rows and those that insert nodes respect
(`Store.CreationLaw`).

An edit of one field of a node touches no other rows and no other node. It respects whatever the
edits of that field respect, with the texts that it may write (`Store.RowLaw`), once its checks have
passed (`Store.Admits`).
-/

namespace TagGraph

/-- A relation that composes and that the edits of rows respect, as long as they keep to some fields
of nodes and to some texts. The changes that are noted are those of the nodes of these fields. -/
structure Store.RowLaw (R : Store → Store → Prop) (fields : NodeId → NodeId → Prop)
    (texts : String → Prop) : Prop extends Store.Composes R where
  touchNode (now : Int) {node : NodeId} (hnode : ∃ field, fields node field) :
    Edit.Respects R (Edit.touchNode now node)
  insertProperty (now : Int) {node field : NodeId} (hfield : fields node field) {raw : String}
    (htext : texts raw) (order : Option Int) :
    Edit.Respects R (Edit.insertProperty now node field raw order)
  deleteFieldProperties {node field : NodeId} (hfield : fields node field) :
    Edit.Respects R (Edit.deleteFieldProperties node field)

/-- A relation that composes and that the edits of rows and those that insert nodes respect. -/
structure Store.CreationLaw (R : Store → Store → Prop) : Prop
    extends Store.RowLaw R (fun _ _ => True) fun _ => True where
  insertNode (now : Int) (n : NewNode) : Edit.Respects R (Edit.insertNode now n)
  insertSystemNode (now : Int) (id : NodeId) (systemId content : String) :
    Edit.Respects R (Edit.insertSystemNode now id systemId content)

/-- A relation that composes and that the edits of the tables respect. -/
structure Store.TableLaw (R : Store → Store → Prop) : Prop extends Store.CreationLaw R where
  updateContent (now : Int) (id : NodeId) (content : String) :
    Edit.Respects R (Edit.updateContent now id content)
  deleteNode (now : Int) (id : NodeId) : Edit.Respects R (Edit.deleteNode now id)

namespace Store

variable {R : Store → Store → Prop} {fields fields' : NodeId → NodeId → Prop}
  {texts texts' : String → Prop}

/-- What holds of more fields and texts holds of fewer. -/
theorem RowLaw.mono (h : RowLaw R fields texts)
    (hfields : ∀ node field, fields' node field → fields node field)
    (htexts : ∀ raw, texts' raw → texts raw) : RowLaw R fields' texts' where
  toComposes := h.toComposes
  touchNode now _ hnode := h.touchNode now (hnode.imp fun _ => hfields _ _)
  insertProperty now _ _ hfield _ htext :=
    h.insertProperty now (hfields _ _ hfield) (htexts _ htext)
  deleteFieldProperties hfield := h.deleteFieldProperties (hfields _ _ hfield)

theorem CreationLaw.rows (h : CreationLaw R) : RowLaw R fields texts :=
  h.toRowLaw.mono (fun _ _ _ => trivial) fun _ _ => trivial

/-- What relates every store to those one elementary change later is respected by the edits of the
tables. -/
theorem TableLaw.of_change {Q : Store → Store → Prop} (hQ : Composes Q)
    (h : ∀ s s', Change s s' → Q s s') : TableLaw (Natively Q) where
  toComposes := hQ.natively
  insertNode now n := Edit.insertNode_respects hQ now n fun _ hf hc => h _ _ (.addNode now n hf hc)
  insertSystemNode now id systemId content :=
    Edit.insertSystemNode_respects hQ now id systemId content fun _ hf hc =>
      h _ _ (.addNode now _ hf hc)
  updateContent now id content :=
    Edit.updateContent_respects now id content fun _ => h _ _ (.setContent now id content)
  touchNode now {id} _ := Edit.touchNode_respects now id fun _ => h _ _ (.touch now id)
  deleteNode now id := Edit.deleteNode_respects now id fun _ => h _ _ (.bury now id)
  insertProperty now node field _ raw _ order :=
    Edit.insertProperty_respects hQ now node field raw (fun _ number place hn hf hnext =>
      h _ _ (.addRow now number node field raw place hn hf hnext)) order
  deleteFieldProperties {node field} _ :=
    Edit.deleteFieldProperties_respects node field fun _ => h _ _ (.removeRows node field)

/-- The edits of the tables are sequences of elementary changes. -/
theorem TableLaw.changes : TableLaw (Natively Changes) :=
  .of_change changes_composes fun _ _ h => .single h

/-- A node that is found has been read from a row. -/
theorem exists_of_readRecord? {found : Option NodeRecord} {n : Node}
    (h : readRecord? found = .ok (some n)) : ∃ r, found = some r ∧ r.read = .ok n := by
  cases found with
  | none => cases h
  | some r =>
    cases hread : r.read with
    | error err =>
      rw [readRecord?, hread] at h
      cases h
    | ok m =>
      rw [readRecord?, hread] at h
      cases h
      exact ⟨r, rfl, hread⟩

/-- The node that has a handle has it. -/
theorem systemId_of_nodeBySystemId? {s : Store} {systemId : String} {n : Node}
    (h : s.nodeBySystemId? systemId = .ok (some n)) : n.systemId = some systemId := by
  obtain ⟨r, hfind, hread⟩ := exists_of_readRecord? h
  have hr := List.find?_some hfind
  rw [Bool.and_eq_true, beq_iff_eq] at hr
  exact (NodeRecord.of_read hread).2.trans hr.1

/-- The node that an identifier is looked up as has it. -/
theorem id_of_nodeOrTombstone? {s : Store} {id : NodeId} {n : Node}
    (h : s.nodeOrTombstone? id = .ok (some n)) : n.id = id := by
  obtain ⟨r, hfind, hread⟩ := exists_of_readRecord? h
  have hr := List.find?_some (show s.nodes.find? (·.id == StoredId.known id) = some r from hfind)
  have hid := (NodeRecord.of_read hread).1
  rw [beq_iff_eq.mp hr] at hid
  exact (Except.ok.inj hid).symm

/-- A handle that writes no identifier names the live node that has it. -/
theorem systemId_of_findLive? {s : Store} {handle : String} {n : Node}
    (htrim : Text.trim handle = handle) (hid : NodeId.ofString? handle = none)
    (h : s.findLive? handle = .ok (some n)) : n.systemId = some handle := by
  unfold findLive? at h
  simp only [htrim, hid] at h
  exact systemId_of_nodeBySystemId? h

/-- What has been checked when an edit of a field of a node comes to the rows: node and field are
live, and no reference in the values would make a supertag its own ancestor. -/
structure Admits (s : Store) (node : NodeId) (field : String) (values : List PropertyValue)
    (fieldNode : Node) : Prop where
  live : ∃ n, s.node? node = .ok (some n)
  found : s.findLive? field = .ok (some fieldNode)
  guarded : fieldNode.systemId = some Handle.fieldExtends →
    ∀ parent ∈ values.flatMap (·.referenced), s.wouldCreateCycle node parent = .ok false

end Store

/-- The texts of the rows that an edit may write for values: those of the values, and those of the
single references in them. -/
def PropertyValue.MayWrite (values : List PropertyValue) (raw : String) : Prop :=
  ∃ value ∈ values, value.encode? = some raw ∨
    ∃ reference ∈ value.referenced, (PropertyValue.node reference).encode? = some raw

namespace Edit

variable {R : Store → Store → Prop} {fields : NodeId → NodeId → Prop} {texts : String → Prop}

/-! ## Edits that only read -/

theorem requireLive_reads (node : NodeId) : Reads (requireLive node) := by
  refine (Reads.ask _).bind fun found => ?_
  cases found with
  | some n => exact Reads.pure n
  | none => exact Reads.throw _

theorem requireField_reads (field : String) : Reads (requireField field) := by
  refine (Reads.ask _).bind fun found => ?_
  cases found with
  | some n => exact Reads.pure n
  | none => exact Reads.throw _

theorem requireSupertag_reads (supertag : String) : Reads (requireSupertag supertag) := by
  refine (Reads.ask _).bind fun found => ?_
  cases found with
  | some n => exact Reads.pure n
  | none => exact Reads.throw _

theorem requireSupertags_reads (supertags : List String) : Reads (requireSupertags supertags) :=
  Reads.mapM (fun supertag => (requireSupertag_reads supertag).bind fun n => Reads.pure n.id) _

theorem encode_reads (value : PropertyValue) : Reads (encode value) := by
  unfold encode
  cases value.encode? with
  | some raw => exact Reads.pure raw
  | none => exact Reads.throw _

theorem supertagRows_reads (field : NodeId) (supertags : List NodeId) :
    Reads (supertagRows field supertags) :=
  Reads.mapM (fun _ => (encode_reads _).bind fun raw => Reads.pure (field, raw)) _

theorem checkTypes_reads (field : String) (type : Option FieldType) (values : List PropertyValue) :
    Reads (checkTypes field type values) := by
  unfold checkTypes
  cases type with
  | none => exact Reads.pure _
  | some type =>
    by_cases h : values.all (·.conformsTo type)
    · simp only [h, if_true]
      exact Reads.pure _
    · simp only [h]
      exact Reads.throw _

theorem checkParents_reads (supertag : NodeId) (parents : List NodeId) :
    Reads (checkParents supertag parents) := by
  induction parents with
  | nil => exact Reads.pure _
  | cons parent rest ih =>
    refine (Reads.ask _).bind fun closes => ?_
    cases closes with
    | true => exact (Reads.throw _).bind fun _ => ih
    | false => exact ih

theorem checkExtends_reads (node : NodeId) (field : Node) (values : List PropertyValue) :
    Reads (checkExtends node field values) := by
  unfold checkExtends
  by_cases h : field.systemId = some Handle.fieldExtends
  · rw [if_pos h]
    exact checkParents_reads node _
  · rw [if_neg h]
    exact Reads.pure _

/-! ## What the checks say -/

theorem ask_ok {α : Type} {look : Store → Reading α} {s s' : Store} {a : α}
    (h : ask look s = .ok a s') : look s = .ok a := by
  unfold ask at h
  cases hlook : look s with
  | error err => simp [hlook] at h
  | ok found =>
    simp only [hlook] at h
    obtain ⟨rfl, -⟩ := EStateM.Result.ok.inj h
    rfl

theorem ask_of_ok {α : Type} (look : Store → Reading α) {s : Store} {a : α} (h : look s = .ok a) :
    ask look s = .ok a s := by
  rw [ask, h]

/-- Where the edit has found nothing it throws, so that what it gives has been found. -/
theorem ask_require_ok (look : Store → Reading (Option Node)) {err : StoreError} {s s' : Store}
    {n : Node}
    (h : (ask look >>= fun found => match found with
      | some found => pure found
      | none => throw err : Edit Node) s = .ok n s') : look s = .ok (some n) := by
  cases hask : ask look s with
  | error err' s'' =>
    rw [bind_of_error hask] at h
    cases h
  | ok found s'' =>
    rw [bind_of_ok hask] at h
    cases found with
    | none => cases h
    | some found =>
      obtain ⟨rfl, -⟩ := EStateM.Result.ok.inj h
      exact ask_ok hask

theorem requireLive_ok {node : NodeId} {s s' : Store} {n : Node}
    (h : requireLive node s = .ok n s') : s.node? node = .ok (some n) :=
  ask_require_ok (·.node? node) h

theorem requireField_ok {field : String} {s s' : Store} {n : Node}
    (h : requireField field s = .ok n s') : s.findLive? field = .ok (some n) :=
  ask_require_ok (·.findLive? field) h

theorem encode_ok {value : PropertyValue} {s s' : Store} {raw : String}
    (h : encode value s = .ok raw s') : value.encode? = some raw := by
  unfold encode at h
  cases hraw : value.encode? with
  | none => simp only [hraw] at h; cases h
  | some found =>
    simp only [hraw] at h
    obtain ⟨rfl, -⟩ := EStateM.Result.ok.inj h
    rfl

/-- The rows of supertags refer to them, one by one. -/
theorem supertagRows_ok {field : NodeId} {supertags : List NodeId} {s s' : Store}
    {rows : List (NodeId × String)} (h : supertagRows field supertags s = .ok rows s') :
    List.Forall₂ (fun supertag row => row.1 = field ∧
      (PropertyValue.node supertag).encode? = some row.2) (Store.unseen [] supertags) rows := by
  refine (Reads.mapM_ok (fun supertag => ?_) h).imp fun supertag row hrow => ?_
  · exact (encode_reads _).bind fun raw => Reads.pure (field, raw)
  · obtain ⟨raw, hraw, hrow⟩ := (encode_reads _).ok_of_bind hrow
    obtain ⟨rfl, -⟩ := EStateM.Result.ok.inj hrow
    exact ⟨rfl, encode_ok hraw⟩

/-- The parents that pass would not make the supertag its own ancestor. -/
theorem checkParents_ok {supertag : NodeId} {parents : List NodeId} {s s' : Store}
    (h : checkParents supertag parents s = .ok () s') :
    ∀ parent ∈ parents, s.wouldCreateCycle supertag parent = .ok false := by
  induction parents with
  | nil => exact fun _ hparent => nomatch hparent
  | cons first rest ih =>
    have hask : ∃ closes, ask (·.wouldCreateCycle supertag first) s = .ok closes s := by
      cases hclosed : ask (·.wouldCreateCycle supertag first) s with
      | error err t =>
        unfold checkParents at h
        rw [bind_of_error hclosed] at h
        cases h
      | ok closes t => exact ⟨closes, by rw [(Reads.ask _).eq_of_ok hclosed]⟩
    obtain ⟨closes, hclosed⟩ := hask
    unfold checkParents at h
    rw [bind_of_ok hclosed] at h
    cases closes with
    | true => cases h
    | false =>
      intro parent hparent
      rcases List.mem_cons.mp hparent with rfl | hrest
      · exact ask_ok hclosed
      · exact ih h parent hrest

theorem checkExtends_ok {node : NodeId} {field : Node} {values : List PropertyValue}
    {s s' : Store} (h : checkExtends node field values s = .ok () s')
    (hfield : field.systemId = some Handle.fieldExtends) :
    ∀ parent ∈ values.flatMap (·.referenced), s.wouldCreateCycle node parent = .ok false := by
  unfold checkExtends at h
  rw [if_pos hfield] at h
  exact checkParents_ok h

/-! ## Edits of the tables in sequence -/

theorem insertFrom_respects (h : Store.RowLaw R fields texts) (now : Int) {node field : NodeId}
    (hfield : fields node field) {raws : List String} (htexts : ∀ raw ∈ raws, texts raw) :
    ∀ first, Respects R (insertFrom now node field first raws) := by
  induction raws with
  | nil => exact fun _ => .of_reads h.toComposes (Reads.pure _)
  | cons raw raws ih =>
    intro first
    have hrest : Respects R (do
        let _ ← insertProperty now node field raw (some first)
        insertFrom now node field (first + 1) raws) :=
      (h.insertProperty now hfield (htexts raw List.mem_cons_self) (some first)).bind h.toComposes
        fun _ => ih (fun raw hraw => htexts raw (List.mem_cons_of_mem _ hraw)) (first + 1)
    unfold insertFrom
    by_cases hfirst : first < 2 ^ 63
    · simp only [hfirst, if_true]
      exact hrest
    · simp only [hfirst]
      exact Respects.reads_bind h.toComposes (Reads.throw _) fun _ => hrest

theorem replaceFieldProperties_respects (h : Store.RowLaw R fields texts) (now : Int)
    {node field : NodeId} (hfield : fields node field) {raws : List String}
    (htexts : ∀ raw ∈ raws, texts raw) (first : Int) :
    Respects R (replaceFieldProperties now node field raws first) :=
  ((h.deleteFieldProperties hfield).bind h.toComposes fun _ =>
    insertFrom_respects h now hfield htexts first).atomically h.toComposes

/-- A node that has been created has the identifier of the request. -/
theorem insertNode_id {now : Int} {n : NewNode} {s s' : Store} {node : Node}
    (h : insertNode now n s = .ok node s') : node.id = n.id := by
  unfold insertNode at h
  cases hf : n.fault? with
  | some fault =>
    simp only [hf] at h
    cases h
  | none =>
    simp only [hf] at h
    obtain ⟨_, t, -, h⟩ := ok_of_bind h
    obtain ⟨found, hfound, h⟩ := (Reads.ask _).ok_of_bind h
    cases found with
    | none => cases h
    | some found =>
      obtain ⟨rfl, -⟩ := EStateM.Result.ok.inj h
      exact Store.id_of_nodeOrTombstone? (ask_ok hfound)

/-- The rows that come with a new node are rows of that node. -/
theorem insertNodeWithProperties_respects (h : Store.RowLaw R fields texts) (now : Int)
    (n : NewNode) (hnode : Respects R (insertNode now n)) {rows : List (NodeId × String)}
    (hrows : ∀ row ∈ rows, fields n.id row.1 ∧ texts row.2) :
    Respects R (insertNodeWithProperties now n rows) := by
  have hC := h.toComposes
  refine Respects.atomically hC fun s => rel_after_bind hC (hnode s) fun node s' hcreated => ?_
  refine ((Respects.forIn hC rows fun row hrow => ?_).bind hC fun _ =>
    .of_reads hC (Reads.pure node)) s'
  obtain ⟨hfield, htext⟩ := hrows row hrow
  rw [← insertNode_id hcreated] at hfield
  exact (h.insertProperty now hfield htext none).bind hC fun _ => .of_reads hC (Reads.pure _)

theorem appendReferences_respects (h : Store.RowLaw R fields texts) (now : Int)
    {node field : NodeId} (hfield : fields node field) {references : List NodeId}
    (htexts : ∀ reference ∈ references, ∀ raw,
      (PropertyValue.node reference).encode? = some raw → texts raw) :
    ∀ order, Respects R (appendReferences now node field order references) := by
  induction references with
  | nil => exact fun _ => .of_reads h.toComposes (Reads.pure _)
  | cons reference rest ih =>
    have hrest := ih fun r hr => htexts r (List.mem_cons_of_mem _ hr)
    intro order s
    refine rel_after_bind h.toComposes ?_ fun raw s' hraw => ?_
    · rw [encode_reads _ s]
      exact h.refl s
    have htext := htexts reference List.mem_cons_self raw (encode_ok hraw)
    refine ((h.insertProperty now hfield htext order).bind h.toComposes fun _ => ?_) s'
    cases order with
    | none => exact hrest none
    | some place =>
      show Respects R (if place + 1 < 2 ^ 63 then _ else _)
      by_cases hplace : place + 1 < 2 ^ 63
      · rw [if_pos hplace]
        exact hrest (some (place + 1))
      · rw [if_neg hplace]
        exact .of_reads h.toComposes (Reads.throw _)

/-! ## Edits of one field -/

/-- On a store the edit changes nothing or, once its checks have passed, nothing but rows of the
field, with texts for the values, and the time of the last change of the node. -/
def EditsField {α : Type} (e : Edit α) (s : Store) (node : NodeId) (field : String)
    (values : List PropertyValue) : Prop :=
  e.after s = s ∨ ∃ fieldNode, s.Admits node field values fieldNode ∧
    ∀ R, Store.RowLaw R (fun n f => n = node ∧ f = fieldNode.id) (PropertyValue.MayWrite values) →
      R s (e.after s)

namespace EditsField

variable {α β : Type} {s : Store} {node : NodeId} {field : String} {values : List PropertyValue}

theorem reads_bind {e : Edit α} {f : α → Edit β} (he : Reads e)
    (hf : ∀ a, e s = .ok a s → EditsField (f a) s node field values) :
    EditsField (e >>= f) s node field values := by
  rcases he.after_bind f s with h | ⟨a, ha, h⟩
  · exact Or.inl h
  · unfold EditsField
    rw [h]
    exact hf a ha

/-- An edit of one field respects whatever all edits of the tables respect. -/
theorem rel {e : Edit α} (he : EditsField e s node field values) (h : Store.CreationLaw R) :
    R s (e.after s) := by
  rcases he with hs | ⟨fieldNode, -, hrows⟩
  · rw [hs]
    exact h.refl s
  · exact hrows R h.rows

end EditsField

theorem setProperty_editsField (now : Int) (node : NodeId) (field : String)
    (value : PropertyValue) (order : Option Int) (s : Store) :
    EditsField (setProperty now node field value order) s node field [value] := by
  refine .reads_bind (requireLive_reads node) fun _ hlive => ?_
  refine .reads_bind (requireField_reads field) fun fieldNode hfound => ?_
  refine .reads_bind (Reads.ask _) fun type _ => ?_
  refine .reads_bind (checkTypes_reads field type [value]) fun _ _ => ?_
  refine .reads_bind (checkExtends_reads node fieldNode [value]) fun _ hguard => ?_
  refine Or.inr ⟨fieldNode, ⟨⟨_, requireLive_ok hlive⟩, requireField_ok hfound,
    checkExtends_ok hguard⟩, fun R h => ?_⟩
  have hC := h.toComposes
  by_cases htype : type.any (·.isMultiValued)
  · rw [if_pos htype]
    refine ((appendReferences_respects h now ⟨rfl, rfl⟩ ?_ order).bind hC fun _ =>
      h.touchNode now ⟨_, rfl, rfl⟩) s
    exact fun reference hreference raw hraw =>
      ⟨value, List.mem_singleton_self value, Or.inr ⟨reference, hreference, hraw⟩⟩
  · rw [if_neg htype]
    refine rel_after_bind hC ?_ fun raw s' hraw => ?_
    · rw [encode_reads value s]
      exact hC.refl s
    refine (Respects.reads_bind hC (Reads.ask _) fun rows => ?_) s'
    -- What is stored already is not written again.
    by_cases hsettled : isSettled rows raw order
    · rw [if_pos hsettled]
      exact .of_reads hC (Reads.pure _)
    · rw [if_neg hsettled]
      refine (replaceFieldProperties_respects h now ⟨rfl, rfl⟩ ?_ (order.getD 0)).bind hC fun _ =>
        h.touchNode now ⟨_, rfl, rfl⟩
      intro written hwritten
      obtain rfl := List.mem_singleton.mp hwritten
      exact ⟨value, List.mem_singleton_self value, Or.inl (encode_ok hraw)⟩

theorem setPropertyValues_editsField (now : Int) (node : NodeId) (field : String)
    (values : List PropertyValue) (s : Store) :
    EditsField (setPropertyValues now node field values) s node field values := by
  refine .reads_bind (requireLive_reads node) fun _ hlive => ?_
  refine .reads_bind (requireField_reads field) fun fieldNode hfound => ?_
  refine .reads_bind (Reads.ask _) fun type _ => ?_
  refine .reads_bind (checkTypes_reads field type values) fun _ _ => ?_
  refine .reads_bind (checkExtends_reads node fieldNode values) fun _ hguard => ?_
  refine .reads_bind (Reads.mapM encode_reads values) fun raws hraws => ?_
  refine Or.inr ⟨fieldNode, ⟨⟨_, requireLive_ok hlive⟩, requireField_ok hfound,
    checkExtends_ok hguard⟩, fun R h => ?_⟩
  refine ((replaceFieldProperties_respects h now ⟨rfl, rfl⟩ ?_ 0).bind h.toComposes fun _ =>
    h.touchNode now ⟨_, rfl, rfl⟩) s
  intro raw hraw
  obtain ⟨value, hvalue, hencoded⟩ := exists_paired (Reads.mapM_ok encode_reads hraws) raw hraw
  exact ⟨value, hvalue, Or.inl (encode_ok hencoded)⟩

theorem removeProperty_editsField (now : Int) (node : NodeId) (field : String) (s : Store) :
    EditsField (removeProperty now node field) s node field [] := by
  refine .reads_bind (requireLive_reads node) fun _ hlive => ?_
  refine .reads_bind (requireField_reads field) fun fieldNode hfound => ?_
  refine Or.inr ⟨fieldNode, ⟨⟨_, requireLive_ok hlive⟩, requireField_ok hfound,
    fun _ _ hparent => nomatch hparent⟩, fun R h => ?_⟩
  have hC := h.toComposes
  refine ((h.deleteFieldProperties ⟨rfl, rfl⟩).bind hC fun removed => ?_) s
  by_cases hremoved : 0 < removed
  · simp only [hremoved, if_true]
    exact (h.touchNode now ⟨_, rfl, rfl⟩).bind hC fun _ => .of_reads hC (Reads.pure removed)
  · simp only [hremoved]
    exact .of_reads hC (Reads.pure removed)

theorem attachSupertag_editsField (now : Int) (node supertag : NodeId) (s : Store) :
    EditsField (attachSupertag now node supertag) s node Handle.fieldSupertag
      [.node supertag] := by
  refine .reads_bind (requireLive_reads node) fun _ hlive => ?_
  refine .reads_bind (requireField_reads _) fun field hfound => ?_
  refine .reads_bind (Reads.ask _) fun rows _ => ?_
  by_cases hrows : refersTo rows supertag
  · rw [if_pos hrows]
    exact Or.inl rfl
  rw [if_neg hrows]
  refine .reads_bind (encode_reads _) fun raw hraw => ?_
  have hhandle := Store.systemId_of_findLive? (by decide +kernel) (by decide +kernel)
    (requireField_ok hfound)
  -- The field of supertags is not the one that the guard watches.
  refine Or.inr ⟨field, ⟨⟨_, requireLive_ok hlive⟩, requireField_ok hfound, fun hextends => ?_⟩,
    fun R h => ?_⟩
  · rw [hhandle] at hextends
    exact absurd hextends (by decide)
  · have hC := h.toComposes
    have htext : PropertyValue.MayWrite [.node supertag] raw :=
      ⟨_, List.mem_singleton_self _, Or.inl (encode_ok hraw)⟩
    refine ((h.insertProperty now ⟨rfl, rfl⟩ htext none).bind hC fun _ => ?_) s
    exact (h.touchNode now ⟨_, rfl, rfl⟩).bind hC fun _ => .of_reads hC (Reads.pure true)

/-! ## Edits of the graph -/

/-- The rows that come with a node assign its supertags. -/
theorem createNode_respects (h : Store.RowLaw R fields texts) (now : Int) (n : NewNode)
    (hnode : Respects R (insertNode now n)) (hrows : ∀ field raw, fields n.id field ∧ texts raw) :
    Respects R (createNode now n) := by
  have hC := h.toComposes
  have hinsert : ∀ rows, Respects R (do
      return (← insertNodeWithProperties now n rows).id : Edit NodeId) := fun rows =>
    (insertNodeWithProperties_respects h now n hnode fun row _ => hrows row.1 row.2).bind hC
      fun node => .of_reads hC (Reads.pure node.id)
  unfold createNode
  by_cases hn : n.supertags.isEmpty
  · simp only [hn, if_true]
    exact Respects.reads_bind hC (Reads.pure []) hinsert
  · simp only [hn]
    refine Respects.reads_bind hC (requireField_reads _) fun field => ?_
    refine Respects.reads_bind hC (requireSupertags_reads _) fun supertags => ?_
    exact Respects.reads_bind hC (supertagRows_reads field.id supertags) hinsert

end Edit

/-- A relation that composes and that the edits of fields and those that create nodes respect. -/
structure Store.FieldLaw (R : Store → Store → Prop) : Prop extends Store.Composes R where
  editsField {α : Type} {e : Edit α} {s : Store} {node : NodeId} {field : String}
    {values : List PropertyValue} (he : Edit.EditsField e s node field values) : R s (e.after s)
  createNode (now : Int) (n : NewNode) : Edit.Respects R (Edit.createNode now n)
  insertSystemNode (now : Int) (id : NodeId) (systemId content : String) :
    Edit.Respects R (Edit.insertSystemNode now id systemId content)

/-- A relation that composes and that the edits of the graph respect. They keep to live nodes, so
that more relations are among these than among those that all edits of the tables respect. -/
structure Store.GraphLaw (R : Store → Store → Prop) : Prop extends Store.FieldLaw R where
  updateContent (now : Int) (id : NodeId) (content : String) :
    Edit.Respects R (Edit.updateContent now id content)
  deleteNode (now : Int) (id : NodeId) : Edit.Respects R (Edit.deleteNode now id)

namespace Store

variable {R : Store → Store → Prop}

/-- What the edits of rows and those that insert nodes respect is respected by the edits of fields
and those that create nodes. -/
theorem CreationLaw.fields (h : CreationLaw R) : FieldLaw R where
  toComposes := h.toComposes
  editsField he := he.rel h
  createNode now n := Edit.createNode_respects h.toRowLaw now n (h.insertNode now n) fun _ _ =>
    ⟨trivial, trivial⟩
  insertSystemNode := h.insertSystemNode

/-- What the edits of the tables respect is respected by those of the graph. -/
theorem TableLaw.graph (h : TableLaw R) : GraphLaw R where
  toFieldLaw := h.fields
  updateContent := h.updateContent
  deleteNode := h.deleteNode

/-- The edits of the graph are sequences of elementary changes. -/
theorem GraphLaw.changes : GraphLaw (Natively Changes) :=
  TableLaw.changes.graph

/-- So are the edits of fields. -/
theorem FieldLaw.changes : FieldLaw (Natively Changes) :=
  GraphLaw.changes.toFieldLaw

end Store

namespace Edit

variable {R : Store → Store → Prop}

theorem setProperty_respects (h : Store.FieldLaw R) (now : Int) (node : NodeId) (field : String)
    (value : PropertyValue) (order : Option Int) :
    Respects R (setProperty now node field value order) :=
  fun s => h.editsField (setProperty_editsField now node field value order s)

theorem setPropertyValues_respects (h : Store.FieldLaw R) (now : Int) (node : NodeId)
    (field : String) (values : List PropertyValue) :
    Respects R (setPropertyValues now node field values) :=
  fun s => h.editsField (setPropertyValues_editsField now node field values s)

theorem removeProperty_respects (h : Store.FieldLaw R) (now : Int) (node : NodeId)
    (field : String) : Respects R (removeProperty now node field) :=
  fun s => h.editsField (removeProperty_editsField now node field s)

theorem attachSupertag_respects (h : Store.FieldLaw R) (now : Int) (node supertag : NodeId) :
    Respects R (attachSupertag now node supertag) :=
  fun s => h.editsField (attachSupertag_editsField now node supertag s)

theorem addSupertag_respects (h : Store.FieldLaw R) (now : Int) (node : NodeId)
    (supertag : String) : Respects R (addSupertag now node supertag) :=
  Respects.reads_bind h.toComposes (requireSupertag_reads supertag) fun found =>
    attachSupertag_respects h now node found.id

theorem setSupertags_respects (h : Store.FieldLaw R) (now : Int) (node : NodeId)
    (supertags : List String) : Respects R (setSupertags now node supertags) :=
  Respects.reads_bind h.toComposes (requireSupertags_reads supertags) fun ids =>
    setPropertyValues_respects h now node _ (ids.map .node)

/-! ## Edits of saved queries -/

theorem dropCache_respects (h : Store.FieldLaw R) (now : Int) (node : NodeId) :
    Respects R (dropCache now node) :=
  (removeProperty_respects h now node _).bind h.toComposes fun _ =>
    (removeProperty_respects h now node _).bind h.toComposes fun _ =>
      .of_reads h.toComposes (Reads.pure _)

theorem keepCache_respects (h : Store.FieldLaw R) (now : Int) (node : NodeId)
    (ids : List NodeId) : Respects R (keepCache now node ids) :=
  (setPropertyValues_respects h now node _ _).bind h.toComposes fun _ =>
    setProperty_respects h now node _ _ none

theorem saveQuery_respects (h : Store.FieldLaw R) (now : Int) (node : NodeId)
    (d : QueryDefinition) : Respects R (saveQuery now node d) := by
  unfold saveQuery
  cases hd : d.fault? with
  | some fault =>
    intro s
    simp only [after_throw_bind]
    exact h.refl s
  | none =>
    exact (setProperty_respects h now node _ _ none).bind h.toComposes fun _ =>
      dropCache_respects h now node

theorem runSaved_respects (h : Store.FieldLaw R) (now : Int) (node : NodeId) (refresh : Bool) :
    Respects R (runSaved now node refresh) := by
  refine Respects.reads_bind h.toComposes (Reads.ask _) fun page => ?_
  cases refresh with
  | false => exact .of_reads h.toComposes (Reads.pure page)
  | true =>
    exact (keepCache_respects h now node page.nodeIds).bind h.toComposes fun _ =>
      .of_reads h.toComposes (Reads.pure page)

end Edit

/-! ## Seeding -/

namespace Seeding

variable {R : Store → Store → Prop} {α β : Type}

/-- What a part of the seeding leaves, whether it fails or not. -/
def after (m : Seeding α) (state : SeedState) : SeedState :=
  match m state with
  | .ok _ state' => state'
  | .error _ state' => state'

theorem bind_of_ok {m : Seeding α} {f : α → Seeding β} {state state' : SeedState} {a : α}
    (h : m state = .ok a state') : (m >>= f) state = f a state' := by
  show EStateM.bind m f state = f a state'
  rw [EStateM.bind, h]

theorem after_bind_of_ok {m : Seeding α} {f : α → Seeding β} {state state' : SeedState} {a : α}
    (h : m state = .ok a state') : (m >>= f).after state = (f a).after state' := by
  unfold after
  rw [bind_of_ok h]

theorem after_bind_of_error {m : Seeding α} {f : α → Seeding β} {state state' : SeedState}
    {err : StoreError} (h : m state = .error err state') : (m >>= f).after state = state' := by
  have hrun : (m >>= f) state = .error err state' := by
    show EStateM.bind m f state = .error err state'
    rw [EStateM.bind, h]
  rw [after, hrun]

/-- A part of the seeding that relates each store to the one that it leaves. -/
def Respects (R : Store → Store → Prop) (m : Seeding α) : Prop :=
  ∀ state, R state.store (m.after state).store

theorem pure_respects (h : Store.Composes R) (a : α) : Respects R (pure a : Seeding α) :=
  fun state => h.refl state.store

theorem bind_respects (h : Store.Composes R) {m : Seeding α} {f : α → Seeding β}
    (hm : Respects R m) (hf : ∀ a, Respects R (f a)) : Respects R (m >>= f) := by
  intro state
  have hfirst := hm state
  unfold after at hfirst
  cases hrun : m state with
  | ok a state' =>
    rw [hrun] at hfirst
    rw [after_bind_of_ok hrun]
    exact h.trans hfirst (hf a state')
  | error err state' =>
    rw [hrun] at hfirst
    rw [after_bind_of_error hrun]
    exact hfirst

theorem edit_respects {e : Edit α} (he : Edit.Respects R e) : Respects R (edit e) := by
  intro state
  have hs := he state.store
  unfold Edit.after at hs
  unfold after edit
  cases hrun : e state.store with
  | ok a s => rw [hrun] at hs; exact hs
  | error err s => rw [hrun] at hs; exact hs

/-- What is required has been noted. -/
theorem require_eq (systemId : String) (state : SeedState) :
    require systemId state =
      match state.context.id? systemId with
      | some id => .ok id state
      | none => .error (.corrupt (.missingCatalogueNode systemId)) state := by
  have hget : (get : Seeding SeedState) state = .ok state state := rfl
  unfold require
  rw [bind_of_ok hget]
  cases state.context.id? systemId <;> rfl

theorem require_respects (h : Store.Composes R) (systemId : String) :
    Respects R (require systemId) := by
  intro state
  have hstate : (require systemId).after state = state := by
    rw [after, require_eq]
    cases state.context.id? systemId <;> rfl
  rw [hstate]
  exact h.refl state.store

theorem draw_respects (h : Store.Composes R) (fresh : Nat → NodeId) :
    Respects R (draw fresh) :=
  fun state => h.refl state.store

theorem note_respects (h : Store.Composes R) (systemId : String) (id : NodeId) (created : Bool) :
    Respects R (note systemId id created) :=
  fun state => h.refl state.store

theorem step_respects (h : Store.FieldLaw R) (now : Int) (fresh : Nat → NodeId)
    (step : SeedStep) : Respects R (Seeding.step now fresh step) := by
  have hC := h.toComposes
  cases step with
  | create systemId content =>
    refine bind_respects hC (draw_respects hC fresh) fun id => ?_
    refine bind_respects hC (edit_respects (h.insertSystemNode now id systemId content)) ?_
    exact fun found => note_respects hC systemId found.1 found.2
  | declare field type =>
    refine bind_respects hC (require_respects hC field) fun id => ?_
    exact edit_respects (Edit.setProperty_respects h now id _ _ none)
  | assign node supertag =>
    refine bind_respects hC (require_respects hC node) fun id => ?_
    refine bind_respects hC (require_respects hC supertag) fun tag => ?_
    exact bind_respects hC (edit_respects (Edit.attachSupertag_respects h now id tag)) fun _ =>
      pure_respects hC _
  | inherit supertag parent =>
    refine bind_respects hC (require_respects hC supertag) fun id => ?_
    refine bind_respects hC (require_respects hC parent) fun parentId => ?_
    exact edit_respects (Edit.setProperty_respects h now id _ _ none)
  | save query definition =>
    refine bind_respects hC (require_respects hC query) fun id => ?_
    refine bind_respects hC (edit_respects (.of_reads hC (Edit.Reads.ask _))) fun value => ?_
    by_cases hvalue : value.isNone
    · rw [if_pos hvalue]
      exact edit_respects (Edit.setProperty_respects h now id _ _ none)
    · rw [if_neg hvalue]
      exact pure_respects hC _

theorem steps_respects (h : Store.FieldLaw R) (now : Int) (fresh : Nat → NodeId)
    (plan : List SeedStep) : Respects R (steps now fresh plan) := by
  induction plan with
  | nil => exact pure_respects h.toComposes _
  | cons step rest ih =>
    exact bind_respects h.toComposes (step_respects h now fresh step) fun _ => ih

theorem all_respects (h : Store.FieldLaw R) (now : Int) (fresh : Nat → NodeId) :
    Respects R (all now fresh) := by
  have hC := h.toComposes
  refine bind_respects hC (steps_respects h now fresh _) fun _ => ?_
  refine bind_respects hC (fun state => hC.refl state.store) fun state => ?_
  exact bind_respects hC (edit_respects (.of_reads hC (Edit.Reads.ask _))) fun _ =>
    pure_respects hC _

end Seeding

/-- Seeding leaves a store as it was or with what all the parts have left. -/
theorem Edit.after_bootstrap (now : Int) (fresh : Nat → NodeId) (s : Store) :
    (Edit.bootstrap now fresh).after s = s ∨
      (Edit.bootstrap now fresh).after s = ((Seeding.all now fresh).after ⟨s, .empty⟩).store := by
  rcases after_atomically _ s with h | h
  · exact Or.inl h
  · refine Or.inr (h.trans ?_)
    unfold Edit.after Seeding.after Store.seed
    cases hrun : Seeding.all now fresh ⟨s, .empty⟩ <;> simp only [hrun]

theorem Edit.bootstrap_respects {R : Store → Store → Prop} (h : Store.FieldLaw R) (now : Int)
    (fresh : Nat → NodeId) : Edit.Respects R (Edit.bootstrap now fresh) := by
  intro s
  rcases after_bootstrap now fresh s with hsame | hall
  · rw [hsame]
    exact h.refl s
  · rw [hall]
    exact Seeding.all_respects h now fresh ⟨s, .empty⟩

/-! ## Operations and runs -/

section

variable {R : Store → Store → Prop}

theorem Edit.discard_respects {α : Type} {e : Edit α} (he : Edit.Respects R e) :
    Edit.Respects R (discard e) := by
  intro s
  rw [Edit.after_discard]
  exact he s

/-- An edit of the tables that sets no time of change to its own. -/
theorem TableEdit.respects_of_creation (h : Store.CreationLaw R) (now : Int) {e : TableEdit}
    (he : e.overwritten? = none) : Edit.Respects R (e.edit now) := by
  cases e with
  | insertNode n => exact Edit.discard_respects (h.insertNode now n)
  | insertNodeWithProperties n rows =>
    exact Edit.discard_respects (Edit.insertNodeWithProperties_respects h.toRowLaw now n
      (h.insertNode now n) fun _ _ => ⟨trivial, trivial⟩)
  | insertSystemNode id systemId content =>
    exact Edit.discard_respects (h.insertSystemNode now id systemId content)
  | updateContent id content => cases he
  | touchNode id => exact h.touchNode now ⟨id, trivial⟩
  | deleteNode id => cases he
  | insertProperty node field raw order =>
    exact Edit.discard_respects (h.insertProperty now trivial trivial order)
  | deleteFieldProperties node field =>
    exact Edit.discard_respects (h.deleteFieldProperties trivial)
  | replaceFieldProperties node field raws first =>
    exact Edit.replaceFieldProperties_respects h.toRowLaw now trivial (fun _ _ => trivial) first

theorem TableEdit.respects (h : Store.TableLaw R) (now : Int) (e : TableEdit) :
    Edit.Respects R (e.edit now) := by
  cases e with
  | updateContent id content => exact h.updateContent now id content
  | deleteNode id => exact h.deleteNode now id
  | _ => exact respects_of_creation h.toCreationLaw now rfl

/-- An edit of the graph that sets no time of change to its own. -/
theorem GraphEdit.respects_of_fields (h : Store.FieldLaw R) (now : Int) {e : GraphEdit}
    (he : e.overwritten? = none) : Edit.Respects R (e.edit now) := by
  cases e with
  | createNode n => exact Edit.discard_respects (h.createNode now n)
  | updateContent id content => cases he
  | deleteNode id => cases he
  | setProperty node field value order =>
    exact Edit.setProperty_respects h now node field value order
  | setPropertyValues node field values =>
    exact Edit.setPropertyValues_respects h now node field values
  | removeProperty node field =>
    exact Edit.discard_respects (Edit.removeProperty_respects h now node field)
  | addSupertag node supertag =>
    exact Edit.discard_respects (Edit.addSupertag_respects h now node supertag)
  | attachSupertag node supertag =>
    exact Edit.discard_respects (Edit.attachSupertag_respects h now node supertag)
  | setSupertags node supertags => exact Edit.setSupertags_respects h now node supertags

theorem GraphEdit.respects (h : Store.GraphLaw R) (now : Int) (e : GraphEdit) :
    Edit.Respects R (e.edit now) := by
  cases e with
  | updateContent id content => exact h.updateContent now id content
  | deleteNode id => exact h.deleteNode now id
  | _ => exact respects_of_fields h.toFieldLaw now rfl

theorem QueryEdit.respects (h : Store.FieldLaw R) (now : Int) (e : QueryEdit) :
    Edit.Respects R (e.edit now) := by
  cases e with
  | save node d => exact Edit.saveQuery_respects h now node d
  | run node refresh => exact Edit.discard_respects (Edit.runSaved_respects h now node refresh)
  | dropCache node => exact Edit.dropCache_respects h now node

/-- An operation that sets no time of change to its own respects what the edits of rows and those
that insert nodes respect. -/
theorem Operation.respects_of_creation (h : Store.CreationLaw R) (now : Int) {op : Operation}
    (hop : op.overwritten? = none) : Edit.Respects R (op.edit now) := by
  cases op with
  | table e => exact TableEdit.respects_of_creation h now hop
  | graph e => exact GraphEdit.respects_of_fields h.fields now hop
  | query e => exact e.respects h.fields now
  | bootstrap fresh => exact Edit.discard_respects (Edit.bootstrap_respects h.fields now fresh)

/-- Every operation with checks respects what the edits of the graph respect. -/
theorem Operation.respects_of_isChecked (h : Store.GraphLaw R) (now : Int) {op : Operation}
    (hop : op.isChecked = true) : Edit.Respects R (op.edit now) := by
  cases op with
  | table e => cases hop
  | graph e => exact e.respects h now
  | query e => exact e.respects h.toFieldLaw now
  | bootstrap fresh => exact Edit.discard_respects (Edit.bootstrap_respects h.toFieldLaw now fresh)

/-- Every operation respects what the edits of the tables respect. -/
theorem Operation.respects (h : Store.TableLaw R) (now : Int) (op : Operation) :
    Edit.Respects R (op.edit now) := by
  cases op with
  | table e => exact e.respects h now
  | _ => exact respects_of_isChecked h.graph now rfl

/-- What every step respects relates the start of a run to its end. -/
theorem Store.run_rel (hR : Store.Composes R) (s : Store) {steps : List Step}
    (h : ∀ step ∈ steps, Edit.Respects R (step.operation.edit step.now)) : R s (s.run steps) := by
  induction steps generalizing s with
  | nil => exact hR.refl s
  | cons step steps ih =>
    obtain ⟨hfirst, hrest⟩ := List.forall_mem_cons.mp h
    exact hR.trans (hfirst s) (ih (s.step step) hrest)

theorem Store.TableLaw.run (h : Store.TableLaw R) (s : Store) (steps : List Step) :
    R s (s.run steps) :=
  Store.run_rel h.toComposes s fun step _ => step.operation.respects h step.now

theorem Store.GraphLaw.run (h : Store.GraphLaw R) (s : Store) {steps : List Step}
    (hsteps : ∀ step ∈ steps, step.operation.isChecked = true) : R s (s.run steps) :=
  Store.run_rel h.toComposes s fun step hstep =>
    Operation.respects_of_isChecked h step.now (hsteps step hstep)

end

/-- On the tables of this library a run is a sequence of elementary changes. -/
theorem Store.run_changes {s : Store} (hs : s.foreign = none) (steps : List Step) :
    Store.Changes s (s.run steps) :=
  (Store.TableLaw.changes.run s steps hs).2

end TagGraph
