import TagGraph.Proofs.Inheritance.Cycles
import TagGraph.Proofs.Inheritance.Guard
import TagGraph.Proofs.Query.Halfway
import TagGraph.Proofs.Tombstone

/-!
# Edits that spare a kept answer

The kept answer of a node is in two of its fields. An edit spares it (`Store.Spares`) if the nodes
of the two fields stay live, if no other type is declared for them, and if the rows of the node in
them stay as they are. Every edit of the graph does so that is not directed at them
(`GraphEdit.SparesCache`), and so does every edit of another saved query.
-/

namespace TagGraph

namespace Store

open Edit

/-- What is left of the fields of a kept answer: their nodes stay live, as does the node of the
answer, and types are declared for them as before or not at all. If `whole` is the case, the rows of
the answer stay as they are. -/
structure Spares (q : NodeId) (whole : Prop) (s s' : Store) : Prop where
  sound : s'.Sound
  live : s.IsLive q → s'.IsLive q
  fields : ∀ field f, IsCacheField field → s.Holds (.known f) (some field) →
    s'.Holds (.known f) (some field)
  types : ∀ field f typeField, IsCacheField field → s.Holds (.known f) (some field) →
    s'.Holds (.known typeField) (some Handle.fieldFieldType) →
      typeIn? (s'.texts f typeField) = none ∨
        s.Holds (.known typeField) (some Handle.fieldFieldType) ∧
          typeIn? (s'.texts f typeField) = typeIn? (s.texts f typeField)
  rows : whole → ∀ field f, IsCacheField field → s.Holds (.known f) (some field) →
    s'.texts q f = s.texts q f

namespace Spares

variable {q : NodeId} {whole : Prop} {a b c : Store}

theorem refl (hs : a.Sound) : Spares q whole a a where
  sound := hs
  live h := h
  fields _ _ _ h := h
  types _ _ _ _ _ h := Or.inr ⟨h, rfl⟩
  rows _ _ _ _ _ := rfl

theorem trans (hab : Spares q whole a b) (hbc : Spares q whole b c) : Spares q whole a c where
  sound := hbc.sound
  live h := hbc.live (hab.live h)
  fields field f hcache h := hbc.fields field f hcache (hab.fields field f hcache h)
  types field f typeField hcache hf htype := by
    rcases hbc.types field f typeField hcache (hab.fields field f hcache hf) htype with
      hnone | ⟨hb, hsame⟩
    · exact Or.inl hnone
    · rw [hsame]
      exact hab.types field f typeField hcache hf hb
  rows hwhole field f hcache hf :=
    (hbc.rows hwhole field f hcache (hab.fields field f hcache hf)).trans
      (hab.rows hwhole field f hcache hf)

theorem composes (q : NodeId) (whole : Prop) :
    Composes fun s s' => s.Sound → Spares q whole s s' where
  refl _ hs := .refl hs
  trans hab hbc hs := (hab hs).trans (hbc (hab hs).sound)

end Spares

end Store

open Edit (IsCacheField)

namespace Edit

open Store

variable {α : Type} {s : Store} {q node : NodeId} {field : String} {values : List PropertyValue}
  {whole : Prop}

/-! ## Edits of one field -/

/-- An edit of one field spares a kept answer if the field is none of those of the answer, and if no
other type is declared for those. -/
theorem EditsField.spares {e : Edit α} (he : EditsField e s node field values)
    (hsound : Respects (Natively Changes) e) (hs : s.Sound)
    (hrows : whole → node = q → ∀ fieldNode, s.findLive? field = .ok (some fieldNode) →
      ∀ handle, IsCacheField handle → fieldNode.systemId ≠ some handle)
    (htypes : ∀ fieldNode handle, s.findLive? field = .ok (some fieldNode) →
      fieldNode.systemId = some Handle.fieldFieldType → IsCacheField handle →
        s.Holds (.known node) (some handle) → (e.after s).fieldType? node = .ok none ∨
          (e.after s).fieldType? node = s.fieldType? node) :
    s.Spares q whole (e.after s) := by
  have hs' := hs.after hsound
  rcases he with hsame | ⟨fieldNode, hadmits, hlaw⟩
  · rw [hsame]
    exact .refl hs
  have honly := (hlaw _ (OnlyField.rowLaw node fieldNode.id _) hs.native).2
  have hfield := hs.holds_of_findLive? hadmits.found
  refine ⟨hs', (hs.isLive_congr hs' honly.holds).mpr, fun _ _ _ h => (honly.holds _ _).mpr h,
    fun handle f typeField hcache hf htype' => ?_, fun hwhole handle f hcache hf => ?_⟩
  · have htype := (honly.holds _ _).mp htype'
    by_cases hat : f = node ∧ typeField = fieldNode.id
    · obtain ⟨rfl, rfl⟩ := hat
      have hdeclared := htypes fieldNode handle hadmits.found (hs.handle_unique hfield htype)
        hcache hf
      rw [hs'.fieldType?_eq htype', hs.fieldType?_eq htype] at hdeclared
      exact hdeclared.imp Except.ok.inj fun hsame => ⟨htype, Except.ok.inj hsame⟩
    · exact Or.inr ⟨htype, by rw [honly.texts_eq hat]⟩
  · apply honly.texts_eq
    intro ⟨hq, hid⟩
    subst hid
    exact hrows hwhole hq.symm fieldNode hadmits.found handle hcache
      (hs.handle_unique hfield hf)

/-- An edit of a field that is known by its handle spares a kept answer if it is none of its
fields, or belongs to another node. -/
theorem EditsField.spares_of_isName {e : Edit α} (he : EditsField e s node field values)
    (hsound : Respects (Natively Changes) e) (hs : s.Sound) (hname : IsName field)
    (htype : field ≠ Handle.fieldFieldType) (hrows : whole → node = q → ¬ IsCacheField field) :
    s.Spares q whole (e.after s) := by
  have hhandle : ∀ fieldNode, s.findLive? field = .ok (some fieldNode) →
      fieldNode.systemId = some field := fun fieldNode hfound =>
    systemId_of_findLive? hname.trimmed hname.notId hfound
  refine he.spares hsound hs (fun hwhole hq fieldNode hfound handle hcache hhas => ?_)
    fun fieldNode _ hfound hhas => ?_
  · rw [hhandle fieldNode hfound] at hhas
    exact hrows hwhole hq (Option.some.inj hhas ▸ hcache)
  · rw [hhandle fieldNode hfound] at hhas
    exact absurd (Option.some.inj hhas) htype

/-! ## Edits of saved queries -/

/-- The fields in which a saved query keeps its definition and its answer. -/
def IsQueryField (field : String) : Prop :=
  field = Handle.fieldQueryDefinition ∨ IsCacheField field

theorem IsQueryField.isName (h : IsQueryField field) : IsName field := by
  rcases h with rfl | rfl | rfl
  · exact isName_fieldQueryDefinition
  · exact isName_fieldResultCache
  · exact isName_fieldEvaluatedAt

theorem IsQueryField.ne_fieldType (h : IsQueryField field) : field ≠ Handle.fieldFieldType := by
  rcases h with rfl | rfl | rfl <;> decide

/-- Edits of a saved query are made of edits of its fields. -/
theorem queryEdit_respects_of_fields {R : Store → Store → Prop} (hC : Composes R) (now : Int)
    (e : QueryEdit)
    (hset : ∀ field value, IsQueryField field →
      Respects R (setProperty now e.target field value none))
    (hsetValues : ∀ field values, IsQueryField field →
      Respects R (setPropertyValues now e.target field values))
    (hremove : ∀ field, IsQueryField field → Respects R (removeProperty now e.target field)) :
    Respects R (e.edit now) := by
  have hdefinition : IsQueryField Handle.fieldQueryDefinition := Or.inl rfl
  have hcache : IsQueryField Handle.fieldResultCache := Or.inr (Or.inl rfl)
  have htime : IsQueryField Handle.fieldEvaluatedAt := Or.inr (Or.inr rfl)
  have hdrop : Respects R (dropCache now e.target) :=
    (hremove _ hcache).bind hC fun _ => (hremove _ htime).bind hC fun _ =>
      .of_reads hC (Reads.pure _)
  cases e with
  | save node d =>
    show Respects R (saveQuery now node d)
    unfold saveQuery
    cases hfault : d.fault? with
    | some fault => exact fun s => hC.refl s
    | none => exact (hset _ _ hdefinition).bind hC fun _ => hdrop
  | run node refresh =>
    refine discard_respects (Respects.reads_bind hC (Reads.ask _) fun page => ?_)
    cases refresh with
    | false => exact .of_reads hC (Reads.pure page)
    | true =>
      exact ((hsetValues _ _ hcache).bind hC fun _ => hset _ _ htime).bind hC fun _ =>
        .of_reads hC (Reads.pure page)
  | dropCache node => exact hdrop

/-- Edits of saved queries keep to the fields of their node. -/
theorem queryEdit_spares (q : NodeId) (now : Int) (e : QueryEdit) (hs : s.Sound) :
    s.Spares q (e.target ≠ q) ((e.edit now).after s) := by
  have hpart : ∀ {β : Type} {part : Edit β} {field : String} {values : List PropertyValue},
      IsQueryField field → (∀ s, EditsField part s e.target field values) →
      Respects (Natively Changes) part →
      Respects (fun s s' => s.Sound → Spares q (e.target ≠ q) s s') part :=
    fun hfield hedits hsound s hs =>
      (hedits s).spares_of_isName hsound hs hfield.isName hfield.ne_fieldType
        fun hne hq => absurd hq hne
  exact queryEdit_respects_of_fields (Spares.composes q (e.target ≠ q)) now e
    (fun field value hfield => hpart hfield
      (fun s => setProperty_editsField now e.target field value none s)
      (setProperty_respects .changes now e.target field value none))
    (fun field values hfield => hpart hfield
      (fun s => setPropertyValues_editsField now e.target field values s)
      (setPropertyValues_respects .changes now e.target field values))
    (fun field hfield => hpart hfield
      (fun s => removeProperty_editsField now e.target field s)
      (removeProperty_respects .changes now e.target field)) s hs

/-! ## Changes of nodes -/

/-- Live nodes are buried only if they are meant to be, and all rows are as before. -/
structure BuriesOnly (meant : NodeId → Prop) (s s' : Store) : Prop where
  kept : ∀ id handle, ¬ meant id → s.Holds (.known id) handle → s'.Holds (.known id) handle
  held : ∀ id handle, s'.Holds id handle → s.Holds id handle
  properties : s'.properties = s.properties

namespace BuriesOnly

variable {meant : NodeId → Prop}

theorem composes (meant : NodeId → Prop) : Composes (BuriesOnly meant) where
  refl _ := ⟨fun _ _ _ h => h, fun _ _ h => h, rfl⟩
  trans hab hbc := ⟨fun id handle hne h => hbc.kept id handle hne (hab.kept id handle hne h),
    fun id handle h => hab.held id handle (hbc.held id handle h),
    hbc.properties.trans hab.properties⟩

theorem fieldRecords_eq {s' : Store} (h : BuriesOnly meant s s') (n f : NodeId) :
    s'.fieldRecords n f = s.fieldRecords n f := by
  rw [fieldRecords, fieldRecords, h.properties]

theorem texts_eq {s' : Store} (h : BuriesOnly meant s s') (n f : NodeId) :
    s'.texts n f = s.texts n f := by
  rw [texts, texts, h.fieldRecords_eq]

theorem spares {s' : Store} (h : BuriesOnly meant s s') (hs : s.Sound) (hs' : s'.Sound)
    (hq : ¬ meant q) (hfields : ∀ field f, IsCacheField field →
      s.Holds (.known f) (some field) → ¬ meant f) : s.Spares q whole s' := by
  refine ⟨hs', fun hlive => ?_, fun field f hcache hf => ?_, fun _ f typeField _ _ htype => ?_,
    fun _ _ f _ _ => h.texts_eq q f⟩
  · obtain ⟨handle, hholds⟩ := hs.isLive_iff.mp hlive
    exact hs'.isLive_iff.mpr ⟨handle, h.kept q handle hq hholds⟩
  · exact h.kept f _ (hfields field f hcache hf) hf
  · exact Or.inr ⟨h.held _ _ htype, by rw [h.texts_eq]⟩

end BuriesOnly

theorem updateContent_buriesOnly (now : Int) (id : NodeId) (content : String) :
    BuriesOnly (fun _ => False) s ((updateContent now id content).after s) := by
  rw [after_updateContent]
  have hamends := NodeRecord.setContent_amends now content
  exact ⟨fun _ _ _ => holds_updateNode hamends (fun _ h => h) id,
    fun _ _ => holds_of_updateNode hamends fun _ h => h, rfl⟩

theorem deleteNode_buriesOnly (now : Int) (id : NodeId) :
    BuriesOnly (· = id) s ((deleteNode now id).after s) := by
  rw [after_deleteNode]
  refine ⟨fun other handle hne hholds => ?_, fun _ _ => holds_of_updateNode
    (NodeRecord.bury_amends now) fun r h => by simp [NodeRecord.isLive, Cell.isNull] at h, rfl⟩
  -- The row of another node is not changed.
  obtain ⟨r, hr, hlive, hid, hhandle⟩ := hholds
  refine ⟨r, List.mem_map.mpr ⟨r, hr, if_neg fun hmeant => hne ?_⟩, hlive, hid, hhandle⟩
  have hsame := beq_iff_eq.mp (Bool.and_eq_true_iff.mp hmeant).1
  exact StoredId.known.inj (hid.symm.trans hsame)

theorem updateContent_spares (now : Int) (id : NodeId) (content : String) (hs : s.Sound) :
    s.Spares q whole ((updateContent now id content).after s) :=
  (updateContent_buriesOnly now id content).spares hs
    (hs.after (TableLaw.changes.updateContent now id content)) not_false fun _ _ _ _ => not_false

/-- A deletion spares a kept answer if neither its node nor one of its fields is deleted. -/
theorem deleteNode_spares (now : Int) {id : NodeId} (hs : s.Sound) (hq : id ≠ q)
    (hfield : ∀ handle, IsCacheField handle → ¬ s.Holds (.known id) (some handle)) :
    s.Spares q whole ((deleteNode now id).after s) := by
  refine (deleteNode_buriesOnly now id).spares hs
    (hs.after (TableLaw.changes.deleteNode now id)) (Ne.symm hq) ?_
  intro field f hcache hf heq
  exact hfield field hcache (heq ▸ hf)

/-! ## New nodes -/

/-- Live nodes stay live with their handles, and all fields but some keep their rows. -/
structure AllButFields (fields : NodeId → Prop) (s s' : Store) : Prop where
  holds : ∀ id handle, s.Holds id handle → s'.Holds id handle
  texts : ∀ n f, ¬ fields f → s'.texts n f = s.texts n f

namespace AllButFields

variable {fields : NodeId → Prop}

theorem composes (fields : NodeId → Prop) : Composes (AllButFields fields) where
  refl _ := ⟨fun _ _ h => h, fun _ _ _ => rfl⟩
  trans hab hbc := ⟨fun _ _ h => hbc.holds _ _ (hab.holds _ _ h),
    fun n f hne => (hbc.texts n f hne).trans (hab.texts n f hne)⟩

theorem of_onlyField {n f : NodeId} {s s' : Store} (h : OnlyField n f s s') (hf : fields f) :
    AllButFields fields s s' where
  holds id handle := (h.holds id handle).mpr
  texts _ _ hne := h.texts_eq fun hat => hne (hat.2 ▸ hf)

theorem rowLaw (fields : NodeId → Prop) :
    RowLaw (Natively (AllButFields fields)) (fun _ f => fields f) fun _ => True where
  toComposes := (composes fields).natively
  touchNode now {id} _ := touchNode_respects now id fun _ =>
    ⟨fun _ _ => holds_updateNode (NodeRecord.touch_amends now) (fun _ h => h) id, fun _ _ _ => rfl⟩
  insertProperty now n f hf raw _ order := by
    intro s hs
    obtain ⟨hnative, honly⟩ :=
      (OnlyField.rowLaw n f fun _ => True).insertProperty now ⟨rfl, rfl⟩ trivial order s hs
    exact ⟨hnative, .of_onlyField honly hf⟩
  deleteFieldProperties {n f} hf := by
    intro s hs
    obtain ⟨hnative, honly⟩ :=
      (OnlyField.rowLaw n f fun _ => True).deleteFieldProperties ⟨rfl, rfl⟩ s hs
    exact ⟨hnative, .of_onlyField honly hf⟩

end AllButFields

/-- The rows that come with a new node are in `field:supertag`. -/
theorem createNode_allButFields (now : Int) (n : NewNode) (hs : s.Sound) :
    AllButFields (fun f => s.Holds (.known f) (some Handle.fieldSupertag)) s
      ((createNode now n).after s) := by
  refine (createNode_rel (AllButFields.rowLaw fun f =>
    s.Holds (.known f) (some Handle.fieldSupertag)) hs now n ?_
    (fun field supertag raw hfield _ => ⟨hfield, trivial⟩) hs.native).2
  exact insertNode_respects (AllButFields.composes _) now n fun t _ _ =>
    ⟨fun _ _ h => (holds_addNode rfl).mpr (Or.inl h), fun _ _ _ => rfl⟩

theorem createNode_spares (now : Int) (n : NewNode) (hs : s.Sound) :
    s.Spares q whole ((createNode now n).after s) := by
  have hs' := hs.after (TableLaw.changes.graph.createNode now n)
  have hkeeps := createNode_allButFields now n hs
  refine ⟨hs', fun hlive => ?_, fun _ _ _ => hkeeps.holds _ _,
    fun handle f typeField _ _ htype => ?_, fun _ handle f hcache hf => ?_⟩
  · obtain ⟨handle, hholds⟩ := hs.isLive_iff.mp hlive
    exact hs'.isLive_iff.mpr ⟨handle, hkeeps.holds _ _ hholds⟩
  · have htexts := hkeeps.texts f typeField fun hsupertag => by
      have hsame := hs'.handle_unique (hkeeps.holds _ _ hsupertag) htype
      exact absurd (Option.some.inj hsame) (by decide)
    rw [htexts]
    have hchanges := TableLaw.changes.graph.createNode now n s hs.native
    rcases hchanges.2.holds_or_new htype with hold | hnew
    · exact Or.inr ⟨hold, rfl⟩
    · -- Nobody can have declared a type in a field that was not there.
      exact Or.inl (by rw [hs.texts_of_new_field hnew, typeIn?, List.head?_nil, Option.bind_none])
  · refine hkeeps.texts q f fun hsupertag => ?_
    have hsame := Option.some.inj (hs.handle_unique hf hsupertag)
    rcases hcache with rfl | rfl
    · exact absurd hsame (by decide)
    · exact absurd hsame (by decide)

end Edit

/-! ## Edits of the graph -/

/-- The node and the field that an edit of the graph writes or removes as it is told. -/
def GraphEdit.direct? : GraphEdit → Option (NodeId × String)
  | .setProperty node field _ _ => some (node, field)
  | .setPropertyValues node field _ => some (node, field)
  | .removeProperty node field => some (node, field)
  | _ => none

/-- An edit of the graph is not directed at the kept answer of a node: it writes none of its fields
on the node, it deletes neither the node nor one of the fields, and it declares no type for the
fields but the one that they have. -/
structure GraphEdit.SparesCache (e : GraphEdit) (now : Int) (q : NodeId) (s : Store) : Prop where
  writes : ∀ field fieldNode handle, e.direct? = some (q, field) →
    s.findLive? field = .ok (some fieldNode) → IsCacheField handle →
      fieldNode.systemId ≠ some handle
  deletes : ∀ id, e = .deleteNode id → id ≠ q ∧
    ∀ handle, IsCacheField handle → ¬ s.Holds (.known id) (some handle)
  types : ∀ node field fieldNode handle, e.direct? = some (node, field) →
    s.findLive? field = .ok (some fieldNode) →
      fieldNode.systemId = some Handle.fieldFieldType → IsCacheField handle →
        s.Holds (.known node) (some handle) → ((e.edit now).after s).fieldType? node = .ok none ∨
          ((e.edit now).after s).fieldType? node = s.fieldType? node

namespace Edit

open Store

variable {s : Store} {q : NodeId} {whole : Prop}

theorem EditsField.discard {α : Type} {e : Edit α} {node : NodeId} {field : String}
    {values : List PropertyValue} (he : EditsField e s node field values) :
    EditsField (Functor.discard e : Edit Unit) s node field values := by
  unfold EditsField
  rw [after_discard]
  exact he

/-- An edit of the graph creates, changes or deletes a node, or it edits one field of a node: the
one that it is told, or `field:supertag`. -/
inductive GraphEditKind (s : Store) (now : Int) : GraphEdit → Prop
  | createNode (n : NewNode) : GraphEditKind s now (.createNode n)
  | updateContent (id : NodeId) (content : String) : GraphEditKind s now (.updateContent id content)
  | deleteNode (id : NodeId) : GraphEditKind s now (.deleteNode id)
  | editsField (e : GraphEdit) {node : NodeId} {field : String} {values : List PropertyValue}
      (edits : EditsField (e.edit now) s node field values)
      (told : e.direct? = some (node, field) ∨ field = Handle.fieldSupertag) : GraphEditKind s now e

theorem graphEdit_kind (s : Store) (now : Int) (e : GraphEdit) : GraphEditKind s now e := by
  cases e with
  | createNode n => exact .createNode n
  | updateContent id content => exact .updateContent id content
  | deleteNode id => exact .deleteNode id
  | setProperty node field value order =>
    exact .editsField _ (setProperty_editsField now node field value order s) (Or.inl rfl)
  | setPropertyValues node field values =>
    exact .editsField _ (setPropertyValues_editsField now node field values s) (Or.inl rfl)
  | removeProperty node field =>
    exact .editsField _ (removeProperty_editsField now node field s).discard (Or.inl rfl)
  | addSupertag node supertag =>
    have hedits : ∃ values,
        EditsField (addSupertag now node supertag) s node Handle.fieldSupertag values := by
      rcases (requireSupertag_reads supertag).after_bind
        (fun tag => attachSupertag now node tag.id) s with hsame | ⟨tag, -, hrest⟩
      · exact ⟨[], Or.inl hsame⟩
      · refine ⟨[.node tag.id], ?_⟩
        rw [EditsField, addSupertag, hrest]
        exact attachSupertag_editsField now node tag.id s
    obtain ⟨values, hedits⟩ := hedits
    exact .editsField _ hedits.discard (Or.inr rfl)
  | attachSupertag node supertag =>
    exact .editsField _ (attachSupertag_editsField now node supertag s).discard (Or.inr rfl)
  | setSupertags node supertags =>
    have hedits : ∃ values,
        EditsField (setSupertags now node supertags) s node Handle.fieldSupertag values := by
      rcases (requireSupertags_reads supertags).after_bind
        (fun ids => setPropertyValues now node Handle.fieldSupertag (ids.map .node)) s with
        hsame | ⟨ids, -, hrest⟩
      · exact ⟨[], Or.inl hsame⟩
      · refine ⟨ids.map .node, ?_⟩
        rw [EditsField, setSupertags, hrest]
        exact setPropertyValues_editsField now node _ _ s
    obtain ⟨values, hedits⟩ := hedits
    exact .editsField _ hedits (Or.inr rfl)

/-- An edit of the graph that is not directed at a kept answer spares it. -/
theorem graphEdit_spares (now : Int) {e : GraphEdit} (hs : s.Sound) (h : e.SparesCache now q s) :
    s.Spares q whole ((e.edit now).after s) := by
  have hsound : Respects (Natively Changes) (e.edit now) := e.respects .changes now
  cases graphEdit_kind s now e with
  | createNode n =>
    show s.Spares q whole ((Functor.discard (createNode now n) : Edit Unit).after s)
    rw [after_discard]
    exact createNode_spares now n hs
  | updateContent id content => exact updateContent_spares now id content hs
  | deleteNode id =>
    obtain ⟨hq, hfield⟩ := h.deletes id rfl
    exact deleteNode_spares now hs hq hfield
  | @editsField _ node field values hedits htold =>
    rcases htold with hdirect | rfl
    · refine hedits.spares hsound hs (fun _ hq fieldNode hfound handle hcache => ?_)
        fun fieldNode handle => h.types node field fieldNode handle hdirect
      exact h.writes field fieldNode handle (hq ▸ hdirect) hfound hcache
    · exact hedits.spares_of_isName hsound hs isName_fieldSupertag (by decide)
        fun _ _ => not_isCacheField_supertag

end Edit

end TagGraph
