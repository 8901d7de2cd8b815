import TagGraph.Proofs.Field.Creation
import TagGraph.Proofs.Field.Declared
import TagGraph.Proofs.Query.Kept

/-!
# Fields stay well-typed

A store is well-typed if every value that a field of a node holds fits the type that the field
declares, and if `field:supertag`, whose rows some edits write without a look at its type, declares
none or `nodes` (`Store.WellTyped`). Writes check their values, references that are written one by
one fit where their list does, and a type that a field has it has had before, as long as nothing is
written to `field:fieldType`. So edits of the graph and of saved queries leave a well-typed store
well-typed (`Store.Sound.wellTyped_run`).
-/

namespace TagGraph

namespace PropertyValue

/-- A reference in a value fits where the value does. -/
theorem conformsTo_of_referenced {value : PropertyValue} {type : FieldType} {reference : NodeId}
    (h : value.conformsTo type = true) (hreference : reference ∈ value.referenced) :
    (node reference).conformsTo type = true := by
  cases value with
  | node id =>
    obtain rfl := List.mem_singleton.mp hreference
    exact h
  | nodes ids =>
    cases type with
    | nodes | json => rfl
    | _ => cases h
  | _ => cases hreference

/-- What may be written for values that fit a type stands for a value that fits it. -/
theorem MayWrite.conformsTo {values : List PropertyValue} {raw : String} {type : FieldType}
    (h : MayWrite values raw) (hconforms : values.all (·.conformsTo type) = true)
    {value : PropertyValue} (hvalue : decode? raw = some value) :
    value.conformsTo type = true := by
  obtain ⟨written, hwritten, hencoded | ⟨reference, hreference, hencoded⟩⟩ := h
  · rw [eq_reread_of_encode? hencoded hvalue, conformsTo_reread]
    exact List.all_eq_true.mp hconforms written hwritten
  · rw [eq_reread_of_encode? hencoded hvalue, conformsTo_reread]
    exact conformsTo_of_referenced (List.all_eq_true.mp hconforms written hwritten) hreference

end PropertyValue

namespace Store

variable {s s' : Store}

/-! ## Well-typed stores -/

/-- The value that a text stands for, if any, fits the type that a field declares, if any. -/
def FitsType (s : Store) (field : NodeId) (raw : String) : Prop :=
  ∀ type, s.fieldType? field = .ok (some type) →
    ∀ value, PropertyValue.decode? raw = some value → value.conformsTo type = true

/-- All values of a field of a node fit the type of the field. -/
def Fits (s : Store) (node field : NodeId) : Prop :=
  ∀ raw ∈ s.texts node field, s.FitsType field raw

/-- References fit `field:supertag`: it declares no type or `nodes`. -/
def TakesSupertags (s : Store) : Prop :=
  ∀ field, s.Holds (.known field) (some Handle.fieldSupertag) →
    s.fieldType? field = .ok none ∨ s.fieldType? field = .ok (some .nodes)

/-- The values of the fields among some nodes fit their types, and references fit
`field:supertag`. -/
structure WellTyped (s : Store) (among : NodeId → Prop) : Prop where
  supertags : s.TakesSupertags
  fits : ∀ node field, among node → among field → s.Fits node field

/-- Where values have fitted their types, they still do. -/
def KeepsTyping (s s' : Store) : Prop :=
  s.Sound → s.TakesSupertags →
    s'.Sound ∧ s'.TakesSupertags ∧ ∀ node field, s.Fits node field → s'.Fits node field

theorem KeepsTyping.composes : Composes KeepsTyping where
  refl _ hs hsupertags := ⟨hs, hsupertags, fun _ _ h => h⟩
  trans hab hbc hs hsupertags := by
    obtain ⟨hb, hsupertags', hfits⟩ := hab hs hsupertags
    obtain ⟨hc, hsupertags'', hfits'⟩ := hbc hb hsupertags'
    exact ⟨hc, hsupertags'', fun node field h => hfits' node field (hfits node field h)⟩

/-- While no types are declared, values still fit if the further ones do. -/
theorem Changes.keepsTyping (h : Changes s s') (hs : s.Sound) (hsame : SameDeclarations s s')
    (hnew : ∀ node field, ∀ raw ∈ s'.texts node field,
      raw ∈ s.texts node field ∨ s.FitsType field raw)
    (hsupertags : s.TakesSupertags) :
    s'.TakesSupertags ∧ ∀ node field, s.Fits node field → s'.Fits node field := by
  refine ⟨fun field hfield => ?_, fun node field hfits raw hraw type htype => ?_⟩
  · rcases Changes.holds_or_new h hfield with hold | hnewField
    · rcases Changes.fieldType?_eq_or_gone h hs hsame with ⟨-, heq⟩ | ⟨-, hnone⟩
      · rw [heq]
        exact hsupertags field hold
      · exact Or.inl (hnone field)
    · exact Or.inl (Changes.fieldType?_of_new h hs hsame hnewField)
  · have htype' := Changes.fieldType?_of_some h hs hsame htype
    rcases hnew node field raw hraw with hold | hfit
    · exact hfits raw hold type htype'
    · exact hfit type htype'

end Store

namespace Edit

open Store

variable {α : Type} {s : Store} {node : NodeId} {field : String} {values : List PropertyValue}

/-! ## Edits of one field -/

/-- After a check of types the edit has changed nothing, or the field takes the values. -/
theorem after_checkTypes (node : NodeId) (field : String)
    (values : List PropertyValue) (rest : Node → Option FieldType → Edit α) (s : Store) :
    (do
      let _ ← requireLive node
      let fieldNode ← requireField field
      let type ← ask (·.fieldType? fieldNode.id)
      checkTypes field type values
      rest fieldNode type : Edit α).after s = s ∨ s.Takes field values := by
  rcases (requireLive_reads node).after_bind _ s with hsame | ⟨_, -, hrest⟩
  · exact Or.inl hsame
  rw [hrest]
  rcases (requireField_reads field).after_bind _ s with hsame | ⟨fieldNode, hfound, hrest⟩
  · exact Or.inl hsame
  rw [hrest]
  rcases (Reads.ask _).after_bind _ s with hsame | ⟨type, htype, hrest⟩
  · exact Or.inl hsame
  rw [hrest]
  rcases (checkTypes_reads field type values).after_bind _ s with hsame | ⟨_, hconforms, -⟩
  · exact Or.inl hsame
  exact Or.inr ⟨fieldNode, type, requireField_ok hfound, ask_ok htype, checkTypes_ok hconforms⟩

/-- The values are fit for the field: if the edit changes anything, they fit the type. -/
def AreFit (e : Edit α) (s : Store) (field : String) (values : List PropertyValue) : Prop :=
  ∀ fieldNode type, s.findLive? field = .ok (some fieldNode) →
    s.fieldType? fieldNode.id = .ok (some type) →
      e.after s = s ∨ values.all (·.conformsTo type) = true

/-- What has been checked is fit. -/
theorem areFit_of_takes {e : Edit α} (h : e.after s = s ∨ s.Takes field values) :
    AreFit e s field values := by
  intro fieldNode type hfound htype
  refine h.imp_right fun htakes => ?_
  obtain ⟨fieldNode', type', hfound', htype', hconforms⟩ := htakes
  obtain rfl := Option.some.inj (Except.ok.inj (hfound'.symm.trans hfound))
  obtain rfl := Except.ok.inj (htype'.symm.trans htype)
  exact hconforms

theorem setProperty_areFit (now : Int) (node : NodeId) (field : String) (value : PropertyValue)
    (order : Option Int) (s : Store) :
    AreFit (setProperty now node field value order) s field [value] :=
  areFit_of_takes (after_checkTypes node field [value] _ s)

theorem setPropertyValues_areFit (now : Int) (node : NodeId) (field : String)
    (values : List PropertyValue) (s : Store) :
    AreFit (setPropertyValues now node field values) s field values :=
  areFit_of_takes (after_checkTypes node field values _ s)

/-- References are fit for `field:supertag`. -/
theorem areFit_supertag {e : Edit α} (hs : s.Sound) (hsupertags : s.TakesSupertags)
    (supertag : NodeId) : AreFit e s Handle.fieldSupertag [.node supertag] := by
  intro fieldNode type hfound htype
  rcases hsupertags fieldNode.id (hs.holds_of_found isName_fieldSupertag hfound) with
    hnone | hnodes
  · cases htype.symm.trans hnone
  · obtain rfl := Option.some.inj (Except.ok.inj (htype.symm.trans hnodes))
    exact Or.inr rfl

/-- An edit of one field writes values that fit if they are fit for the field. -/
theorem EditsField.fitsType_of_new {e : Edit α} (he : EditsField e s node field values)
    (hs : s.Sound) (hfit : AreFit e s field values) {n f : NodeId} {raw : String}
    (hraw : raw ∈ (e.after s).texts n f) : raw ∈ s.texts n f ∨ s.FitsType f raw := by
  rcases he with hsame | ⟨fieldNode, hadmits, hrows⟩
  · exact Or.inl (hsame ▸ hraw)
  · have hwithin := (hrows _ (WithinField.rowLaw node fieldNode.id _) hs.native).2
    obtain ⟨r, hr, hnode, hfield, rfl⟩ := mem_texts.mp hraw
    rcases hwithin.new r hr with hold | ⟨-, hfield', hwritten⟩
    · exact Or.inl (mem_texts.mpr ⟨r, hold, hnode, hfield, rfl⟩)
    · obtain rfl := StoredId.known.inj (hfield.symm.trans hfield')
      by_cases hsame : e.after s = s
      · exact Or.inl (hsame ▸ hraw)
      · refine Or.inr fun type htype value hvalue => ?_
        rcases hfit fieldNode type hadmits.found htype with hidle | hconforms
        · exact absurd hidle hsame
        · exact hwritten.conformsTo hconforms hvalue

theorem EditsField.keepsTyping {e : Edit α} (he : EditsField e s node field values)
    (hchanges : Respects (Natively Changes) e) (hsame : SameDeclarations s (e.after s))
    (hfit : s.Sound → s.TakesSupertags → AreFit e s field values) :
    KeepsTyping s (e.after s) := by
  intro hs hsupertags
  exact ⟨hs.after hchanges, Changes.keepsTyping (hchanges s hs.native).2 hs hsame
    (fun _ _ _ => he.fitsType_of_new hs (hfit hs hsupertags)) hsupertags⟩

/-! ## Edits of nodes -/

/-- The supertags of a new node fit. -/
theorem createNode_keepsTyping (now : Int) (n : NewNode)
    (hsame : SameDeclarations s ((createNode now n).after s)) :
    KeepsTyping s ((createNode now n).after s) := by
  intro hs hsupertags
  have hchanges := TableLaw.changes.graph.createNode now n
  refine ⟨hs.after hchanges, Changes.keepsTyping (hchanges s hs.native).2 hs hsame
    (fun node field raw hraw => ?_) hsupertags⟩
  cases hrun : createNode now n s with
  | error err s' =>
    rw [after_of_error hrun, createNode_whole now n err s' hrun] at hraw
    exact Or.inl hraw
  | ok id s' =>
    rw [after_of_ok hrun] at hraw
    obtain ⟨supertags, hcreates⟩ := createNode_ok hs hrun
    obtain ⟨added, hproperties, hadded⟩ := hcreates.rows
    obtain ⟨r, hr, hnode, hfield, rfl⟩ := mem_texts.mp hraw
    rw [hproperties] at hr
    rcases List.mem_append.mp hr with hold | hnew
    · exact Or.inl (mem_texts.mpr ⟨r, hold, hnode, hfield, rfl⟩)
    · obtain ⟨supertag, -, hassigns⟩ := exists_paired hadded r hnew
      refine Or.inr fun type htype value hvalue => ?_
      rw [PropertyValue.eq_reread_of_encode? hassigns.value hvalue]
      rcases hsupertags field (hfield ▸ hassigns.field) with hnone | hnodes
      · cases htype.symm.trans hnone
      · obtain rfl := Option.some.inj (Except.ok.inj (htype.symm.trans hnodes))
        rfl

/-- Where only nodes are changed or deleted, values still fit. -/
theorem keepsTyping_of_buriesOnly {meant : NodeId → Prop} {e : Edit α}
    (h : BuriesOnly meant s (e.after s)) (hchanges : Respects (Natively Changes) e) :
    KeepsTyping s (e.after s) := by
  intro hs hsupertags
  exact ⟨hs.after hchanges, Changes.keepsTyping (hchanges s hs.native).2 hs h.sameDeclarations
    (fun n f raw hraw => Or.inl (h.texts_eq n f ▸ hraw)) hsupertags⟩

/-! ## Edits of the graph and of saved queries -/

/-- Edits of the graph that leave the rows of `field:fieldType` keep values fitting. -/
theorem graphEdit_keepsTyping (now : Int) (e : GraphEdit)
    (hsame : SameDeclarations s ((e.edit now).after s)) : KeepsTyping s ((e.edit now).after s) := by
  have hchanges : Respects (Natively Changes) (e.edit now) := e.respects .changes now
  cases e with
  | createNode n =>
    have hafter : (GraphEdit.edit now (.createNode n)).after s = (createNode now n).after s :=
      after_discard _ s
    rw [hafter] at hsame ⊢
    exact createNode_keepsTyping now n hsame
  | updateContent id content =>
    exact keepsTyping_of_buriesOnly (updateContent_buriesOnly now id content) hchanges
  | deleteNode id => exact keepsTyping_of_buriesOnly (deleteNode_buriesOnly now id) hchanges
  | setProperty node field value order =>
    exact (setProperty_editsField now node field value order s).keepsTyping hchanges hsame
      fun _ _ => setProperty_areFit now node field value order s
  | setPropertyValues node field values =>
    exact (setPropertyValues_editsField now node field values s).keepsTyping hchanges hsame
      fun _ _ => setPropertyValues_areFit now node field values s
  | removeProperty node field =>
    exact (removeProperty_editsField now node field s).discard.keepsTyping hchanges hsame
      fun _ _ _ _ _ _ => Or.inr rfl
  | attachSupertag node supertag =>
    exact (attachSupertag_editsField now node supertag s).discard.keepsTyping hchanges hsame
      fun hs hsupertags => areFit_supertag hs hsupertags supertag
  | addSupertag node supertag =>
    have hafter : (GraphEdit.edit now (.addSupertag node supertag)).after s =
        (addSupertag now node supertag).after s := after_discard _ s
    rw [hafter] at hsame ⊢
    rcases (requireSupertag_reads supertag).after_bind
      (fun tag => attachSupertag now node tag.id) s with hidle | ⟨tag, -, hrest⟩
    · rw [addSupertag, hidle]
      exact KeepsTyping.composes.refl s
    · rw [addSupertag, hrest] at hsame ⊢
      exact (attachSupertag_editsField now node tag.id s).keepsTyping
        (attachSupertag_respects .changes now node tag.id) hsame
        fun hs hsupertags => areFit_supertag hs hsupertags tag.id
  | setSupertags node supertags =>
    have hafter : (GraphEdit.edit now (.setSupertags node supertags)).after s =
        (setSupertags now node supertags).after s := rfl
    rw [hafter] at hsame ⊢
    rcases (requireSupertags_reads supertags).after_bind
      (fun ids => setPropertyValues now node Handle.fieldSupertag (ids.map .node)) s with
      hidle | ⟨ids, -, hrest⟩
    · rw [setSupertags, hidle]
      exact KeepsTyping.composes.refl s
    · rw [setSupertags, hrest] at hsame ⊢
      exact (setPropertyValues_editsField now node _ _ s).keepsTyping
        (setPropertyValues_respects .changes now node _ _) hsame
        fun _ _ => setPropertyValues_areFit now node _ _ s

/-- Edits of saved queries keep values fitting. -/
theorem queryEdit_keepsTyping (now : Int) (e : QueryEdit) :
    Respects KeepsTyping (e.edit now) := by
  have hpart : ∀ {β : Type} {part : Edit β} {field : String} {values : List PropertyValue},
      IsQueryField field → (∀ s, EditsField part s e.target field values) →
      (∀ s, AreFit part s field values) → Respects (Natively Changes) part →
      Respects KeepsTyping part :=
    fun hfield hedits hfit hchanges s hs hsupertags => (hedits s).keepsTyping hchanges
      ((hedits s).sameDeclarations_of_isName hs hfield.isName hfield.ne_fieldType)
      (fun _ _ => hfit s) hs hsupertags
  exact queryEdit_respects_of_fields KeepsTyping.composes now e
    (fun field value hfield => hpart hfield
      (fun s => setProperty_editsField now e.target field value none s)
      (fun s => setProperty_areFit now e.target field value none s)
      (setProperty_respects .changes now e.target field value none))
    (fun field values hfield => hpart hfield
      (fun s => setPropertyValues_editsField now e.target field values s)
      (fun s => setPropertyValues_areFit now e.target field values s)
      (setPropertyValues_respects .changes now e.target field values))
    (fun field hfield => hpart hfield
      (fun s => removeProperty_editsField now e.target field s)
      (fun s _ _ _ _ => Or.inr rfl)
      (removeProperty_respects .changes now e.target field))

end Edit

namespace Store

variable {s : Store}

/-! ## Runs -/

/-- Steps that leave the rows of `field:fieldType` keep values fitting. -/
theorem keepsTyping_run {steps : List Step} (hsteps : Along LeavesDeclarations s steps) :
    KeepsTyping s (s.run steps) := by
  induction steps generalizing s with
  | nil => exact KeepsTyping.composes.refl s
  | cons step steps ih =>
    refine KeepsTyping.composes.trans ?_ (ih hsteps.2)
    obtain ⟨now, operation⟩ := step
    have hstep := hsteps.1
    cases operation with
    | table e => exact absurd hstep not_false
    | bootstrap fresh => exact absurd hstep not_false
    | graph e => exact Edit.graphEdit_keepsTyping now e hstep
    | query e => exact Edit.queryEdit_keepsTyping now e s

/-- From a well-typed store every run of edits of the graph and of saved queries that leaves the
rows of `field:fieldType` comes to a well-typed store, whether all nodes are meant or those that are
live. -/
theorem Sound.wellTyped_run (hs : s.Sound) (steps : List Step)
    (hsteps : Along LeavesDeclarations s steps) :
    (s.WellTyped (fun _ => True) → (s.run steps).WellTyped fun _ => True) ∧
    (s.WellTyped s.IsLive → (s.run steps).WellTyped (s.run steps).IsLive) := by
  have hkeeps := keepsTyping_run hsteps hs
  constructor
  · intro h
    obtain ⟨-, hsupertags, hfits⟩ := hkeeps h.supertags
    exact ⟨hsupertags, fun node field _ _ => hfits node field (h.fits node field trivial trivial)⟩
  · intro h
    obtain ⟨hs', hsupertags, hfits⟩ := hkeeps h.supertags
    refine ⟨hsupertags, fun node field hnode hfield => hfits node field ?_⟩
    -- What is live now has been so before, or it is new and had no rows.
    have hbefore : ∀ {id : NodeId}, (s.run steps).IsLive id →
        s.IsLive id ∨ StoredId.known id ∉ s.nodes.map (·.id) := by
      intro id hlive
      obtain ⟨handle, hholds⟩ := hs'.isLive_iff.mp hlive
      exact (Changes.holds_or_new (run_changes hs.native steps) hholds).imp_left fun hold =>
        hs.isLive_iff.mpr ⟨handle, hold⟩
    intro raw hraw
    rcases hbefore hnode with hnode | hnew
    · rcases hbefore hfield with hfield | hnew
      · exact h.fits node field hnode hfield raw hraw
      · rw [hs.texts_of_new_field hnew] at hraw
        cases hraw
    · rw [hs.texts_of_new hnew] at hraw
      cases hraw

/-- A price that is declared to be a number is written to a new node. -/
theorem wellTyped_run_price :
    let id (i : Nat) (h : i < 2 ^ 128) : NodeId := ⟨i, h⟩
    let create (id : NodeId) (systemId : String) : Step :=
      ⟨5, .graph (.createNode ⟨id, systemId, some systemId, none, []⟩)⟩
    let price := id 2 (by decide)
    let milk := id 3 (by decide)
    let start := Store.empty.run [create (id 1 (by decide)) Handle.fieldFieldType,
      create price "shop:price",
      ⟨6, .graph (.setProperty price Handle.fieldFieldType (.string "number") none)⟩]
    let steps : List Step := [create milk "shop:milk",
      ⟨7, .graph (.setProperty milk "shop:price" (.ofInt 3) none)⟩]
    start.Sound ∧ Along LeavesDeclarations start steps ∧ start.WellTyped (fun _ => True) ∧
      (start.run steps).WellTyped fun _ => True := by
  intro id create price milk start steps
  have hs : start.Sound := empty_sound.run _
  have hname : IsName "shop:price" := ⟨by decide +kernel, by decide +kernel⟩
  have hsteps : Along LeavesDeclarations start steps := by
    have hcreate : start.LeavesDeclarations (create milk "shop:milk") :=
      Edit.graphEdit_sameDeclarations (e := .createNode _) 5 hs fun _ _ _ h => (nomatch h)
    refine ⟨hcreate, Edit.graphEdit_sameDeclarations (e := .setProperty _ _ _ _) 7
      (hs.run [create milk "shop:milk"]) ?_, trivial⟩
    intro node field fieldNode hdirect hfound
    obtain ⟨-, rfl⟩ := Prod.mk.inj (Option.some.inj hdirect)
    rw [systemId_of_findLive? hname.trimmed hname.notId hfound]
    decide
  have hdeclares : start.Holds (.known (id 1 (by decide))) (some Handle.fieldFieldType) := by
    unfold Holds
    decide +kernel
  have hrows : ∀ r ∈ start.properties,
      r.nodeId = .known price ∧ r.fieldId = .known (id 1 (by decide)) := by decide +kernel
  have hunassigned : ∀ r ∈ start.nodes, r.systemId ≠ some Handle.fieldSupertag := by decide +kernel
  have htyped : start.WellTyped fun _ => True := by
    refine ⟨?_, fun node field _ _ raw hraw type htype => ?_⟩
    · rintro field ⟨r, hr, -, -, hhandle⟩
      exact absurd hhandle (hunassigned r hr)
    -- The only row is the declaration, and its field has no type itself.
    obtain ⟨r, hr, -, hfield, -⟩ := mem_texts.mp hraw
    obtain rfl := StoredId.known.inj (hfield.symm.trans (hrows r hr).2)
    have hnone : start.texts (id 1 (by decide)) (id 1 (by decide)) = [] := by
      refine List.eq_nil_iff_forall_not_mem.mpr fun raw' hraw' => ?_
      obtain ⟨r', hr', hnode, -⟩ := mem_texts.mp hraw'
      exact absurd (hnode.symm.trans (hrows r' hr').1) (by decide)
    rw [hs.fieldType?_eq hdeclares, hnone] at htype
    cases htype
  exact ⟨hs, hsteps, htyped, (hs.wellTyped_run steps hsteps).1 htyped⟩

end Store

end TagGraph
