import TagGraph.Proofs.Field.Places
import TagGraph.Proofs.Seed.Again
import TagGraph.Proofs.Tagged
import TagGraph.Proofs.Tombstone

/-!
# What seeding changes

A seeding that succeeds leaves the whole catalogue in the store (`Store.HasCatalogue`) and nothing
else behind (`Store.SeedsOnly`): it adds nodes for handles that no live node had, replaces the
declared types of fields and the parents of supertags of the catalogue, assigns supertags behind
those that its nodes have, and writes the definition of a query where there is none. Each step does
no more than this (`Seeding.step_seedsOnly`), and neither do several
(`Seeding.steps_seedsOnly`).
-/

namespace TagGraph

/-! ## The catalogue -/

namespace Catalogue

/-- All fields of the catalogue. -/
def fields : List CatalogueField :=
  coreFields ++ commonFields

/-- All supertags of the catalogue. -/
def supertags : List CatalogueSupertag :=
  metaSupertags ++ entitySupertags

/-- The handles of all nodes of the catalogue. -/
def handles : List String :=
  fields.map (·.systemId) ++ supertags.map (·.systemId) ++ queries.map (·.systemId)

/-- The supertag of each node of the catalogue that tells what kind of a node it is. -/
def kinds : List (String × String) :=
  fields.map (fun f => (f.systemId, Handle.supertagField)) ++
  supertags.map (fun t => (t.systemId, Handle.supertagSupertag)) ++
  queries.map fun q => (q.systemId, Handle.supertagQuery)

example : handles.length = 35 ∧ handles.Nodup := by decide

end Catalogue

namespace Store

/-- A node is the live one with a handle, and there is no other. -/
structure Named (s : Store) (handle : String) (n : Node) : Prop where
  found : s.nodeBySystemId? handle = .ok (some n)
  live : n ∈ s.liveNodes
  only : ∀ m ∈ s.liveNodes, m.systemId = some handle → m = n

/-- The whole catalogue is in the store: one live node for each handle, with the types of fields,
the parents of supertags, two supertags for each node, and a value in place of the definition of
each query. -/
structure HasCatalogue (s : Store) : Prop where
  nodes : ∀ handle ∈ Catalogue.handles, ∃ n, s.Named handle n
  types : ∀ f ∈ Catalogue.fields, ∀ n, s.Named f.systemId n →
    s.fieldType? n.id = .ok (some f.type)
  parents : ∀ t ∈ Catalogue.supertags, ∀ parent, t.parent = some parent →
    ∀ n above, s.Named t.systemId n → s.Named parent above → s.parent? n.id = .ok (some above.id)
  supertags : ∀ kind ∈ Catalogue.kinds, ∀ n, s.Named kind.1 n → ∃ node,
    s.assemble? n.id = .ok (some node) ∧ ∀ handle ∈ [kind.2, Handle.supertagSystem],
      ∀ tag, s.Named handle tag → node.hasSupertagId tag.id = true
  definitions : ∀ q ∈ Catalogue.queries, ∀ n, s.Named q.systemId n →
    ∃ value, s.value? n.id Handle.fieldQueryDefinition = .ok (some value)

end Store

/-- The row of a node without the time of its last change. -/
def NodeRecord.lasting (r : NodeRecord) : NodeRecord :=
  { r with updatedAt := .null }

namespace Store

/-- All that a seeding may change. Nodes keep everything but the time of their last change, and
those that are added are live ones for handles of the catalogue that no live node had. Rows are
written for nodes of the catalogue alone. Of their fields only the declared types and the parents
are replaced freely; supertags are assigned behind the others, and the definition of a query is
written if no row can be read as one. -/
structure SeedsOnly (s s' : Store) : Prop where
  handles : ∀ id handle, s.Holds id (some handle) → s'.Holds id (some handle)
  nodes : ∃ added : List NodeRecord,
    s'.nodes.map (·.lasting) = s.nodes.map (·.lasting) ++ added.map (·.lasting) ∧
    ∀ r ∈ added, r.isLive = true ∧ ∃ handle ∈ Catalogue.handles, r.systemId = some handle ∧
      ∀ id, ¬ s.Holds id (some handle)
  outside : ∀ n, (∀ handle ∈ Catalogue.handles, ¬ s'.Holds (.known n) (some handle)) →
    s'.rowsAt n = s.rowsAt n
  untouched : ∀ n f, (∀ field ∈ [Handle.fieldFieldType, Handle.fieldExtends, Handle.fieldSupertag,
      Handle.fieldQueryDefinition], ¬ s'.Holds (.known f) (some field)) →
    s'.fieldRecords n f = s.fieldRecords n f
  appended : ∀ n f, (∀ field ∈ [Handle.fieldFieldType, Handle.fieldExtends,
      Handle.fieldQueryDefinition], ¬ s'.Holds (.known f) (some field)) →
    s.fieldRecords n f <+: s'.fieldRecords n f
  defined : ∀ n f, (∀ field ∈ [Handle.fieldFieldType, Handle.fieldExtends, Handle.fieldSupertag],
      ¬ s'.Holds (.known f) (some field)) →
    ((∀ q ∈ Catalogue.queries, ¬ s'.Holds (.known n) (some q.systemId)) ∨
      (s.texts n f).filterMap PropertyValue.decode? ≠ []) →
    s'.fieldRecords n f = s.fieldRecords n f

variable {s s' : Store}

theorem OnlyField.rowsAt_eq {node field : NodeId} (h : OnlyField node field s s') {n : NodeId}
    (hne : n ≠ node) : s'.rowsAt n = s.rowsAt n := by
  have hrows : ∀ t : Store, (t.properties.filter (isElsewhere node field)).filter
      (fun r => r.nodeId == .known n) = t.rowsAt n := by
    intro t
    rw [rowsAt, List.filter_filter]
    refine List.filter_congr fun r _ => ?_
    by_cases hat : r.nodeId = .known n
    · simp [isElsewhere, hat, hne]
    · simp [hat]
  rw [← hrows s', ← hrows s, h.elsewhere]

namespace SeedsOnly

theorem refl (s : Store) : SeedsOnly s s where
  handles _ _ h := h
  nodes := ⟨[], (List.append_nil _).symm, fun _ h => nomatch h⟩
  outside _ _ := rfl
  untouched _ _ _ := rfl
  appended _ _ _ := List.prefix_refl _
  defined _ _ _ _ := rfl

theorem trans {a b c : Store} (hab : SeedsOnly a b) (hbc : SeedsOnly b c) : SeedsOnly a c where
  handles id handle h := hbc.handles id handle (hab.handles id handle h)
  nodes := by
    obtain ⟨first, hfirst, hnew⟩ := hab.nodes
    obtain ⟨second, hsecond, hnewer⟩ := hbc.nodes
    refine ⟨first ++ second, by rw [hsecond, hfirst, List.map_append, List.append_assoc], ?_⟩
    intro r hr
    rcases List.mem_append.mp hr with hr | hr
    · exact hnew r hr
    · obtain ⟨hlive, handle, hmem, hhandle, hfree⟩ := hnewer r hr
      exact ⟨hlive, handle, hmem, hhandle, fun id h => hfree id (hab.handles id handle h)⟩
  outside n hn := (hbc.outside n hn).trans
    (hab.outside n fun handle hmem h => hn handle hmem (hbc.handles _ _ h))
  untouched n f hf := (hbc.untouched n f hf).trans
    (hab.untouched n f fun field hmem h => hf field hmem (hbc.handles _ _ h))
  appended n f hf := (hab.appended n f fun field hmem h => hf field hmem (hbc.handles _ _ h)).trans
    (hbc.appended n f hf)
  defined n f hf hdefined := by
    have hfirst : b.fieldRecords n f = a.fieldRecords n f := by
      refine hab.defined n f (fun field hmem h => hf field hmem (hbc.handles _ _ h)) ?_
      exact hdefined.imp_left fun h q hq hholds => h q hq (hbc.handles _ _ hholds)
    rw [← hfirst]
    refine hbc.defined n f hf (hdefined.imp_right fun h => ?_)
    rwa [texts, hfirst]

theorem composes : Composes SeedsOnly :=
  ⟨refl, trans⟩

/-- A node for a handle that no live node has. -/
theorem addNode {now : Int} {id : NodeId} {handle content : String}
    (hhandle : handle ∈ Catalogue.handles)
    (hfree : Edit.conflict? s (Edit.newRecord now (.system id handle content)) = none) :
    SeedsOnly s
      { s with nodes := s.nodes ++ [Edit.newRecord now (.system id handle content)] } where
  handles _ _ h := (holds_addNode rfl).mpr (Or.inl h)
  nodes := by
    refine ⟨[Edit.newRecord now (.system id handle content)], List.map_append, fun r hr => ?_⟩
    obtain rfl := List.mem_singleton.mp hr
    refine ⟨rfl, handle, hhandle, rfl, ?_⟩
    rintro other ⟨m, hm, hlive, -, hmhandle⟩
    have hgiven : (Edit.newRecord now (.system id handle content)).handle? = some handle := rfl
    refine not_mem_liveHandles_of_free hfree hgiven ?_
    exact List.mem_filterMap.mpr ⟨m, List.mem_filter.mpr ⟨hm, hlive⟩, hmhandle⟩
  outside _ _ := rfl
  untouched _ _ _ := rfl
  appended _ _ _ := List.prefix_refl _
  defined _ _ _ _ := rfl

end SeedsOnly

/-! ## Steps that write rows -/

/-- The nodes are the same but for the times of their last change. -/
def KeepsNodes (s s' : Store) : Prop :=
  s'.nodes.map (·.lasting) = s.nodes.map (·.lasting)

theorem keepsNodes_composes : Composes KeepsNodes :=
  ⟨fun _ => rfl, fun hab hbc => Eq.trans hbc hab⟩

theorem keepsNodes_rowLaw {fields : NodeId → NodeId → Prop} {texts : String → Prop} :
    RowLaw (Natively KeepsNodes) fields texts where
  toComposes := keepsNodes_composes.natively
  touchNode now {id} _ := by
    refine Edit.touchNode_respects now id fun s => ?_
    rw [KeepsNodes, updateNode, List.map_map]
    refine List.map_congr_left fun r _ => ?_
    by_cases hid : (r.id == StoredId.known id && r.isLive) = true
    · rw [Function.comp_apply, if_pos hid]
      rfl
    · rw [Function.comp_apply, if_neg hid]
  insertProperty now node field _ raw _ order :=
    Edit.insertProperty_respects keepsNodes_composes now node field raw
      (fun _ _ _ _ _ _ => Eq.refl _) order
  deleteFieldProperties {node field} _ :=
    Edit.deleteFieldProperties_respects node field fun _ => Eq.refl _

/-- A change of one of the four fields of a node of the catalogue, if it keeps to what may be
changed of that field. -/
theorem SeedsOnly.of_onlyField {n f : NodeId} {node field : String} (h : OnlyField n f s s')
    (hnodes : KeepsNodes s s') (hnode : s.Holds (.known n) (some node))
    (hmem : node ∈ Catalogue.handles) (hfield : s.Holds (.known f) (some field))
    (hwritten : field ∈ [Handle.fieldFieldType, Handle.fieldExtends, Handle.fieldSupertag,
      Handle.fieldQueryDefinition])
    (hassigned : field = Handle.fieldSupertag → s.fieldRecords n f <+: s'.fieldRecords n f)
    (hdefined : field = Handle.fieldQueryDefinition → (∃ q ∈ Catalogue.queries, q.systemId = node) ∧
      (s.texts n f).filterMap PropertyValue.decode? = []) : SeedsOnly s s' where
  handles id handle := (h.holds id (some handle)).mpr
  nodes := ⟨[], by rw [hnodes, List.map_nil, List.append_nil], fun _ h => nomatch h⟩
  outside m hm := h.rowsAt_eq (by
    rintro rfl
    exact hm node hmem ((h.holds _ _).mpr hnode))
  untouched m g hg := h.fieldRecords_eq (by
    rintro ⟨-, rfl⟩
    exact hg field hwritten ((h.holds _ _).mpr hfield))
  appended m g hg := by
    by_cases hat : m = n ∧ g = f
    · obtain ⟨rfl, rfl⟩ := hat
      refine hassigned (by_contra fun hne => ?_)
      refine hg field ?_ ((h.holds _ _).mpr hfield)
      simp only [List.mem_cons, List.not_mem_nil, or_false] at hwritten ⊢
      tauto
    · exact ⟨[], by rw [List.append_nil, h.fieldRecords_eq hat]⟩
  defined m g hg hunless := by
    refine h.fieldRecords_eq ?_
    rintro ⟨rfl, rfl⟩
    have hquery : field = Handle.fieldQueryDefinition := by
      by_contra hne
      refine hg field ?_ ((h.holds _ _).mpr hfield)
      simp only [List.mem_cons, List.not_mem_nil, or_false] at hwritten ⊢
      tauto
    obtain ⟨⟨q, hq, rfl⟩, hnone⟩ := hdefined hquery
    rcases hunless with hother | hvalues
    · exact hother q hq ((h.holds _ _).mpr hnode)
    · exact hvalues hnone

end Store

namespace Edit

open Store

variable {s s' : Store}

/-- An edit of one of the four fields changes no more than that field of its node. -/
theorem EditsField.seedsOnly {α : Type} {e : Edit α} {a : α} {n : NodeId} {node field : String}
    {values : List PropertyValue} (he : EditsField e s n field values) (hok : e s = .ok a s')
    (hs : s.Sound) (hname : IsName field) (hnode : s.Holds (.known n) (some node))
    (hmem : node ∈ Catalogue.handles)
    (hwritten : field ∈ [Handle.fieldFieldType, Handle.fieldExtends, Handle.fieldSupertag,
      Handle.fieldQueryDefinition])
    (hassigned : field = Handle.fieldSupertag → ∀ f, s.Holds (.known f) (some field) →
      s.fieldRecords n f <+: s'.fieldRecords n f)
    (hdefined : field = Handle.fieldQueryDefinition → (∃ q ∈ Catalogue.queries, q.systemId = node) ∧
      ∀ f, s.Holds (.known f) (some field) → (s.texts n f).filterMap PropertyValue.decode? = []) :
    SeedsOnly s s' := by
  obtain rfl := after_of_ok hok
  rcases he with hsame | ⟨fieldNode, hadmits, hrows⟩
  · rw [hsame]
    exact .refl s
  · have hfield := hs.holds_of_found hname hadmits.found
    exact .of_onlyField (hrows _ (OnlyField.rowLaw n fieldNode.id _) hs.native).2
      (hrows _ keepsNodes_rowLaw hs.native).2 hnode hmem hfield hwritten
      (fun h => hassigned h _ hfield) fun h => (hdefined h).imp_right fun hnone => hnone _ hfield

end Edit

/-! ## Steps of a seeding -/

/-- The nodes that a step writes to belong to the catalogue, and definitions are those of its
queries. -/
def SeedStep.isListed : SeedStep → Bool
  | .create systemId _ => Catalogue.handles.contains systemId
  | .declare field _ => Catalogue.handles.contains field
  | .assign node _ => Catalogue.handles.contains node
  | .inherit supertag _ => Catalogue.handles.contains supertag
  | .save query _ => (Catalogue.queries.map (·.systemId)).contains query

theorem SeedStep.plan_isListed : ∀ step ∈ plan, step.isListed = true :=
  List.all_eq_true.mp (by decide +kernel)

namespace Seeding

open Store

variable {earlier : List SeedStep} {state state' : SeedState} {now : Int} {fresh : Nat → NodeId}

/-- A step that succeeds changes what it may. -/
theorem step_seedsOnly (h : Reached earlier state) {step : SeedStep}
    (hlisted : step.isListed = true)
    (hok : Seeding.step now fresh step state = .ok () state') :
    SeedsOnly state.store state'.store := by
  cases step with
  | create systemId content =>
    obtain ⟨id, drawn, hdraw, hok⟩ := ok_of_bind hok
    obtain ⟨-, rfl⟩ := EStateM.Result.ok.inj hdraw
    obtain ⟨found, filled, hedit, hok⟩ := ok_of_bind hok
    obtain ⟨s', hinsert, rfl⟩ := edit_ok hedit
    obtain ⟨-, rfl⟩ := EStateM.Result.ok.inj hok
    have hadd := Edit.insertSystemNode_respects SeedsOnly.composes now id systemId content
      (fun _ _ hfree => .addNode (List.contains_iff_mem.mp hlisted) hfree) _ h.sound.native
    rw [Edit.after_of_ok hinsert] at hadd
    exact hadd.2
  | declare field type =>
    obtain ⟨id, hid, hok⟩ := ok_of_require hok
    obtain ⟨s', hset, rfl⟩ := edit_ok hok
    have hedits := Edit.setProperty_editsField now id Handle.fieldFieldType (.string type.name) none
      state.store
    exact hedits.seedsOnly hset h.sound isName_fieldFieldType (h.holds_of_id? hid)
      (List.contains_iff_mem.mp hlisted) (by decide) (fun hfield => absurd hfield (by decide))
      fun hfield => absurd hfield (by decide)
  | assign node supertag =>
    obtain ⟨id, hid, hok⟩ := ok_of_require hok
    obtain ⟨tag, -, hok⟩ := ok_of_require hok
    obtain ⟨added, attached, hedit, hok⟩ := ok_of_bind hok
    obtain ⟨-, rfl⟩ := EStateM.Result.ok.inj hok
    obtain ⟨s', hattach, rfl⟩ := edit_ok hedit
    have hedits := Edit.attachSupertag_editsField now id tag state.store
    exact hedits.seedsOnly hattach h.sound isName_fieldSupertag (h.holds_of_id? hid)
      (List.contains_iff_mem.mp hlisted) (by decide)
      (fun _ f hf => Edit.attachSupertag_prefix h.sound hf hattach)
      fun hfield => absurd hfield (by decide)
  | inherit supertag parent =>
    obtain ⟨id, hid, hok⟩ := ok_of_require hok
    obtain ⟨above, -, hok⟩ := ok_of_require hok
    obtain ⟨s', hset, rfl⟩ := edit_ok hok
    have hedits := Edit.setProperty_editsField now id Handle.fieldExtends (.node above) none
      state.store
    exact hedits.seedsOnly hset h.sound isName_fieldExtends (h.holds_of_id? hid)
      (List.contains_iff_mem.mp hlisted) (by decide) (fun hfield => absurd hfield (by decide))
      fun hfield => absurd hfield (by decide)
  | save query definition =>
    obtain ⟨id, hid, hok⟩ := ok_of_require hok
    obtain ⟨found, asked, hask, hok⟩ := ok_of_bind hok
    obtain ⟨s', hlook, rfl⟩ := edit_ok hask
    obtain rfl := (Edit.Reads.ask _).eq_of_ok hlook
    cases found with
    | some value =>
      obtain ⟨-, rfl⟩ := EStateM.Result.ok.inj hok
      exact .refl _
    | none =>
      obtain ⟨s', hset, rfl⟩ := edit_ok hok
      have hnode := h.holds_of_id? hid
      obtain ⟨q, hq, hquery⟩ := List.mem_map.mp (List.contains_iff_mem.mp hlisted)
      have hmem : query ∈ Catalogue.handles :=
        List.mem_append_right _ (List.contains_iff_mem.mp hlisted)
      have hedits := Edit.setProperty_editsField now id Handle.fieldQueryDefinition
        (.json definition.toDocument) none state.store
      refine hedits.seedsOnly hset h.sound isName_fieldQueryDefinition hnode hmem (by decide)
        (fun hfield => absurd hfield (by decide)) fun _ => ⟨⟨q, hq, hquery⟩, fun f hf => ?_⟩
      -- The step has looked for a row that can be read, and found none.
      obtain ⟨field, hfield, rfl, -⟩ :=
        h.sound.findLive?_of_holds isName_fieldQueryDefinition hf
      have hvalue := h.sound.value?_eq (h.sound.isLive_iff.mpr ⟨_, hnode⟩) hfield
      have hnone := Except.ok.inj (hvalue.symm.trans (Edit.ask_ok hlook))
      exact List.head?_eq_none_iff.mp hnone

/-- So do several, each after the others. -/
theorem steps_seedsOnly {rest : List SeedStep} (hrest : SeedStep.isArranged earlier rest = true)
    (hlisted : ∀ step ∈ rest, step.isListed = true) (h : Reached earlier state)
    (hok : Seeding.steps now fresh rest state = .ok () state') :
    SeedsOnly state.store state'.store := by
  refine h.steps_preserve (P := fun later => SeedsOnly state.store later.store)
    (fun _ step _ _ hmem _ hreached hstep hseeds => ?_) hrest hok (.refl _)
  exact hseeds.trans (step_seedsOnly hreached (hlisted step hmem) hstep)

end Seeding

/-! ## The whole catalogue -/

namespace SeedStep

/-- The supertag that a step assigns to a node. -/
def assigned? : SeedStep → Option (String × String)
  | .assign node supertag => some (node, supertag)
  | _ => none

/-- The supertag to which a step gives a parent, with the parent. -/
def inherited? : SeedStep → Option (String × String)
  | .inherit supertag parent => some (supertag, parent)
  | _ => none

/-- The query whose definition a step writes. -/
def saved? : SeedStep → Option String
  | .save query _ => some query
  | _ => none

theorem plan_creates : ∀ handle ∈ Catalogue.handles, handle ∈ plan.filterMap (·.created?) := by
  decide +kernel

theorem plan_declares :
    ∀ f ∈ Catalogue.fields, (f.systemId, f.type) ∈ plan.filterMap (·.declared?) := by
  decide +kernel

theorem plan_inherits : ∀ t ∈ Catalogue.supertags, ∀ parent ∈ t.parent,
    (t.systemId, parent) ∈ plan.filterMap (·.inherited?) := by
  decide +kernel

theorem plan_assigns : ∀ kind ∈ Catalogue.kinds, ∀ handle ∈ [kind.2, Handle.supertagSystem],
    (kind.1, handle) ∈ plan.filterMap (·.assigned?) := by
  decide +kernel

theorem plan_saves :
    ∀ q ∈ Catalogue.queries, q.systemId ∈ plan.filterMap (·.saved?) := by
  decide +kernel

end SeedStep

namespace Store

variable {s : Store} {steps : List SeedStep}

namespace Sound

theorem holds_of_named (hs : s.Sound) {handle : String} {n : Node} (h : s.Named handle n) :
    s.Holds (.known n.id) (some handle) :=
  hs.holds_of_nodeBySystemId? h.found

theorem exists_named (hs : s.Sound) {id : NodeId} {handle : String}
    (h : s.Holds (.known id) (some handle)) : ∃ n, s.Named handle n := by
  obtain ⟨n, hn, -, -⟩ := hs.nodeBySystemId?_of_holds h
  refine ⟨n, hn, (hs.nodeBySystemId?_eq_some_iff.mp hn).1, fun m hm hhandle => ?_⟩
  have hm := hs.nodeBySystemId?_eq_some_iff.mpr ⟨hm, hhandle⟩
  exact Option.some.inj (Except.ok.inj (hm.symm.trans hn))

/-- The parent that a step has given to a supertag. -/
theorem parent?_of_hasDone (hs : s.Sound) (hdone : ∀ step ∈ steps, s.HasDone step)
    {supertag parent : String} {n above : NodeId}
    (hinherits : (supertag, parent) ∈ steps.filterMap (·.inherited?))
    (hn : s.Holds (.known n) (some supertag)) (habove : s.Holds (.known above) (some parent)) :
    s.parent? n = .ok (some above) := by
  obtain ⟨step, hstep, hinherited⟩ := List.mem_filterMap.mp hinherits
  cases step with
  | inherit t p =>
    cases hinherited
    obtain ⟨child, target, raw, hchild, htarget, hraw, ⟨m, f, hm, hf, htexts⟩, -⟩ := hdone _ hstep
    obtain rfl := StoredId.known.inj (hs.holds_unique hn hm)
    obtain rfl := StoredId.known.inj (hs.holds_unique habove htarget)
    obtain ⟨found, hfound, hiff⟩ := hs.exists_parent? hf n
    have hparent : parentOf? (s.texts n f) = some above := by
      rw [htexts, parentOf?, List.findSome?_singleton, PropertyValue.parentIn?,
        PropertyValue.decode?_of_encode? hraw]
      rfl
    rw [hfound, (hiff above).mpr ⟨hparent, hs.isLive_iff.mpr ⟨_, habove⟩⟩]
  | _ => cases hinherited

/-- The supertag that a step has assigned to a node. -/
theorem carries_of_hasDone (hs : s.Sound) (hdone : ∀ step ∈ steps, s.HasDone step)
    {node supertag : String} {n tag : NodeId}
    (hassigns : (node, supertag) ∈ steps.filterMap (·.assigned?))
    (hn : s.Holds (.known n) (some node)) (htag : s.Holds (.known tag) (some supertag)) :
    s.Carries n tag := by
  obtain ⟨step, hstep, hassigned⟩ := List.mem_filterMap.mp hassigns
  cases step with
  | assign m t =>
    cases hassigned
    obtain ⟨target, htarget, m, f, hm, hf, raw, hraw, value, hvalue, hrefers⟩ := hdone _ hstep
    obtain rfl := StoredId.known.inj (hs.holds_unique hn hm)
    obtain rfl := StoredId.known.inj (hs.holds_unique htag htarget)
    obtain ⟨r, hr, hnode, hfield, rfl⟩ := mem_texts.mp hraw
    refine ⟨r, hr, hnode, hfield ▸ hf, ?_⟩
    rwa [PropertyValue.referencedIn, hvalue]
  | _ => cases hassigned

/-- The value in place of the definition of a query for which a step has seen to it. -/
theorem value?_of_hasDone (hs : s.Sound) (hdone : ∀ step ∈ steps, s.HasDone step)
    {query : String} {n : NodeId} (hsaves : query ∈ steps.filterMap (·.saved?))
    (hn : s.Holds (.known n) (some query)) :
    ∃ value, s.value? n Handle.fieldQueryDefinition = .ok (some value) := by
  obtain ⟨step, hstep, hsaved⟩ := List.mem_filterMap.mp hsaves
  cases step with
  | save q definition =>
    cases hsaved
    obtain ⟨m, f, hm, hf, hvalues⟩ := hdone _ hstep
    obtain rfl := StoredId.known.inj (hs.holds_unique hn hm)
    obtain ⟨field, hfound, rfl, -⟩ := hs.findLive?_of_holds isName_fieldQueryDefinition hf
    obtain ⟨value, hvalue⟩ := Option.ne_none_iff_exists'.mp (mt List.head?_eq_none_iff.mp hvalues)
    refine ⟨value, ?_⟩
    rw [hs.value?_eq (hs.isLive_iff.mpr ⟨_, hn⟩) hfound, hvalue]
  | _ => cases hsaved

/-- Where all steps of the catalogue have been carried out, the whole catalogue is there. -/
theorem hasCatalogue (hs : s.Sound) (hdone : ∀ step ∈ SeedStep.plan, s.HasDone step) :
    s.HasCatalogue where
  nodes handle hmem := by
    obtain ⟨step, hstep, hcreated⟩ := List.mem_filterMap.mp (SeedStep.plan_creates handle hmem)
    cases step with
    | create systemId content =>
      cases hcreated
      obtain ⟨-, id, hid⟩ := hdone _ hstep
      exact hs.exists_named hid
    | _ => cases hcreated
  types f hf n hn :=
    hs.fieldType?_of_hasDone hdone (SeedStep.plan_declares f hf) (hs.holds_of_named hn)
  parents t ht parent hparent n above hn habove :=
    hs.parent?_of_hasDone hdone (SeedStep.plan_inherits t ht parent hparent) (hs.holds_of_named hn)
      (hs.holds_of_named habove)
  supertags kind hkind n hn := by
    refine ⟨s.joined n, ?_, fun handle hhandle tag htag => ?_⟩
    · rw [hs.assemble?_eq, hs.node?_eq_some_iff.mpr ⟨hn.live, rfl⟩]
      rfl
    · have hcarries := hs.carries_of_hasDone hdone (SeedStep.plan_assigns kind hkind handle hhandle)
        (hs.holds_of_named hn) (hs.holds_of_named htag)
      have hmem := hs.mem_ids_supertags_joined.mpr
        ⟨hcarries, hs.isLive_of_mem_liveNodes htag.live⟩
      obtain ⟨reference, hreference, hid⟩ := List.mem_map.mp hmem
      exact List.any_eq_true.mpr ⟨reference, hreference, beq_iff_eq.mpr hid⟩
  definitions q hq n hn :=
    hs.value?_of_hasDone hdone (SeedStep.plan_saves q hq) (hs.holds_of_named hn)

end Sound

end Store

/-- What a seeding that succeeds leaves, its steps have left. -/
theorem Edit.steps_of_bootstrap {now : Int} {fresh : Nat → NodeId} {s s' : Store}
    {summary : SeedSummary} (h : Edit.bootstrap now fresh s = .ok summary s') :
    ∃ state, Seeding.steps now fresh SeedStep.plan ⟨s, .empty⟩ = .ok () state ∧
      state.store = s' := by
  have hseed := ok_of_atomically h
  cases hrun : Seeding.all now fresh ⟨s, .empty⟩ with
  | ok answer state =>
    rw [Store.seed, hrun] at hseed
    obtain ⟨-, rfl⟩ := EStateM.Result.ok.inj hseed
    exact ⟨state, (Seeding.all_ok hrun).1, rfl⟩
  | error err state =>
    rw [Store.seed, hrun] at hseed
    cases hseed

/-- A seeding that succeeds leaves the whole catalogue, and nothing but what a seeding may change has
changed. -/
theorem Edit.bootstrap_leaves {now : Int} {fresh : Nat → NodeId} {s s' : Store}
    {summary : SeedSummary} (hs : s.Sound) (h : Edit.bootstrap now fresh s = .ok summary s') :
    s'.Sound ∧ s'.HasCatalogue ∧ s.SeedsOnly s' := by
  obtain ⟨state, hsteps, rfl⟩ := Edit.steps_of_bootstrap h
  have hempty : Seeding.Reached [] ⟨s, .empty⟩ := Seeding.reached_empty hs
  have hreached := hempty.steps SeedStep.plan_isArranged hsteps
  exact ⟨hreached.sound, hreached.sound.hasCatalogue hreached.done,
    Seeding.steps_seedsOnly SeedStep.plan_isArranged SeedStep.plan_isListed hempty hsteps⟩

/-- Seeding a store that any run has left fails and leaves it as it was, or it succeeds, and then
the whole catalogue is there, and nothing but what a seeding may change has changed. -/
theorem Edit.bootstrap_effect (steps : List Step) (now : Int) (fresh : Nat → NodeId) :
    let s := Store.empty.run steps
    (∃ err, Edit.bootstrap now fresh s = .error err s) ∨
    ∃ summary s', Edit.bootstrap now fresh s = .ok summary s' ∧ s'.HasCatalogue ∧
      s.SeedsOnly s' := by
  intro s
  have hs : s.Sound := Store.empty_sound.run steps
  cases hrun : Seeding.all now fresh ⟨s, .empty⟩ with
  | error err state =>
    exact Or.inl ⟨err, Edit.atomically_of_error (by rw [Store.seed, hrun])⟩
  | ok summary state =>
    have hok : Edit.bootstrap now fresh s = .ok summary state.store :=
      Edit.atomically_of_ok (by rw [Store.seed, hrun])
    exact Or.inr ⟨summary, state.store, hok, (Edit.bootstrap_leaves hs hok).2⟩

end TagGraph
