import TagGraph.Proofs.Query.Agreement
import TagGraph.Proofs.Query.Kept

/-!
# Definitions saved on seeded queries

The edits of a saved query leave everything beside the fields of the query
(`Store.queryEdit_agreesBeside`), and a definition is no reference: a query that has just been saved
links to what it did in its other fields (`Store.links_saveQuery_iff`). A query of the catalogue has
none of these in a freshly seeded store. Any valid definition can be saved on it there, and it is
refreshed with it (`Store.exists_freshlySaved`).
-/

namespace TagGraph

open Seeding

namespace Store

open Edit (IsCacheField IsQueryField)

variable {s s' : Store} {q : NodeId} {d : QueryDefinition}

/-! ## Saving a definition -/

/-- Edits of a saved query leave everything beside its fields. -/
theorem queryEdit_agreesBeside (now : Int) (e : QueryEdit) (hs : s.Sound) :
    AgreesBeside e.target (s.HasOneOf IsQueryField) s ((e.edit now).after s) := by
  have hcomposes : Composes fun s s' : Store =>
      s.Sound → AgreesBeside e.target (s.HasOneOf IsQueryField) s s' := by
    refine ⟨fun _ hs => .refl hs, fun {a b c} hab hbc ha => ?_⟩
    have hab := hab ha
    refine hab.trans ((hbc hab.sound).mono fun f hf => ?_)
    obtain ⟨handle, hhandle, hf⟩ := hf
    exact ⟨handle, hhandle, (hab.holds _ _).mp hf⟩
  have hpart : ∀ {β : Type} {part : Edit β} {field : String} {values : List PropertyValue},
      IsQueryField field → (∀ s, Edit.EditsField part s e.target field values) →
      Edit.Respects (Natively Changes) part → Edit.Respects (fun s s' : Store =>
        s.Sound → AgreesBeside e.target (s.HasOneOf IsQueryField) s s') part :=
    fun hfield hedits hsound s hs =>
      (AgreesBeside.of_editsField (hedits s) hsound hs hfield.isName).mono
        fun _ hf => ⟨_, hfield, hf⟩
  exact Edit.queryEdit_respects_of_fields hcomposes now e
    (fun field value hfield => hpart hfield
      (fun s => Edit.setProperty_editsField now e.target field value none s)
      (Edit.setProperty_respects .changes now e.target field value none))
    (fun field values hfield => hpart hfield
      (fun s => Edit.setPropertyValues_editsField now e.target field values s)
      (Edit.setPropertyValues_respects .changes now e.target field values))
    (fun field hfield => hpart hfield
      (fun s => Edit.removeProperty_editsField now e.target field s)
      (Edit.removeProperty_respects .changes now e.target field)) s hs

/-- A query that has just been saved links to what it did in its other fields. -/
theorem links_saveQuery_iff (hs : s.Sound) {now : Int}
    (h : Edit.saveQuery now q d s = .ok () s') (id : NodeId) : s'.Links q id ↔
      s.Refers (fun field => s.Counts none field ∧ ¬ s.HasOneOf IsQueryField field) q id := by
  have hafter : ((QueryEdit.save q d).edit now).after s = s' := Edit.after_of_ok h
  have hagrees : AgreesBeside q (s.HasOneOf IsQueryField) s s' :=
    hafter ▸ queryEdit_agreesBeside now (.save q d) hs
  rw [Links, hagrees.counts_eq, hagrees.refers_self_iff hs]
  -- It is left to show that the fields of the query hold no references.
  refine or_iff_right ?_
  rintro ⟨field, ⟨-, handle, hhandle, hfield⟩, -, raw, hraw, hid⟩
  have hfield' := (hagrees.holds _ _).mpr hfield
  rcases hhandle with rfl | hcache
  · -- There is the text of the definition, and it is no reference.
    obtain ⟨-, -, -, fieldNode, text, hfound, htext, htexts⟩ := hs.saveQuery_ok h
    obtain rfl := StoredId.known.inj (hagrees.sound.holds_unique hfield'
      (hagrees.sound.holds_of_found isName_fieldQueryDefinition hfound))
    rw [htexts, List.mem_singleton] at hraw
    have hdecode := PropertyValue.decode?_of_encode? htext
    rw [hraw, PropertyValue.referencedIn, hdecode] at hid
    split at hid <;> cases hid
  · obtain ⟨-, t, hset, hdrop⟩ := Edit.saveQuery_ok_iff.mp h
    have ht := hs.after (Edit.setProperty_respects .changes now q Handle.fieldQueryDefinition
      (.json d.toDocument) none)
    rw [Edit.after_of_ok hset] at ht
    have hname : IsName handle := IsQueryField.isName (Or.inr hcache)
    rw [← textsIn_of_holds hagrees.sound hname hfield',
      textsIn_of_dropCache ht hdrop hcache] at hraw
    cases hraw

/-- Dropping an answer gives out no numbers. -/
theorem lastRowId_of_dropCache {now : Int} (h : Edit.dropCache now q s = .ok () s') :
    s'.lastRowId = s.lastRowId := by
  have hremove : ∀ {field : String} {removed : Nat} {a b : Store},
      Edit.removeProperty now q field a = .ok removed b → b.lastRowId = a.lastRowId := by
    intro field removed a b hremove
    obtain ⟨hlive, fieldNode, hfound⟩ := Edit.removeProperty_succeeds_iff.mp ⟨removed, b, hremove⟩
    rw [Edit.removeProperty_of now hlive hfound] at hremove
    obtain ⟨-, rfl⟩ := EStateM.Result.ok.inj hremove
    split <;> rfl
  obtain ⟨removed, t, hfirst, h⟩ := Edit.ok_of_bind h
  obtain ⟨removed', u, hsecond, h⟩ := Edit.ok_of_bind h
  obtain ⟨-, rfl⟩ := EStateM.Result.ok.inj h
  rw [hremove hsecond, hremove hfirst]

/-- A valid definition can be saved on a live node if the fields are there and there is room for a
row. -/
theorem exists_saveQuery (hs : s.Sound) (hc : s.Counted) {count : Nat}
    (hroom : s.Roomy (count + 1)) (now : Int) (hlive : s.IsLive q)
    (hdefinition : s.Provides Handle.fieldQueryDefinition .json)
    (hcache : s.HasField Handle.fieldResultCache) (htime : s.HasField Handle.fieldEvaluatedAt)
    (hvalid : d.isValid = true) :
    ∃ s', Edit.saveQuery now q d s = .ok () s' ∧ s'.lastRowId ≤ s.lastRowId + 1 := by
  have hname := isName_fieldQueryDefinition
  have htakes : s.Takes Handle.fieldQueryDefinition [.json d.toDocument] :=
    hdefinition.takes hs hname rfl
  obtain ⟨fieldNode, type, hfound, htype, hconforms⟩ := htakes
  have hconforms : type.all ((PropertyValue.json d.toDocument).conformsTo ·) = true := by
    simpa using hconforms
  obtain ⟨raw, hraw⟩ := Option.isSome_iff_exists.mp
    ((PropertyValue.encode?_isSome_iff (.json d.toDocument)).mpr fun _ h => nomatch h)
  have hadmits : s.Admits q Handle.fieldQueryDefinition [.json d.toDocument] fieldNode := by
    refine ⟨hlive, hfound, fun _ parent hparent => ?_⟩
    rw [List.flatMap_singleton] at hparent
    cases hparent
  obtain ⟨t, hset, hspends⟩ := Edit.setProperty_spends hs hc.nonneg hroom now hadmits htype
    hconforms (Edit.takesOne_of_conforms rfl hconforms) hraw
  obtain ⟨_, s', hdrop⟩ := (saveQuery_first hs hset).1.mpr ⟨hcache, htime⟩
  refine ⟨s', Edit.saveQuery_ok_iff.mpr ⟨hvalid, t, hset, hdrop⟩, ?_⟩
  rw [lastRowId_of_dropCache hdrop]
  exact hspends.numbers.2

/-! ## Queries of the catalogue -/

/-- Seeding writes supertags and a definition on the queries of the catalogue, and nothing else. -/
theorem field_of_written {step : SeedStep} (hstep : step ∈ SeedStep.plan) {handle field : String}
    (hwritten : step.written? = some (handle, field))
    (hquery : handle ∈ Catalogue.queries.map (·.systemId)) :
    field = Handle.fieldSupertag ∨ field = Handle.fieldQueryDefinition := by
  have hall : ∀ pair ∈ SeedStep.plan.filterMap (·.written?),
      pair.1 ∈ Catalogue.queries.map (·.systemId) →
        pair.2 = Handle.fieldSupertag ∨ pair.2 = Handle.fieldQueryDefinition := by
    decide +kernel
  exact hall _ (List.mem_filterMap.mpr ⟨step, hstep, hwritten⟩) hquery

/-- In a freshly seeded store a query of the catalogue refers to nothing in other fields. -/
theorem not_refers_seeded {fresh : Nat → NodeId} {left : Nat} {state : SeedState}
    (h : Since Store.empty fresh SeedStep.plan left state) {handle : String}
    (hquery : handle ∈ Catalogue.queries.map (·.systemId))
    (hq : state.store.Holds (.known q) (some handle)) (id : NodeId) :
    ¬ state.store.Refers (fun field => state.store.Counts none field ∧
      ¬ state.store.HasOneOf IsQueryField field) q id := by
  rintro ⟨f, ⟨hcounts, hfield⟩, -, raw, hraw, -⟩
  have htexts : state.store.texts q f = Store.empty.texts q f := by
    refine h.texts q f fun step hstep node field hwritten hnode hf => ?_
    obtain rfl := Option.some.inj (h.sound.handle_unique hnode hq)
    rcases field_of_written hstep hwritten hquery with rfl | rfl
    · exact hcounts hf
    · exact hfield ⟨_, Or.inl rfl, hf⟩
  rw [htexts, empty_sound.texts_of_new List.not_mem_nil] at hraw
  cases hraw

/-- A definition has just been saved on a query of a freshly seeded store. -/
structure FreshlySaved (s : Store) (q : NodeId) (d : QueryDefinition) : Prop where
  sound : s.Sound
  live : s.IsLive q
  few : s.liveNodes.length ≤ 35
  loaded : s.loadQuery? q = .ok (some d)
  linksNothing : ∀ id, ¬ s.Links q id
  refreshed : ∀ now, ∃ page s', Edit.runSaved now q true s = .ok page s'

/-- A seeded store comes about by a run from the empty store. -/
theorem run_bootstrap {time : Int} {fresh : Nat → NodeId} {summary : SeedSummary} {start : Store}
    (h : Edit.bootstrap time fresh Store.empty = .ok summary start) (steps : List Step) :
    Store.empty.run (⟨time, .bootstrap fresh⟩ :: steps) = start.run steps := by
  have hafter : (Operation.edit time (.bootstrap fresh)).after Store.empty = start :=
    (Edit.after_discard _ _).trans (Edit.after_of_ok h)
  rw [run_cons, Store.step, hafter]

/-- In a freshly seeded store every valid definition that is read back, and whose text leaves room
for the tag of a stored one, can be saved on a query of the catalogue. -/
theorem exists_freshlySaved (time now : Int) {fresh : Nat → NodeId}
    (hdistinct : ∀ i < Catalogue.handles.length, ∀ j < Catalogue.handles.length,
      fresh i = fresh j → i = j) {handle : String}
    (hquery : handle ∈ Catalogue.queries.map (·.systemId)) {d : QueryDefinition}
    (hvalid : d.isValid = true) (hdepth : d.toJson.depth ≤ 126) (hback : d.ReadsBack) :
    ∃ summary start q, Edit.bootstrap time fresh Store.empty = .ok summary start ∧
      start.Holds (.known q) (some handle) ∧
      (start.run [⟨now, .query (.save q d)⟩]).FreshlySaved q d ∧
      ∀ id handle, (start.run [⟨now, .query (.save q d)⟩]).Holds id handle ↔
        start.Holds id handle := by
  obtain ⟨summary, state, hstart, hsteps, hsince⟩ := Edit.bootstrap_empty time hdistinct
  have hs := hsince.sound
  have hcounted : state.store.Counted := by
    have hrun := empty_counted.run empty_sound [⟨time, .bootstrap fresh⟩]
    rwa [run_bootstrap hstart, run_nil] at hrun
  have hmem : handle ∈ SeedStep.plan.filterMap (·.created?) :=
    SeedStep.plan_creates _ (List.mem_append_right _ hquery)
  obtain ⟨q, hq⟩ := hsince.exists_created hmem
  have hlive := hs.isLive_iff.mpr ⟨_, hq⟩
  have hkeeping := keeping_seeded q hsteps hcounted
  obtain ⟨s', hsave, hnumbers⟩ := exists_saveQuery hs hcounted hsince.room now hlive
    (.of_hasDone hs hsince.done (by decide +kernel))
    (hkeeping.cache.hasField hs isName_fieldResultCache)
    (hkeeping.time.hasField hs isName_fieldEvaluatedAt) hvalid
  have hafter : ((QueryEdit.save q d).edit now).after state.store = s' := Edit.after_of_ok hsave
  have hrun : state.store.run [⟨now, .query (.save q d)⟩] = s' := hafter
  have hagrees := queryEdit_agreesBeside now (.save q d) hs
  have hspares := Edit.queryEdit_spares q now (.save q d) hs
  rw [hafter] at hagrees hspares
  -- Saving drops the answer and spares the fields that a refresh writes.
  have hkept : Keeping q none s' :=
    ⟨hagrees.sound, hrun ▸ hcounted.run hs [_], hkeeping.cache.spared (Or.inl rfl) hspares,
      hkeeping.time.spared (Or.inr rfl) hspares, tells_of_saveQuery hs hsave⟩
  have hfew : s'.liveNodes.length ≤ 35 := by
    have hnodes := hsince.length_nodes_le
    have hdrawn : state.context.drawn = 35 := hsince.drawn.trans (by decide +kernel)
    have hempty : Store.empty.nodes.length = 0 := rfl
    have hlive := state.store.length_liveNodes_le
    rw [hagrees.length_liveNodes_eq]
    omega
  obtain ⟨hs', hlive', -, fieldNode, raw, hfound, hraw, htexts⟩ := hs.saveQuery_ok hsave
  have hload := hs'.loadQuery?_eq hlive' hfound hraw htexts hvalid
  rw [d.reread_eq_iff.mpr hback] at hload
  refine ⟨summary, state.store, q, hstart, hq, ?_⟩
  rw [hrun]
  refine ⟨⟨hs', hlive', hfew, ?_, fun id hlinks => ?_, fun later => ?_⟩, hagrees.holds⟩
  · rw [hload, if_pos hdepth]
  · exact not_refers_seeded hsince hquery hq id ((links_saveQuery_iff hs hsave id).mp hlinks)
  · obtain ⟨page, hpage⟩ := hs'.exists_page later hvalid
    have hanswer := evaluateSaved_of_live hlive' later hload
    rw [if_pos hdepth, hpage] at hanswer
    -- There are no more rows to write than live nodes, and numbers for a hundred.
    have hlength := hs'.length_nodeIds_le_live hpage
    have hroom := hsince.room.numbers
    exact ⟨page, hkept.runSaved_succeeds hanswer (by rw [HasNumbers]; omega)⟩

end Store

end TagGraph
