import TagGraph.Proofs.Field.Writing
import TagGraph.Proofs.Query.Wire

/-!
# Saved definitions

What a node loads and answers after a definition has been saved on it is that definition as its
text is read, with each double as its notation is read, as long as it leaves room for the tag of its
stored text: at the full depth that texts may have it is saved, too, but the node then has no
definition (`Store.loadQuery?_saveQuery`).
-/

namespace TagGraph

namespace Edit

open Store

variable {s s' : Store} {now : Int} {node : NodeId}

/-- The fields of a kept answer. -/
def IsCacheField (handle : String) : Prop :=
  handle = Handle.fieldResultCache ∨ handle = Handle.fieldEvaluatedAt

theorem not_isCacheField_queryDefinition : ¬ IsCacheField Handle.fieldQueryDefinition :=
  not_or.mpr ⟨by decide, by decide⟩

theorem not_isCacheField_supertag : ¬ IsCacheField Handle.fieldSupertag :=
  not_or.mpr ⟨by decide, by decide⟩

theorem not_isCacheField_extends : ¬ IsCacheField Handle.fieldExtends :=
  not_or.mpr ⟨by decide, by decide⟩

/-- Dropping the kept answer leaves all other fields. -/
theorem dropCache_leavesFields (now : Int) (node : NodeId) :
    Respects (LeavesFields IsCacheField) (dropCache now node) := by
  have hC := leavesFields_composes IsCacheField
  have hremove : ∀ {field : String}, IsCacheField field → IsName field →
      Respects (LeavesFields IsCacheField) (removeProperty now node field) := by
    intro field hcache hname s hs
    obtain ⟨hs', hholds, htexts⟩ := removeProperty_leavesFields now node hname s hs
    refine ⟨hs', hholds, fun n f handle hf hnot => htexts n f handle hf ?_⟩
    rintro rfl
    exact hnot hcache
  refine (hremove (Or.inl rfl) isName_fieldResultCache).bind hC fun _ => ?_
  refine (hremove (Or.inr rfl) isName_fieldEvaluatedAt).bind hC fun _ => ?_
  exact .of_reads hC (Reads.pure _)

/-- To save a definition is to check it, to write it, and to drop the kept answer. -/
theorem saveQuery_ok_iff {d : QueryDefinition} : saveQuery now node d s = .ok () s' ↔
    d.isValid = true ∧ ∃ t, setProperty now node Handle.fieldQueryDefinition (.json d.toDocument)
      none s = .ok () t ∧ dropCache now node t = .ok () s' := by
  unfold saveQuery QueryDefinition.isValid
  cases d.fault? with
  | some fault =>
    refine iff_of_false (fun h => ?_) fun h => Bool.false_ne_true h.1
    cases h
  | none =>
    constructor
    · intro h
      obtain ⟨_, t, hset, hdrop⟩ := ok_of_bind h
      exact ⟨rfl, t, hset, hdrop⟩
    · rintro ⟨-, t, hset, hdrop⟩
      exact (bind_of_ok hset).trans hdrop

end Edit

namespace Store

variable {s s' : Store} {now : Int} {node : NodeId} {d : QueryDefinition}

theorem payloadDepth_toDocument (d : QueryDefinition) :
    (PropertyValue.json d.toDocument).payloadDepth = d.toJson.depth :=
  Json.depth_canonical d.keysApart_toJson

/-- What a node loads if its field holds the text of a definition. -/
theorem Sound.loadQuery?_eq (hs : s.Sound) {fieldNode : Node} {raw : String}
    (hlive : s.IsLive node)
    (hfound : s.findLive? Handle.fieldQueryDefinition = .ok (some fieldNode))
    (hraw : (PropertyValue.json d.toDocument).encode? = some raw)
    (htexts : s.texts node fieldNode.id = [raw]) (hvalid : d.isValid = true) :
    s.loadQuery? node = .ok (if d.toJson.depth ≤ 126 then some d.reread else none) := by
  have hreread : (PropertyValue.json d.toDocument).reread = .json d.reread.toDocument :=
    congrArg PropertyValue.json d.reread_toDocument
  have hvalue : s.value? node Handle.fieldQueryDefinition =
      .ok (if d.toJson.depth ≤ 126 then some (.json d.reread.toDocument) else none) := by
    rw [hs.value?_eq hlive hfound, htexts, ← payloadDepth_toDocument, ← hreread,
      ← PropertyValue.decode?_of_encode? hraw, List.filterMap_cons, List.filterMap_nil]
    cases PropertyValue.decode? raw <;> rfl
  unfold loadQuery?
  rw [hvalue]
  by_cases hdepth : d.toJson.depth ≤ 126
  · rw [if_pos hdepth, if_pos hdepth]
    have hread : QueryDefinition.ofDocument d.reread.toDocument = .ok d.reread :=
      QueryDefinition.checked_eq_ok_iff.mpr
        ⟨d.reread.read?_toDocument, d.isValid_reread.trans hvalid⟩
    simp [hread, definitionResult, bind, Except.bind, pure, Except.pure]
  · rw [if_neg hdepth, if_neg hdepth]
    rfl

/-- A live node answers the definition that it loads. -/
theorem evaluateSaved_of_live (hlive : s.IsLive node) (time : Int) {saves : Prop} [Decidable saves]
    (hload : s.loadQuery? node = .ok (if saves then some d else none)) :
    s.evaluateSaved time node =
      if saves then s.evaluate time d
      else .error (.invalidDefinition (.noDefinition node)) := by
  obtain ⟨n, hn⟩ := hlive
  unfold evaluateSaved
  rw [hn]
  show (s.loadQuery? node >>= fun found => _) = _
  rw [hload]
  by_cases h : saves
  · rw [if_pos h, if_pos h]
    rfl
  · rw [if_neg h, if_neg h]
    rfl

theorem evaluateSaved_of_loaded (hlive : s.IsLive node) {time : Int}
    (hload : s.loadQuery? node = .ok (some d)) :
    s.evaluateSaved time node = s.evaluate time d := by
  have hload' : s.loadQuery? node = .ok (if True then some d else none) := by
    rwa [if_pos trivial]
  rw [evaluateSaved_of_live hlive time hload', if_pos trivial]

/-- A definition that has been saved is valid, and its text is all that the field of definitions of
the live node holds. -/
theorem Sound.saveQuery_ok (hs : s.Sound) (h : Edit.saveQuery now node d s = .ok () s') :
    s'.Sound ∧ s'.IsLive node ∧ d.isValid = true ∧ ∃ fieldNode raw,
      s'.findLive? Handle.fieldQueryDefinition = .ok (some fieldNode) ∧
      (PropertyValue.json d.toDocument).encode? = some raw ∧
      s'.texts node fieldNode.id = [raw] := by
  obtain ⟨hvalid, t, hset, hdrop⟩ := Edit.saveQuery_ok_iff.mp h
  obtain ⟨fieldNode, type, hsets⟩ := Edit.setProperty_ok hs hset
  obtain ⟨raw, hraw, htexts⟩ := hsets.written (Edit.takesOne_of_conforms rfl hsets.conforms)
  have hname := isName_fieldQueryDefinition
  -- First the write, then dropping the cache leaves the live nodes as they were.
  have hwrite := Edit.setProperty_leavesFields now node (.json d.toDocument) none hname s hs
  rw [Edit.after_of_ok hset] at hwrite
  obtain ⟨ht, hholds, -⟩ := hwrite
  have hcache := Edit.dropCache_leavesFields now node t ht
  rw [Edit.after_of_ok hdrop] at hcache
  obtain ⟨hs', hholds', htexts'⟩ := hcache
  have hfield : t.Holds (.known fieldNode.id) (some Handle.fieldQueryDefinition) :=
    (hholds _ _).mpr (hs.holds_of_found hname hsets.admits.found)
  obtain ⟨found, hfound, hid, -⟩ := hs'.findLive?_of_holds hname ((hholds' _ _).mpr hfield)
  refine ⟨hs', ?_, hvalid, found, raw, hfound, hraw, ?_⟩
  · exact (ht.isLive_congr hs' hholds').mpr
      ((hs.isLive_congr ht hholds).mpr hsets.admits.live)
  · rw [hid, htexts' node fieldNode.id _ hfield Edit.not_isCacheField_queryDefinition, htexts]

/-- What a node loads and answers after a definition has been saved on it, in a store that any run
has left: the definition as its text is read, if there is room for a tag around its written form,
and nothing otherwise. So it is the very definition if and only if there is this room and all its
doubles are read back. -/
theorem loadQuery?_saveQuery (steps : List Step) (now : Int) (node : NodeId)
    (d : QueryDefinition) (s' : Store)
    (h : Edit.saveQuery now node d (Store.empty.run steps) = .ok () s') :
    s'.loadQuery? node = .ok (if d.toJson.depth ≤ 126 then some d.reread else none) ∧
    (∀ time, s'.evaluateSaved time node =
      if d.toJson.depth ≤ 126 then s'.evaluate time d.reread
      else .error (.invalidDefinition (.noDefinition node))) ∧
    (s'.loadQuery? node = .ok (some d) ↔ d.toJson.depth ≤ 126 ∧ d.ReadsBack) := by
  obtain ⟨hs', hlive, hvalid, fieldNode, raw, hfound, hraw, htexts⟩ :=
    (empty_sound.run steps).saveQuery_ok h
  have hload := hs'.loadQuery?_eq hlive hfound hraw htexts hvalid
  refine ⟨hload, fun time => evaluateSaved_of_live hlive time hload, ?_⟩
  rw [hload, Except.ok.injEq, ← d.reread_eq_iff]
  by_cases hdepth : d.toJson.depth ≤ 126
  · simp [hdepth]
  · simp [hdepth]

/-- The filter for a text in the content, inside filters that all have to hold. -/
def nestedFilter : (levels : Nat) → Filter
  | 0 => .content "milk" false
  | levels + 1 => .and [nestedFilter levels]

/-- A definition that nests as deep as a text may is read from its text and can be saved, but then
the node has no definition to load or to answer. -/
theorem loadQuery?_saveQuery_deepest :
    let node : NodeId := ⟨4, by decide⟩
    let d : QueryDefinition := ⟨[nestedFilter 62], none, 500⟩
    let steps : List Step := [
      ⟨1, .table (.insertSystemNode ⟨1, by decide⟩ Handle.fieldQueryDefinition "Query Definition")⟩,
      ⟨1, .table (.insertSystemNode ⟨2, by decide⟩ Handle.fieldResultCache "Result Cache")⟩,
      ⟨1, .table (.insertSystemNode ⟨3, by decide⟩ Handle.fieldEvaluatedAt "Evaluated At")⟩,
      ⟨1, .graph (.createNode ⟨node, "milk", none, none, []⟩)⟩]
    QueryDefinition.ofText d.toText = .ok d ∧
      ∃ s', Edit.saveQuery 1 node d (Store.empty.run steps) = .ok () s' ∧
        s'.loadQuery? node = .ok none ∧
        s'.evaluateSaved 1 node = .error (.invalidDefinition (.noDefinition node)) := by
  intro node d steps
  have hdepth : d.toJson.depth = 127 := by decide +kernel
  have hback : d.ReadsBack := by decide +kernel
  have hsaved : ∃ s', Edit.saveQuery 1 node d (Store.empty.run steps) = .ok () s' := by
    have hok : (match Edit.saveQuery 1 node d (Store.empty.run steps) with
      | .ok _ _ => true
      | .error _ _ => false) = true := by decide +kernel
    cases hrun : Edit.saveQuery 1 node d (Store.empty.run steps) with
    | ok _ s' => exact ⟨s', rfl⟩
    | error err s' =>
      rw [hrun] at hok
      cases hok
  obtain ⟨s', hs'⟩ := hsaved
  obtain ⟨hload, hanswer, -⟩ := loadQuery?_saveQuery steps 1 node d s' hs'
  rw [hdepth] at hload hanswer
  have hvalid : d.isValid = true := by decide +kernel
  have htext : QueryDefinition.ofText d.toText = .ok d := by
    rw [QueryDefinition.ofText_toText_eq_reread hvalid (by rw [hdepth]; decide),
      d.reread_eq_iff.mpr hback]
  exact ⟨htext, s', hs', hload, hanswer 1⟩

end Store

end TagGraph
