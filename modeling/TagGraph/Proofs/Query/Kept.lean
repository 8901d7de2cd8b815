import TagGraph.Proofs.Number.Reread
import TagGraph.Proofs.Query.Sparing
import TagGraph.Proofs.Seed.Admission

/-!
# The kept answer tells the last refresh

A run on a seeded store is followed by what a saved query ought to keep (`Store.keptAlong`): the
answer of each refresh that succeeds, and nothing after a definition has been saved or the answer
has been dropped. If the edits of the graph are not directed at the kept answer
(`Store.SparesCache`), what the query keeps is just that (`Store.cachedResult?_run`). It is carried
by what the two fields of the answer hold (`Store.Keeping`).

The time of an answer is stored as a double, whose text may be read as another one
(`CachedResult.reread`). It is told rightly up to `2 ^ 53 / 10`, and up to `2 ^ 53` it is off by one
at most.
-/

namespace TagGraph

/-! ## Times that are read again -/

namespace CachedResult

/-- The time that the text of a kept time is read as. -/
def rereadTime (time : Int) : Int :=
  (Number.finite ((Binary64.ofInt? time).getD (.zero false))).reread.toTime

/-- The answer that is read of the rows of a kept one. -/
def reread (kept : CachedResult) : CachedResult :=
  ⟨kept.nodeIds, rereadTime kept.evaluatedAt⟩

/-- A time is read again as one that differs from it by one at most, and not at all if ten times the
time is below the whole numbers that doubles leave out. -/
theorem rereadTime_near {time : Int} (hnonneg : 0 ≤ time) (hexact : time ≤ 2 ^ 53) :
    (rereadTime time ≤ time + 1 ∧ time ≤ rereadTime time + 1) ∧
      (10 * time < 2 ^ 53 → rereadTime time = time) := by
  obtain ⟨t, rfl⟩ := Int.eq_ofNat_of_zero_le hnonneg
  obtain ⟨x, hx, hsign, hvalue⟩ := Binary64.exists_natural (n := t) (by omega) false
  have htime : rereadTime t = max (-2 ^ 63 : Int) (min (2 ^ 63 - 1) x.reread.truncate) := by
    rw [rereadTime, show Binary64.ofInt? t = some x from hx]
    rfl
  obtain ⟨hhigh, hlow⟩ := hvalue.truncate_reread hsign (by omega)
  rw [htime]
  refine ⟨by omega, fun hsmall => ?_⟩
  have hback : x.reread = x := hvalue.readsBack (by omega)
  rw [hback, hvalue.truncate, hsign]
  simp only [Bool.false_eq_true, if_false]
  omega

end CachedResult

namespace Store

open Edit (IsCacheField)

/-! ## Histories -/

/-- Each step of a run has a property together with the store before it. -/
def Along (P : Store → Step → Prop) : Store → List Step → Prop
  | _, [] => True
  | s, step :: steps => P s step ∧ Along P (s.step step) steps

/-- What a saved query ought to keep after an edit of it: its answer after a refresh, and nothing
after a definition has been saved or the answer has been dropped. An edit that fails and a look at
the answer change nothing. -/
def keptByEdit (s : Store) (now : Int) (e : QueryEdit) (kept : Option CachedResult) :
    Option CachedResult :=
  match e with
  | .save node d =>
    match Edit.saveQuery now node d s with
    | .ok _ _ => none
    | .error _ _ => kept
  | .run node true =>
    match Edit.runSaved now node true s with
    | .ok page _ => some ⟨page.nodeIds, now⟩
    | .error _ _ => kept
  | .run _ false => kept
  | .dropCache node =>
    match Edit.dropCache now node s with
    | .ok _ _ => none
    | .error _ _ => kept

/-- What a saved query ought to keep after a step. Only edits of the query change it. -/
def keptAfter (q : NodeId) (s : Store) (step : Step) (kept : Option CachedResult) :
    Option CachedResult :=
  match step.operation with
  | .query e => if e.target = q then s.keptByEdit step.now e kept else kept
  | _ => kept

/-- What a saved query ought to keep after a run. -/
def keptAlong (q : NodeId) : Store → List Step → Option CachedResult → Option CachedResult
  | _, [], kept => kept
  | s, step :: steps, kept => keptAlong q (s.step step) steps (keptAfter q s step kept)

/-- A step at a time that a double can tell that spares the kept answer of a query: any edit of a
saved query, or an edit of the graph that changes nothing or is not directed at the kept answer. -/
def SparesCache (q : NodeId) (s : Store) (step : Step) : Prop :=
  (0 ≤ step.now ∧ step.now ≤ 2 ^ 53) ∧
  match step.operation with
  | .graph e => (e.edit step.now).after s = s ∨ e.SparesCache step.now q s
  | .query _ => True
  | _ => False

/-- There are numbers for the rows that a refresh of a query writes. -/
def HasNumbersFor (q : NodeId) (s : Store) (step : Step) : Prop :=
  step.operation = .query (.run q true) → ∀ page, s.evaluateSaved step.now q = .ok page →
    s.HasNumbers (page.nodeIds.length + 1)

/-! ## Fields and their types -/

variable {s s' : Store} {q : NodeId} {field : String} {type : FieldType}

/-- There is a live node for a field, and no type but the given one is declared for it. -/
structure Provides (s : Store) (field : String) (type : FieldType) : Prop where
  held : ∃ f, s.Holds (.known f) (some field)
  declared : ∀ f typeField, s.Holds (.known f) (some field) →
    s.Holds (.known typeField) (some Handle.fieldFieldType) →
      typeIn? (s.texts f typeField) = none ∨ typeIn? (s.texts f typeField) = some type

namespace Provides

theorem hasField (h : s.Provides field type) (hs : s.Sound) (hname : IsName field) :
    s.HasField field :=
  (hasField_iff hs hname).mpr h.held

/-- The field takes values that fit the type. -/
theorem takes (h : s.Provides field type) (hs : s.Sound) (hname : IsName field)
    {values : List PropertyValue} (hvalues : values.all (·.conformsTo type) = true) :
    s.Takes field values := by
  obtain ⟨fieldNode, hfound⟩ := h.hasField hs hname
  by_cases htypes : ∃ typeField, s.Holds (.known typeField) (some Handle.fieldFieldType)
  · obtain ⟨typeField, htype⟩ := htypes
    refine ⟨fieldNode, _, hfound, hs.fieldType?_eq htype fieldNode.id, ?_⟩
    rcases h.declared _ _ (hs.holds_of_found hname hfound) htype with hnone | hsome
    · rw [hnone]
      rfl
    · rw [hsome]
      exact hvalues
  · exact ⟨fieldNode, none, hfound, hs.fieldType?_of_gone htypes fieldNode.id, rfl⟩

theorem spared {whole : Prop} (h : s.Provides field type)
    (hcache : IsCacheField field) (hspares : s.Spares q whole s') : s'.Provides field type := by
  obtain ⟨f, hf⟩ := h.held
  have hf' := hspares.fields field f hcache hf
  refine ⟨⟨f, hf'⟩, fun g typeField hg htype => ?_⟩
  obtain rfl := StoredId.known.inj (hspares.sound.holds_unique hf' hg)
  rcases hspares.types field f typeField hcache hf htype with hnone | ⟨hold, hsame⟩
  · exact Or.inl hnone
  · rw [hsame]
    exact h.declared f typeField hf hold

end Provides

/-! ## What the fields of a kept answer hold -/

/-- The fields of a query hold an answer: the texts of its identifiers in their order, and that of
its time. -/
structure HoldsAnswer (s : Store) (q : NodeId) (kept : CachedResult) : Prop where
  live : s.IsLive q
  nonneg : 0 ≤ kept.evaluatedAt
  exact : kept.evaluatedAt ≤ 2 ^ 53
  time : s.IsSet q Handle.fieldEvaluatedAt (.ofInt kept.evaluatedAt)
  ids : PropertyValue.StoredAs (kept.nodeIds.map .node) (s.textsIn q Handle.fieldResultCache)

/-- The fields of a query tell what it keeps. Without an answer there is no time; identifiers may be
left. -/
def Tells (s : Store) (q : NodeId) : Option CachedResult → Prop
  | none => s.textsIn q Handle.fieldEvaluatedAt = []
  | some kept => s.HoldsAnswer q kept

/-- A store in which a query keeps an answer, or none, and in which it can keep others. -/
structure Keeping (q : NodeId) (kept : Option CachedResult) (s : Store) : Prop where
  sound : s.Sound
  counted : s.Counted
  cache : s.Provides Handle.fieldResultCache .nodes
  time : s.Provides Handle.fieldEvaluatedAt .number
  told : s.Tells q kept

variable {kept : Option CachedResult}

theorem Tells.of_textsIn (h : s.Tells q kept) (hlive : s.IsLive q → s'.IsLive q)
    (htexts : ∀ field, IsCacheField field → s'.textsIn q field = s.textsIn q field) :
    s'.Tells q kept := by
  have htime := htexts _ (Or.inr rfl)
  cases kept with
  | none => exact htime.trans h
  | some kept =>
    obtain ⟨raw, hraw, hset⟩ := HoldsAnswer.time h
    exact ⟨hlive (HoldsAnswer.live h), HoldsAnswer.nonneg h, HoldsAnswer.exact h,
      ⟨raw, hraw, htime.trans hset⟩, (htexts _ (Or.inl rfl)).symm ▸ HoldsAnswer.ids h⟩

/-! ## Reading a kept answer -/

/-- The texts of references are read as the references. -/
theorem filterMap_decode_references {ids : List NodeId} {raws : List String}
    (h : PropertyValue.StoredAs (ids.map .node) raws) :
    (raws.filterMap PropertyValue.decode?).flatMap (·.referenced) = ids := by
  induction ids generalizing raws with
  | nil =>
    cases h
    rfl
  | cons id ids ih =>
    cases h with
    | cons hraw hrest =>
      have hdecode : PropertyValue.decode? _ = some (.node id) :=
        PropertyValue.decode?_of_encode? hraw
      rw [List.filterMap_cons_some hdecode, List.flatMap_cons, ih hrest]
      rfl

/-- What the fields of a query tell is what is read, with the time as it is read again. -/
theorem Tells.cachedResult?_eq (h : s.Tells q kept) (hs : s.Sound) :
    s.cachedResult? q = .ok (kept.map (·.reread)) := by
  unfold cachedResult?
  cases kept with
  | none =>
    have hvalue : s.value? q Handle.fieldEvaluatedAt = .ok none := by
      by_cases hlive : s.IsLive q
      · rw [value?, hs.values_eq_textsIn _ hlive, show s.textsIn q _ = [] from h]
        rfl
      · obtain ⟨found, hfound⟩ := hs.node?_succeeds q
        cases found with
        | none =>
          rw [value?, values, hfound]
          rfl
        | some n => exact absurd ⟨n, hfound⟩ hlive
    rw [hvalue]
    rfl
  | some kept =>
    obtain ⟨hlive, -, -, ⟨raw, hraw, htime⟩, hids⟩ := h
    have hdecode : PropertyValue.decode? raw = some (PropertyValue.ofInt kept.evaluatedAt).reread :=
      PropertyValue.decode?_of_encode? hraw
    have hvalue : s.value? q Handle.fieldEvaluatedAt =
        .ok (some (PropertyValue.ofInt kept.evaluatedAt).reread) := by
      rw [value?, hs.values_eq_textsIn _ hlive, htime, List.filterMap_cons_some hdecode]
      rfl
    have hnodes := filterMap_decode_references hids
    rw [hvalue]
    simp [PropertyValue.ofInt, PropertyValue.reread, PropertyValue.asNumber?, CachedResult.reread,
      CachedResult.rereadTime, hs.values_eq_textsIn _ hlive, hnodes, bind, Except.bind, pure,
      Except.pure]

/-! ## Edits of the query -/

/-- A dropped answer leaves no rows. -/
theorem textsIn_of_dropCache (hs : s.Sound) {now : Int} (h : Edit.dropCache now q s = .ok () s')
    (hfield : IsCacheField field) : s'.textsIn q field = [] := by
  obtain ⟨removed, t, hfirst, h⟩ := Edit.ok_of_bind h
  obtain ⟨removed', u, hsecond, h⟩ := Edit.ok_of_bind h
  obtain ⟨-, rfl⟩ := EStateM.Result.ok.inj h
  have ht := hs.after (Edit.removeProperty_respects .changes now q Handle.fieldResultCache)
  rw [Edit.after_of_ok hfirst] at ht
  rcases hfield with rfl | rfl
  · have hleaves := Edit.removeProperty_leavesFields now q isName_fieldEvaluatedAt t
    rw [Edit.after_of_ok hsecond] at hleaves
    rw [hleaves.textsIn_eq ht q isName_fieldResultCache (by decide)]
    exact (Edit.removeProperty_leaves hs isName_fieldResultCache hfirst).1
  · exact (Edit.removeProperty_leaves ht isName_fieldEvaluatedAt hsecond).1

theorem tells_of_dropCache (hs : s.Sound) {now : Int}
    (h : Edit.dropCache now q s = .ok () s') : s'.Tells q none :=
  textsIn_of_dropCache hs h (Or.inr rfl)

/-- What keeping an answer leaves in its two fields. -/
theorem keepCache_leaves (hs : s.Sound) (hc : s.Counted) {now : Int} {ids : List NodeId}
    (h : Edit.keepCache now q ids s = .ok () s') :
    s'.IsLive q ∧ s'.IsSet q Handle.fieldEvaluatedAt (.ofInt now) ∧
      PropertyValue.StoredAs (ids.map .node) (s'.textsIn q Handle.fieldResultCache) := by
  obtain ⟨_, t, hids, htime⟩ := Edit.ok_of_bind h
  obtain ⟨hlive, -⟩ := Edit.setPropertyValues_takes hids
  have hfirst := Edit.setPropertyValues_leavesFields now q (ids.map .node)
    isName_fieldResultCache s
  have hsecond := Edit.setProperty_leavesFields now q (.ofInt now) none isName_fieldEvaluatedAt t
  rw [Edit.after_of_ok hids] at hfirst
  rw [Edit.after_of_ok htime] at hsecond
  have ht := (hfirst hs).1
  obtain ⟨hencoded, -, -⟩ := Edit.setPropertyValues_leaves hs hc isName_fieldResultCache
    Edit.resultCache_ne_extends (finite_of_mem_references ids) hids
  obtain ⟨hset, -⟩ := Edit.setProperty_leaves ht isName_fieldEvaluatedAt
    Edit.evaluatedAt_ne_extends rfl htime
  refine ⟨?_, hset, ?_⟩
  · exact (hsecond.isLive_iff ht).mpr ((hfirst.isLive_iff hs).mpr hlive)
  · rw [hsecond.textsIn_eq ht q isName_fieldResultCache (by decide)]
    exact hencoded

/-- A kept answer is held by the fields. -/
theorem holdsAnswer_of_keepCache (hs : s.Sound) (hc : s.Counted) {now : Int} (hnonneg : 0 ≤ now)
    (hexact : now ≤ 2 ^ 53) {ids : List NodeId} (h : Edit.keepCache now q ids s = .ok () s') :
    s'.HoldsAnswer q ⟨ids, now⟩ := by
  obtain ⟨hlive, hset, hids⟩ := keepCache_leaves hs hc h
  exact ⟨hlive, hnonneg, hexact, hset, hids⟩

/-- A definition that has been saved leaves no time. -/
theorem tells_of_saveQuery (hs : s.Sound) {now : Int} {d : QueryDefinition}
    (h : Edit.saveQuery now q d s = .ok () s') : s'.Tells q none := by
  obtain ⟨-, t, hset, hdrop⟩ := Edit.saveQuery_ok_iff.mp h
  have ht := hs.after (Edit.setProperty_respects .changes now q Handle.fieldQueryDefinition
    (.json d.toDocument) none)
  rw [Edit.after_of_ok hset] at ht
  exact tells_of_dropCache ht hdrop

/-- A look at the answer of a query gives it and writes nothing. -/
theorem runSaved_look_iff {now : Int} {page : QueryPage} :
    Edit.runSaved now q false s = .ok page s ↔ s.evaluateSaved now q = .ok page := by
  constructor
  · intro h
    obtain ⟨answer, hask, hpage⟩ := (Edit.Reads.ask _).ok_of_bind h
    obtain ⟨rfl, -⟩ := EStateM.Result.ok.inj hpage
    exact Edit.ask_ok hask
  · intro h
    exact (Edit.bind_of_ok (Edit.ask_of_ok (·.evaluateSaved now q) h)).trans rfl

/-- A refresh that succeeds gives the answer of the query, and keeps it. -/
theorem runSaved_ok {now : Int} {page : QueryPage}
    (h : Edit.runSaved now q true s = .ok page s') :
    s.evaluateSaved now q = .ok page ∧ Edit.keepCache now q page.nodeIds s = .ok () s' := by
  obtain ⟨answer, hask, hrest⟩ := (Edit.Reads.ask _).ok_of_bind h
  obtain ⟨_, u, hkeep, hpage⟩ := Edit.ok_of_bind hrest
  obtain ⟨rfl, rfl⟩ := EStateM.Result.ok.inj hpage
  exact ⟨Edit.ask_ok hask, hkeep⟩

namespace Keeping

variable {now : Int}

/-- An edit of the query that fails does not stop half-way: both fields are there, and there are
numbers for the rows of an answer. -/
theorem not_cutsShort (h : Keeping q kept s) {e : QueryEdit} (htarget : e.target = q)
    (hnumbers : e = .run q true → ∀ page, s.evaluateSaved now q = .ok page →
      s.HasNumbers (page.nodeIds.length + 1)) : ¬ s.CutsShort now e := by
  have hcache := h.cache.hasField h.sound isName_fieldResultCache
  have htime := h.time.hasField h.sound isName_fieldEvaluatedAt
  cases e with
  | save node d => exact fun hcuts => hcuts.gone ⟨hcache, htime⟩
  | run node refresh =>
    cases refresh with
    | false => exact not_false
    | true =>
      obtain rfl : node = q := htarget
      intro ⟨page, hpage, hcuts⟩
      exact hcuts.refused ⟨h.time.takes h.sound isName_fieldEvaluatedAt rfl,
        Or.inr (hnumbers rfl page hpage)⟩
  | dropCache node => exact fun hcuts => hcuts.2.1 htime

/-- After an edit of the query its fields tell what it ought to keep. -/
theorem told_after (h : Keeping q kept s) (hnonneg : 0 ≤ now) (hexact : now ≤ 2 ^ 53)
    {e : QueryEdit} (htarget : e.target = q)
    (hnumbers : e = .run q true → ∀ page, s.evaluateSaved now q = .ok page →
      s.HasNumbers (page.nodeIds.length + 1)) :
    ((e.edit now).after s).Tells q (s.keptByEdit now e kept) := by
  have hspares := Edit.queryEdit_spares q now e h.sound
  have hstops := mt (h.sound.queryEdit_stopsHalfway h.counted e).mp
    (h.not_cutsShort htarget hnumbers)
  -- What fails changes no rows, and neither does a look at the answer.
  have hsame : s.SameTables ((e.edit now).after s) →
      ((e.edit now).after s).Tells q kept := fun hsame =>
    h.told.of_textsIn hspares.live fun field _ => hsame.textsIn_eq q field
  have hfailed : ∀ err s', e.edit now s = .error err s' →
      ((e.edit now).after s).Tells q kept := by
    intro err s' herror
    apply hsame
    by_contra hchanged
    rw [Edit.after_of_error herror] at hchanged
    exact hstops ⟨err, s', herror, hchanged⟩
  cases e with
  | save node d =>
    obtain rfl : node = q := htarget
    cases hrun : Edit.saveQuery now node d s with
    | ok _ s' =>
      have hafter : (QueryEdit.edit now (.save node d)).after s = s' := Edit.after_of_ok hrun
      simp only [keptByEdit, hrun, hafter]
      exact tells_of_saveQuery h.sound hrun
    | error err s' =>
      simp only [keptByEdit, hrun]
      exact hfailed err s' hrun
  | run node refresh =>
    obtain rfl : node = q := htarget
    cases refresh with
    | false =>
      have hreads : Edit.Reads (Edit.runSaved now node false) :=
        (Edit.Reads.ask _).bind fun page => Edit.Reads.pure page
      apply hsame
      show s.SameTables ((discard (Edit.runSaved now node false) : Edit Unit).after s)
      rw [Edit.after_discard, hreads s]
      exact .refl s
    | true =>
      have hafter : (QueryEdit.edit now (.run node true)).after s =
          (Edit.runSaved now node true).after s := Edit.after_discard _ s
      cases hrun : Edit.runSaved now node true s with
      | ok page s' =>
        rw [Edit.after_of_ok hrun] at hafter
        simp only [keptByEdit, hrun, hafter]
        exact holdsAnswer_of_keepCache h.sound h.counted hnonneg hexact (runSaved_ok hrun).2
      | error err s' =>
        simp only [keptByEdit, hrun]
        exact hfailed err s' (Edit.discard_of_error hrun)
  | dropCache node =>
    obtain rfl : node = q := htarget
    cases hrun : Edit.dropCache now node s with
    | ok _ s' =>
      have hafter : (QueryEdit.edit now (.dropCache node)).after s = s' := Edit.after_of_ok hrun
      simp only [keptByEdit, hrun, hafter]
      exact tells_of_dropCache h.sound hrun
    | error err s' =>
      simp only [keptByEdit, hrun]
      exact hfailed err s' hrun

/-- A refresh succeeds if the query has an answer and there are numbers for its rows. -/
theorem runSaved_succeeds (h : Keeping q kept s) {page : QueryPage}
    (hanswer : s.evaluateSaved now q = .ok page)
    (hnumbers : s.HasNumbers (page.nodeIds.length + 1)) :
    ∃ s', Edit.runSaved now q true s = .ok page s' := by
  have hreferences : (page.nodeIds.map PropertyValue.node).all (·.conformsTo .nodes) = true := by
    simp [PropertyValue.conformsTo]
  have hroom : s.HasNumbers (page.nodeIds.map PropertyValue.node).length := by
    rw [HasNumbers] at hnumbers ⊢
    rw [List.length_map]
    omega
  have hfirst : Edit.Succeeds
      (Edit.setPropertyValues now q Handle.fieldResultCache (page.nodeIds.map .node)) s :=
    (Edit.setPropertyValues_succeeds_iff h.sound h.counted isName_fieldResultCache
      Edit.resultCache_ne_extends (finite_of_mem_references page.nodeIds)).mpr
      ⟨isLive_of_evaluateSaved hanswer,
        h.cache.takes h.sound isName_fieldResultCache hreferences, hroom⟩
  obtain ⟨_, t, hids⟩ := hfirst
  obtain ⟨hsecond, -⟩ := keepCache_first h.sound h.counted hids
  obtain ⟨_, u, htime⟩ := hsecond.mpr
    ⟨h.time.takes h.sound isName_fieldEvaluatedAt rfl, Or.inr hnumbers⟩
  have hkeep : Edit.keepCache now q page.nodeIds s = .ok () u :=
    (Edit.bind_of_ok hids).trans htime
  exact ⟨u, (Edit.bind_of_ok (Edit.ask_of_ok (·.evaluateSaved now q) hanswer)).trans
    ((Edit.bind_of_ok hkeep).trans rfl)⟩

/-! ## Runs -/

/-- An edit that spares the rows of an answer leaves what the fields tell. -/
theorem told_spared (h : Keeping q kept s) {whole : Prop} (hwhole : whole)
    (hspares : s.Spares q whole s') : s'.Tells q kept := by
  refine h.told.of_textsIn hspares.live fun field hcache => ?_
  have hfield : IsName field ∧ ∃ f, s.Holds (.known f) (some field) := by
    rcases hcache with rfl | rfl
    · exact ⟨isName_fieldResultCache, h.cache.held⟩
    · exact ⟨isName_fieldEvaluatedAt, h.time.held⟩
  obtain ⟨hname, f, hf⟩ := hfield
  rw [textsIn_of_holds hspares.sound hname (hspares.fields field f hcache hf),
    textsIn_of_holds h.sound hname hf]
  exact hspares.rows hwhole field f hcache hf

/-- A step leaves the query with what it ought to keep. -/
theorem step (h : Keeping q kept s) {step : Step} (hspares : SparesCache q s step)
    (hnumbers : HasNumbersFor q s step) : Keeping q (keptAfter q s step kept) (s.step step) := by
  have hcounted : (s.step step).Counted := h.counted.run h.sound [step]
  have hkeeps : ∀ {whole : Prop} {kept' : Option CachedResult},
      s.Spares q whole (s.step step) → (s.step step).Tells q kept' →
        Keeping q kept' (s.step step) := fun hspares htold =>
    ⟨hspares.sound, hcounted, h.cache.spared (Or.inl rfl) hspares,
      h.time.spared (Or.inr rfl) hspares, htold⟩
  obtain ⟨now, operation⟩ := step
  obtain ⟨⟨hnonneg, hexact⟩, hoperation⟩ := hspares
  cases operation with
  | table e => exact absurd hoperation not_false
  | bootstrap fresh => exact absurd hoperation not_false
  | graph e =>
    have hspares : s.Spares q True (s.step ⟨now, .graph e⟩) := by
      show s.Spares q True ((e.edit now).after s)
      rcases hoperation with hsame | hspares
      · rw [hsame]
        exact .refl h.sound
      · exact Edit.graphEdit_spares now h.sound hspares
    exact hkeeps hspares (h.told_spared trivial hspares)
  | query e =>
    have hspares : s.Spares q (e.target ≠ q) (s.step ⟨now, .query e⟩) :=
      Edit.queryEdit_spares q now e h.sound
    apply hkeeps hspares
    by_cases htarget : e.target = q
    · simp only [keptAfter, if_pos htarget]
      refine h.told_after hnonneg hexact htarget fun he => ?_
      subst he
      exact hnumbers rfl
    · simp only [keptAfter, if_neg htarget]
      exact h.told_spared htarget hspares

/-- So do several, one after the other. -/
theorem run (h : Keeping q kept s) {steps : List Step} (hspares : Along (SparesCache q) s steps)
    (hnumbers : Along (HasNumbersFor q) s steps) :
    Keeping q (keptAlong q s steps kept) (s.run steps) := by
  induction steps generalizing s kept with
  | nil => exact h
  | cons step steps ih =>
    exact ih (h.step hspares.1 hnumbers.1) hspares.2 hnumbers.2

end Keeping

/-! ## Seeded stores -/

/-- A field for which a step of a seeding has declared a type is provided with it. -/
theorem Provides.of_hasDone (hs : s.Sound) {steps : List SeedStep}
    (hdone : ∀ step ∈ steps, s.HasDone step)
    (hdeclared : (field, type) ∈ steps.filterMap (·.declared?)) : s.Provides field type := by
  have hheld : ∃ f, s.Holds (.known f) (some field) := by
    obtain ⟨step, hstep, hdeclares⟩ := List.mem_filterMap.mp hdeclared
    cases step with
    | declare f t =>
      cases hdeclares
      obtain ⟨-, -, n, -, hn, -, -⟩ := hdone _ hstep
      exact ⟨n, hn⟩
    | _ => cases hdeclares
  refine ⟨hheld, fun f typeField hf htype => Or.inr ?_⟩
  exact Except.ok.inj ((hs.fieldType?_eq htype f).symm.trans
    (hs.fieldType?_of_hasDone hdone hdeclared hf))

/-- In a seeded store no query keeps an answer. -/
theorem keeping_seeded {time : Int} {fresh : Nat → NodeId} {state : SeedState} (q : NodeId)
    (h : Seeding.steps time fresh SeedStep.plan ⟨Store.empty, .empty⟩ = .ok () state)
    (hc : state.store.Counted) : Keeping q none state.store := by
  have hempty : Seeding.Reached [] ⟨Store.empty, .empty⟩ := Seeding.reached_empty empty_sound
  have hreached := hempty.steps SeedStep.plan_isArranged h
  have hseeds := Seeding.steps_seedsOnly SeedStep.plan_isArranged SeedStep.plan_isListed hempty h
  have hs : state.store.Sound := hreached.sound
  refine ⟨hs, hc, .of_hasDone hs hreached.done (by decide +kernel),
    .of_hasDone hs hreached.done (by decide +kernel), ?_⟩
  show state.store.textsIn q Handle.fieldEvaluatedAt = []
  by_cases hfield : state.store.HasField Handle.fieldEvaluatedAt
  · obtain ⟨f, hf⟩ := (hasField_iff hs isName_fieldEvaluatedAt).mp hfield
    have huntouched : state.store.fieldRecords q f = Store.empty.fieldRecords q f := by
      refine hseeds.untouched q f fun field hmem hholds => ?_
      obtain rfl := Option.some.inj (hs.handle_unique hf hholds)
      exact absurd hmem (by decide)
    rw [textsIn_of_holds hs isName_fieldEvaluatedAt hf, texts, huntouched]
    show Store.empty.texts q f = []
    exact empty_sound.texts_of_new_field List.not_mem_nil q
  · exact textsIn_of_not_hasField hfield

/-- A saved query answers at most as many nodes as there are. -/
theorem Sound.length_nodeIds_le_of_saved (hs : s.Sound) {now : Int} {page : QueryPage}
    (h : s.evaluateSaved now q = .ok page) : page.nodeIds.length ≤ s.nodes.length := by
  obtain ⟨n, hnode⟩ := isLive_of_evaluateSaved h
  rw [evaluateSaved, hnode] at h
  obtain ⟨found, -, hanswer⟩ := Reading.bind_ok (r := s.loadQuery? q) h
  cases found with
  | none => cases hanswer
  | some d => exact hs.length_nodeIds_le hanswer

/-- On a freshly seeded store every run of edits of the graph and of saved queries that spares the
kept answer of a query leaves the query with the answer of its last refresh, in its order and with
its time as it is read again, if no definition has been saved and the answer has not been dropped
since, and with none otherwise. The time that is read differs by one at most, and not at all below
`2 ^ 53 / 10`. A refresh gives what a look at the answer gives, and it succeeds if that does and
there are numbers for the rows. -/
theorem cachedResult?_run (time : Int) (fresh : Nat → NodeId) (summary : SeedSummary)
    (start : Store) (hstart : Edit.bootstrap time fresh Store.empty = .ok summary start)
    (q : NodeId) (steps : List Step) (hspares : Along (SparesCache q) start steps)
    (hnumbers : Along (HasNumbersFor q) start steps) :
    (start.run steps).cachedResult? q = .ok ((keptAlong q start steps none).map (·.reread)) ∧
    (∀ kept, keptAlong q start steps none = some kept →
      (kept.reread.evaluatedAt ≤ kept.evaluatedAt + 1 ∧
        kept.evaluatedAt ≤ kept.reread.evaluatedAt + 1) ∧
      (10 * kept.evaluatedAt < 2 ^ 53 → kept.reread = kept)) ∧
    ∀ now page,
      (∀ s', Edit.runSaved now q true (start.run steps) = .ok page s' →
        Edit.runSaved now q false (start.run steps) = .ok page (start.run steps)) ∧
      (Edit.runSaved now q false (start.run steps) = .ok page (start.run steps) →
        (start.run steps).HasNumbers (page.nodeIds.length + 1) →
          ∃ s', Edit.runSaved now q true (start.run steps) = .ok page s') := by
  obtain ⟨state, hsteps, rfl⟩ := Edit.steps_of_bootstrap hstart
  have hcounted : state.store.Counted := by
    have hseeded := empty_counted.run empty_sound [⟨time, .bootstrap fresh⟩]
    have hafter : (Operation.edit time (.bootstrap fresh)).after Store.empty = state.store :=
      (Edit.after_discard _ _).trans (Edit.after_of_ok hstart)
    rwa [run_cons, run_nil, Store.step, hafter] at hseeded
  have hkeeping := (keeping_seeded q hsteps hcounted).run hspares hnumbers
  refine ⟨hkeeping.told.cachedResult?_eq hkeeping.sound, fun kept hkept => ?_,
    fun now page => ⟨fun s' hrun => ?_, ?_⟩⟩
  · have htold := hkeeping.told
    rw [hkept] at htold
    obtain ⟨hnear, hsame⟩ :=
      CachedResult.rereadTime_near (HoldsAnswer.nonneg htold) (HoldsAnswer.exact htold)
    exact ⟨hnear, fun hsmall => congrArg (CachedResult.mk kept.nodeIds) (hsame hsmall)⟩
  · exact runSaved_look_iff.mpr (runSaved_ok hrun).1
  · intro hlook hroom
    exact hkeeping.runSaved_succeeds (runSaved_look_iff.mp hlook) hroom

/-- The query of the catalogue for open tasks is refreshed at a time of sixteen digits, and an item
is added after that. The query keeps its answer, but the time that it tells is another one. -/
theorem cachedResult?_run_openTasks :
    let q := Seeding.supply 32
    let steps : List Step := [⟨2000000000000001, .query (.run q true)⟩,
      ⟨2000000000000002, .graph (.createNode ⟨⟨1, by decide⟩, "milk", none, none, []⟩)⟩]
    ∃ summary start, Edit.bootstrap 7 Seeding.supply Store.empty = .ok summary start ∧
      Along (SparesCache q) start steps ∧ Along (HasNumbersFor q) start steps ∧
      ∀ page s', Edit.runSaved 2000000000000001 q true start = .ok page s' →
        (start.run steps).cachedResult? q = .ok (some ⟨page.nodeIds, 2000000000000000⟩) := by
  intro q steps
  obtain ⟨summary, state, hstart, -, hsince⟩ := Edit.bootstrap_empty 7 Seeding.supply_distinct
  have hspares : Along (SparesCache q) state.store steps :=
    ⟨⟨by decide, trivial⟩, ⟨by decide, Or.inr ⟨fun _ _ _ h => (nomatch h),
      fun _ h => (nomatch h), fun _ _ _ _ h => (nomatch h)⟩⟩, trivial⟩
  have hnumbers : Along (HasNumbersFor q) state.store steps := by
    refine ⟨fun _ page hpage => ?_, fun h => (nomatch h), trivial⟩
    -- There are no more nodes than handles, and the seeding has left a hundred numbers.
    have hpages := hsince.sound.length_nodeIds_le_of_saved hpage
    have hnodes := hsince.length_nodes_le
    have hnumbers := hsince.room.numbers
    have hdrawn : state.context.drawn = 35 := hsince.drawn.trans (by decide +kernel)
    have hempty : Store.empty.nodes.length = 0 := rfl
    rw [HasNumbers]
    omega
  refine ⟨summary, state.store, hstart, hspares, hnumbers, fun page s' hrun => ?_⟩
  obtain ⟨hkept, -⟩ :=
    cachedResult?_run 7 Seeding.supply summary state.store hstart q steps hspares hnumbers
  have htarget : (QueryEdit.run q true).target = q := rfl
  have htime : CachedResult.rereadTime 2000000000000001 = 2000000000000000 := by decide +kernel
  rw [hkept]
  simp only [steps, keptAlong, keptAfter, keptByEdit, htarget, if_true, hrun, Option.map_some,
    CachedResult.reread, htime]

end Store

end TagGraph
