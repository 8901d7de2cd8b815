import TagGraph.Proofs.Field.Outcome
import TagGraph.Proofs.Query.Saved

/-!
# Edits of saved queries that stop half-way

An edit of a saved query writes or removes two or three fields, one after the other. Each write is
whole, but what has been written stays if the next one fails. So a definition may be saved next to
an answer to the one before, and new identifiers may be kept under the time of the answer before.
This happens exactly if a later field is gone, or refuses its value, or numbers run out, and there
was something to write or to remove before (`Store.CutsShort`, `Store.queryEdit_stopsHalfway_iff`).
-/

namespace TagGraph

namespace Edit

open Store

variable {α β : Type} {s s' : Store} {now : Int} {node : NodeId}

/-- An edit fails after it has changed the tables. -/
def StopsHalfway (e : Edit α) (s : Store) : Prop :=
  ∃ err s', e s = .error err s' ∧ ¬ s.SameTables s'

theorem IsWhole.not_stopsHalfway {e : Edit α} (he : IsWhole e s) : ¬ StopsHalfway e s := by
  intro ⟨err, s', h, hchanged⟩
  obtain rfl := he err s' h
  exact hchanged (.refl s')

theorem exists_error {e : Edit α} (h : ¬ Succeeds e s) : ∃ err s', e s = .error err s' := by
  cases he : e s with
  | ok a s' => exact absurd ⟨a, s', he⟩ h
  | error err s' => exact ⟨err, s', rfl⟩

/-- A sequence whose first part is whole stops half-way in the second part. -/
theorem stopsHalfway_bind_iff {e : Edit α} {f : α → Edit β} (he : IsWhole e s) :
    StopsHalfway (e >>= f) s ↔ ∃ a t, e s = .ok a t ∧
      ∃ err s', f a t = .error err s' ∧ ¬ s.SameTables s' := by
  constructor
  · intro ⟨err, s', h, hchanged⟩
    cases hfirst : e s with
    | error err' t =>
      obtain rfl := he err' t hfirst
      rw [bind_of_error hfirst] at h
      obtain ⟨-, rfl⟩ := EStateM.Result.error.inj h
      exact absurd (.refl t) hchanged
    | ok a t =>
      rw [bind_of_ok hfirst] at h
      exact ⟨a, t, rfl, err, s', h, hchanged⟩
  · intro ⟨a, t, hfirst, err, s', h, hchanged⟩
    exact ⟨err, s', (bind_of_ok hfirst).trans h, hchanged⟩

/-- Whether an edit stops half-way does not depend on its value. -/
theorem stopsHalfway_bind_pure_iff (e : Edit α) (f : α → β) :
    StopsHalfway (e >>= fun a => pure (f a)) s ↔ StopsHalfway e s := by
  have herror : ∀ err s', (e >>= fun a => (pure (f a) : Edit β)) s = .error err s' ↔
      e s = .error err s' := by
    intro err s'
    cases he : e s with
    | ok a t =>
      rw [bind_of_ok he]
      exact iff_of_false (fun h => nomatch h) fun h => nomatch h
    | error err' t => simp [bind_of_error he]
  unfold StopsHalfway
  simp only [herror]

theorem stopsHalfway_discard_iff (e : Edit α) :
    StopsHalfway (discard e : Edit Unit) s ↔ StopsHalfway e s := by
  rw [discard_eq_bind]
  exact stopsHalfway_bind_pure_iff e fun _ => ()

/-! ## Dropping the kept answer -/

theorem queryDefinition_ne_extends : Handle.fieldQueryDefinition ≠ Handle.fieldExtends := by decide

theorem resultCache_ne_extends : Handle.fieldResultCache ≠ Handle.fieldExtends := by decide

theorem evaluatedAt_ne_extends : Handle.fieldEvaluatedAt ≠ Handle.fieldExtends := by decide

/-- Dropping the kept answer succeeds exactly if the node and both fields are live. -/
theorem dropCache_succeeds_iff (hs : s.Sound) :
    Succeeds (dropCache now node) s ↔ s.IsLive node ∧
      s.HasField Handle.fieldResultCache ∧ s.HasField Handle.fieldEvaluatedAt := by
  have hleaves := removeProperty_leavesFields now node isName_fieldResultCache s
  constructor
  · intro ⟨_, s', h⟩
    obtain ⟨removed, t, hfirst, h⟩ := ok_of_bind h
    obtain ⟨removed', u, hsecond, -⟩ := ok_of_bind h
    rw [after_of_ok hfirst] at hleaves
    obtain ⟨hlive, hcache⟩ := removeProperty_succeeds_iff.mp ⟨removed, t, hfirst⟩
    obtain ⟨-, htime⟩ := removeProperty_succeeds_iff.mp ⟨removed', u, hsecond⟩
    exact ⟨hlive, hcache, (hleaves.hasField_iff hs isName_fieldEvaluatedAt).mp htime⟩
  · intro ⟨hlive, hcache, htime⟩
    refine Succeeds.bind (removeProperty_succeeds_iff.mpr ⟨hlive, hcache⟩) fun _ t hfirst => ?_
    rw [after_of_ok hfirst] at hleaves
    refine Succeeds.bind (removeProperty_succeeds_iff.mpr ⟨(hleaves.isLive_iff hs).mpr hlive,
      (hleaves.hasField_iff hs isName_fieldEvaluatedAt).mpr htime⟩) fun _ u _ => .pure _ u

/-- Where dropping the kept answer of a live node fails, it has removed the identifiers. -/
theorem dropCache_failed (hs : s.Sound) (hlive : s.IsLive node) {err : StoreError}
    (h : dropCache now node s = .error err s') :
    s'.textsIn node Handle.fieldResultCache = [] ∧
      (s.textsIn node Handle.fieldResultCache = [] → s' = s) := by
  cases hfirst : removeProperty now node Handle.fieldResultCache s with
  | error err' t =>
    -- The field of the identifiers is gone, so that there are none.
    obtain rfl := removeProperty_whole now node _ err' t hfirst
    have hgone : ¬ t.HasField Handle.fieldResultCache := by
      intro hfield
      obtain ⟨_, u, hok⟩ := removeProperty_succeeds_iff.mpr ⟨hlive, hfield⟩
      cases hok.symm.trans hfirst
    unfold dropCache at h
    rw [bind_of_error hfirst] at h
    obtain ⟨-, rfl⟩ := EStateM.Result.error.inj h
    exact ⟨textsIn_of_not_hasField hgone, fun _ => rfl⟩
  | ok removed t =>
    unfold dropCache at h
    rw [bind_of_ok hfirst] at h
    obtain ⟨hempty, hidle⟩ := removeProperty_leaves hs isName_fieldResultCache hfirst
    cases hsecond : removeProperty now node Handle.fieldEvaluatedAt t with
    | error err' u =>
      obtain rfl := removeProperty_whole now node _ err' u hsecond
      rw [bind_of_error hsecond] at h
      obtain ⟨-, rfl⟩ := EStateM.Result.error.inj h
      exact ⟨hempty, hidle⟩
    | ok removed' u =>
      rw [bind_of_ok hsecond] at h
      cases h

end Edit

namespace Store

open Edit

variable {s : Store} {now : Int} {node : NodeId}

/-! ## What cuts an edit short -/

/-- Saving a definition stops half-way: the definition can be written, but a field of the kept
answer is gone, and the definition is not the one before, or there are identifiers to remove. -/
structure CutsSave (s : Store) (node : NodeId) (d : QueryDefinition) : Prop where
  valid : d.isValid = true
  live : s.IsLive node
  taken : s.Takes Handle.fieldQueryDefinition [.json d.toDocument]
  room : s.IsSet node Handle.fieldQueryDefinition (.json d.toDocument) ∨ s.HasNumbers 1
  gone : ¬ (s.HasField Handle.fieldResultCache ∧ s.HasField Handle.fieldEvaluatedAt)
  changed : ¬ s.IsSet node Handle.fieldQueryDefinition (.json d.toDocument) ∨
    s.textsIn node Handle.fieldResultCache ≠ []

/-- Keeping an answer stops half-way: its identifiers can be written, but the time cannot, as its
field is gone or of another type, or numbers run out; and there are identifiers to write or to
remove, or the node has not been changed at that time or later. -/
structure CutsRefresh (s : Store) (now : Int) (node : NodeId) (ids : List NodeId) : Prop where
  taken : s.Takes Handle.fieldResultCache (ids.map .node)
  room : s.HasNumbers ids.length
  refused : ¬ (s.Takes Handle.fieldEvaluatedAt [.ofInt now] ∧
    (s.IsSet node Handle.fieldEvaluatedAt (.ofInt now) ∨ s.HasNumbers (ids.length + 1)))
  changed : ids ≠ [] ∨ s.textsIn node Handle.fieldResultCache ≠ [] ∨
    ∃ n, s.node? node = .ok (some n) ∧ n.updatedAt < now

/-- Whether an edit of a saved query fails after it has changed the tables. -/
def CutsShort (s : Store) (now : Int) : QueryEdit → Prop
  | .save node d => s.CutsSave node d
  | .run node true => ∃ page, s.evaluateSaved now node = .ok page ∧
    s.CutsRefresh now node page.nodeIds
  | .run _ false => False
  | .dropCache node => s.IsLive node ∧ ¬ s.HasField Handle.fieldEvaluatedAt ∧
    s.textsIn node Handle.fieldResultCache ≠ []

theorem dropCache_stopsHalfway_iff (hs : s.Sound) :
    StopsHalfway (dropCache now node) s ↔ s.IsLive node ∧ ¬ s.HasField Handle.fieldEvaluatedAt ∧
      s.textsIn node Handle.fieldResultCache ≠ [] := by
  constructor
  · intro hstops
    obtain ⟨removed, t, hfirst, -⟩ :=
      (stopsHalfway_bind_iff (removeProperty_whole now node _)).mp hstops
    obtain ⟨hlive, -⟩ := removeProperty_succeeds_iff.mp ⟨removed, t, hfirst⟩
    obtain ⟨err, s', h, hchanged⟩ := hstops
    have hrows : s.textsIn node Handle.fieldResultCache ≠ [] := fun hempty =>
      hchanged ((dropCache_failed hs hlive h).2 hempty ▸ .refl s)
    refine ⟨hlive, fun htime => ?_, hrows⟩
    obtain ⟨_, u, hok⟩ : Succeeds (dropCache now node) s :=
      (dropCache_succeeds_iff hs).mpr ⟨hlive, hasField_of_textsIn hrows, htime⟩
    cases hok.symm.trans h
  · intro ⟨hlive, hgone, hrows⟩
    obtain ⟨err, s', h⟩ : ∃ err s', dropCache now node s = .error err s' :=
      exists_error fun hok => hgone ((dropCache_succeeds_iff hs).mp hok).2.2
    refine ⟨err, s', h, fun hsame => hrows ?_⟩
    rw [← hsame.textsIn_eq node, (dropCache_failed hs hlive h).1]

/-- What is left of saving a definition once it has been written. -/
theorem saveQuery_first (hs : s.Sound) {d : QueryDefinition} {t : Store}
    (h : setProperty now node Handle.fieldQueryDefinition (.json d.toDocument) none s =
      .ok () t) :
    (Succeeds (dropCache now node) t ↔
      s.HasField Handle.fieldResultCache ∧ s.HasField Handle.fieldEvaluatedAt) ∧
    ∀ err s', dropCache now node t = .error err s' →
      (¬ s.SameTables s' ↔ ¬ s.IsSet node Handle.fieldQueryDefinition (.json d.toDocument) ∨
        s.textsIn node Handle.fieldResultCache ≠ []) := by
  have hname := isName_fieldQueryDefinition
  have hleaves := setProperty_leavesFields now node (.json d.toDocument) none hname s
  rw [after_of_ok h] at hleaves
  have ht := (hleaves hs).1
  have hlive : t.IsLive node := (hleaves.isLive_iff hs).mpr (setProperty_takes hs h).1
  obtain ⟨hset, hidle⟩ := setProperty_leaves hs hname queryDefinition_ne_extends rfl h
  constructor
  · rw [dropCache_succeeds_iff ht, hleaves.hasField_iff hs isName_fieldResultCache,
      hleaves.hasField_iff hs isName_fieldEvaluatedAt]
    exact and_iff_right hlive
  intro err s' hdrop
  have hdropped := dropCache_leavesFields now node t
  rw [after_of_error hdrop] at hdropped
  obtain ⟨hempty, hdropIdle⟩ := dropCache_failed ht hlive hdrop
  constructor
  · -- With nothing to write and nothing to remove the tables would be the same.
    intro hchanged
    by_contra hnothing
    rw [not_or, not_not, not_not] at hnothing
    obtain rfl := hidle hnothing.1
    obtain rfl := hdropIdle hnothing.2
    exact hchanged (.refl _)
  · intro hchanged hsame
    rcases hchanged with hunset | hrows
    · -- The new definition is still there.
      obtain ⟨raw, hraw, htexts⟩ := hset
      rw [← hdropped.textsIn_eq ht node hname not_isCacheField_queryDefinition,
        hsame.textsIn_eq] at htexts
      exact hunset ⟨raw, hraw, htexts⟩
    · rw [hsame.textsIn_eq] at hempty
      exact hrows hempty

theorem saveQuery_stopsHalfway_iff (hs : s.Sound) (hc : s.Counted) (d : QueryDefinition) :
    StopsHalfway (saveQuery now node d) s ↔ s.CutsSave node d := by
  have hfinite : (PropertyValue.json d.toDocument).Finite := by
    intro n hn
    cases hn
  have hwritten : Succeeds (setProperty now node Handle.fieldQueryDefinition (.json d.toDocument)
      none) s ↔ s.IsLive node ∧ s.Takes Handle.fieldQueryDefinition [.json d.toDocument] ∧
        (s.IsSet node Handle.fieldQueryDefinition (.json d.toDocument) ∨ s.HasNumbers 1) :=
    setProperty_succeeds_iff hs hc isName_fieldQueryDefinition queryDefinition_ne_extends rfl
      hfinite
  unfold saveQuery
  cases hfault : d.fault? with
  | some fault =>
    refine iff_of_false (IsWhole.not_stopsHalfway (.throw_bind _ _)) fun h => ?_
    have hvalid := h.valid
    rw [QueryDefinition.isValid, hfault] at hvalid
    cases hvalid
  | none =>
    have hvalid : d.isValid = true := by
      rw [QueryDefinition.isValid, hfault]
      rfl
    have hwhole : IsWhole (setProperty now node Handle.fieldQueryDefinition (.json d.toDocument)
        none) s :=
      setProperty_whole hs now node _ none fun _ _ h => absurd h Bool.false_ne_true
    refine (stopsHalfway_bind_iff hwhole).trans ?_
    constructor
    · intro hstops
      obtain ⟨_, t, hset, err, s', hdrop, hchanged⟩ := hstops
      obtain ⟨hlive, htakes, hroom⟩ := hwritten.mp ⟨_, t, hset⟩
      obtain ⟨hfields, hsame⟩ := saveQuery_first hs hset
      refine ⟨hvalid, hlive, htakes, hroom, fun hboth => ?_, (hsame err s' hdrop).mp hchanged⟩
      obtain ⟨_, u, hok⟩ := hfields.mpr hboth
      cases hok.symm.trans hdrop
    · intro hcuts
      obtain ⟨_, t, hset⟩ := hwritten.mpr ⟨hcuts.live, hcuts.taken, hcuts.room⟩
      obtain ⟨hfields, hsame⟩ := saveQuery_first hs hset
      obtain ⟨err, s', hdrop⟩ := exists_error fun hok => hcuts.gone (hfields.mp hok)
      exact ⟨_, t, hset, err, s', hdrop, (hsame err s' hdrop).mpr hcuts.changed⟩

/-- References are finite values. -/
theorem finite_of_mem_references (ids : List NodeId) :
    ∀ value ∈ ids.map PropertyValue.node, value.Finite := by
  intro value hvalue n hn
  obtain ⟨id, -, rfl⟩ := List.mem_map.mp hvalue
  cases hn

/-- What is left of keeping an answer once its identifiers have been written. -/
theorem keepCache_first (hs : s.Sound) (hc : s.Counted) {ids : List NodeId} {t : Store}
    (h : setPropertyValues now node Handle.fieldResultCache (ids.map .node) s = .ok () t) :
    (Succeeds (setProperty now node Handle.fieldEvaluatedAt (.ofInt now) none) t ↔
      s.Takes Handle.fieldEvaluatedAt [.ofInt now] ∧
        (s.IsSet node Handle.fieldEvaluatedAt (.ofInt now) ∨ s.HasNumbers (ids.length + 1))) ∧
    (¬ s.SameTables t ↔ ids ≠ [] ∨ s.textsIn node Handle.fieldResultCache ≠ [] ∨
      ∃ n, s.node? node = .ok (some n) ∧ n.updatedAt < now) := by
  have htime := isName_fieldEvaluatedAt
  have hfinite : (PropertyValue.ofInt now).Finite :=
    fun _ h => ⟨_, (PropertyValue.number.inj h).symm⟩
  have hleaves := setPropertyValues_leavesFields now node (ids.map .node) isName_fieldResultCache s
  have hct := hc.after hs (setPropertyValues_respects .changes now node Handle.fieldResultCache
    (ids.map .node))
  rw [after_of_ok h] at hleaves hct
  obtain ⟨hlive, -⟩ := setPropertyValues_takes h
  obtain ⟨-, hlast, hsame⟩ := setPropertyValues_leaves hs hc isName_fieldResultCache
    resultCache_ne_extends (finite_of_mem_references ids) h
  have hnumbers : t.HasNumbers 1 ↔ s.HasNumbers (ids.length + 1) := by
    rw [List.length_map] at hlast
    unfold HasNumbers
    omega
  constructor
  · rw [setProperty_succeeds_iff (hleaves hs).1 hct htime evaluatedAt_ne_extends rfl hfinite,
      hleaves.takes_iff hs (by decide) htime, hleaves.isSet_iff hs node _ htime (by decide),
      hnumbers, hleaves.isLive_iff hs]
    exact and_iff_right hlive
  · rw [hsame, List.map_eq_nil_iff]
    simp only [not_and_or, not_forall, exists_prop, Int.not_le, ne_eq]

theorem keepCache_stopsHalfway_iff (hs : s.Sound) (hc : s.Counted) (hlive : s.IsLive node)
    (ids : List NodeId) :
    StopsHalfway (keepCache now node ids) s ↔ s.CutsRefresh now node ids := by
  have hwritten : Succeeds (setPropertyValues now node Handle.fieldResultCache (ids.map .node)) s ↔
      s.Takes Handle.fieldResultCache (ids.map .node) ∧ s.HasNumbers ids.length := by
    rw [setPropertyValues_succeeds_iff hs hc isName_fieldResultCache resultCache_ne_extends
      (finite_of_mem_references ids), List.length_map]
    exact and_iff_right hlive
  have hsecond : ∀ t, t.Sound → IsWhole (setProperty now node Handle.fieldEvaluatedAt
      (.ofInt now) none) t :=
    fun t ht => setProperty_whole ht now node _ none fun _ _ h => nomatch h
  refine (stopsHalfway_bind_iff (setPropertyValues_whole hs now node _ _)).trans ?_
  constructor
  · intro ⟨_, t, hset, err, s', herror, hchanged⟩
    obtain ⟨htime, hsame⟩ := keepCache_first hs hc hset
    obtain ⟨htakes, hnumbers⟩ := hwritten.mp ⟨_, t, hset⟩
    have ht := hs.after (setPropertyValues_respects .changes now node Handle.fieldResultCache
      (ids.map .node))
    rw [after_of_ok hset] at ht
    obtain rfl := hsecond t ht err s' herror
    refine ⟨htakes, hnumbers, fun hroom => ?_, hsame.mp hchanged⟩
    obtain ⟨_, u, hok⟩ := htime.mpr hroom
    cases hok.symm.trans herror
  · intro hcuts
    obtain ⟨_, t, hset⟩ := hwritten.mpr ⟨hcuts.taken, hcuts.room⟩
    obtain ⟨htime, hsame⟩ := keepCache_first hs hc hset
    have ht := hs.after (setPropertyValues_respects .changes now node Handle.fieldResultCache
      (ids.map .node))
    rw [after_of_ok hset] at ht
    obtain ⟨err, s', herror⟩ := exists_error fun hok => hcuts.refused (htime.mp hok)
    obtain rfl := hsecond t ht err s' herror
    exact ⟨_, s', hset, err, s', herror, hsame.mpr hcuts.changed⟩

/-! ## Edits of saved queries -/

theorem isLive_of_evaluateSaved {page : QueryPage} (h : s.evaluateSaved now node = .ok page) :
    s.IsLive node := by
  unfold evaluateSaved at h
  cases hnode : s.node? node with
  | error err =>
    rw [hnode] at h
    cases h
  | ok found =>
    cases found with
    | none =>
      rw [hnode] at h
      cases h
    | some n => exact ⟨n, hnode⟩

theorem runSaved_stopsHalfway_iff (hs : s.Sound) (hc : s.Counted) :
    StopsHalfway (runSaved now node true) s ↔
      ∃ page, s.evaluateSaved now node = .ok page ∧ s.CutsRefresh now node page.nodeIds := by
  have hask : IsWhole (ask fun s => s.evaluateSaved now node) s := .of_reads (Reads.ask _)
  refine (stopsHalfway_bind_iff hask).trans ?_
  constructor
  · intro ⟨page, t, hpage, hstops⟩
    obtain rfl := (Reads.ask _).eq_of_ok hpage
    have hanswer := ask_ok hpage
    have hkeep := (stopsHalfway_bind_pure_iff _ fun _ => page).mp hstops
    exact ⟨page, hanswer,
      (keepCache_stopsHalfway_iff hs hc (isLive_of_evaluateSaved hanswer) _).mp hkeep⟩
  · intro ⟨page, hanswer, hcuts⟩
    have hkeep :=
      (keepCache_stopsHalfway_iff hs hc (isLive_of_evaluateSaved hanswer) _).mpr hcuts
    exact ⟨page, s, ask_of_ok (·.evaluateSaved now node) hanswer,
      (stopsHalfway_bind_pure_iff _ fun _ => page).mpr hkeep⟩

/-- An edit of a saved query stops half-way exactly if it is cut short. -/
theorem Sound.queryEdit_stopsHalfway (hs : s.Sound) (hc : s.Counted) (e : QueryEdit) :
    StopsHalfway (e.edit now) s ↔ s.CutsShort now e := by
  cases e with
  | save node d => exact saveQuery_stopsHalfway_iff hs hc d
  | run node refresh =>
    refine (stopsHalfway_discard_iff _).trans ?_
    cases refresh with
    | true => exact runSaved_stopsHalfway_iff hs hc
    | false =>
      refine iff_of_false (IsWhole.not_stopsHalfway (.of_reads ?_)) id
      exact (Reads.ask _).bind fun page => Reads.pure page
  | dropCache node => exact dropCache_stopsHalfway_iff hs

/-- An edit of a saved query on a store that any run has left fails after it has changed nodes or
rows exactly if it is cut short between its writes. In all other cases it does all of its work or
leaves everything as it was. -/
theorem queryEdit_stopsHalfway_iff (steps : List Step) (now : Int) (e : QueryEdit) :
    (∃ err s', e.edit now (Store.empty.run steps) = .error err s' ∧
      ¬ (Store.empty.run steps).SameTables s') ↔ (Store.empty.run steps).CutsShort now e := by
  have hs : (Store.empty.run steps).Sound := empty_sound.run steps
  have hc : (Store.empty.run steps).Counted := empty_counted.run empty_sound steps
  exact hs.queryEdit_stopsHalfway hc e

/-- Without `field:evaluatedAt` dropping a kept answer is refused, but its identifiers are gone. -/
example :
    let id (i : Nat) (h : i < 2 ^ 128) : NodeId := ⟨i, h⟩
    let node := id 1 (by decide)
    let s := Store.empty.run [
      ⟨1, .graph (.createNode ⟨node, "milk", none, none, []⟩)⟩,
      ⟨1, .table (.insertSystemNode (id 2 (by decide)) Handle.fieldResultCache "Result Cache")⟩,
      ⟨1, .graph (.setPropertyValues node Handle.fieldResultCache [.node node])⟩]
    s.properties.length = 1 ∧ (match QueryEdit.edit 6 (.dropCache node) s with
      | .ok _ _ => none
      | .error _ s' => some s'.properties.length) = some 0 := by
  intro id node s
  decide +kernel

end Store

end TagGraph
