import TagGraph.Proofs.Field.Multiplicity
import TagGraph.Proofs.Seed.Admission

/-!
# The catalogue is single-valued

Each step of the seeding writes one value where there is none, but for the supertags that it assigns
one behind the other. When all steps are through, `field:supertag` is declared as `nodes`, so that a
freshly seeded store is single-valued (`Store.seeded_singleValued`), and so are the stores that a
run on it leaves, as long as no edit leaves several rows
(`Store.runGraph_seeded_singleValued_iff`).
-/

namespace TagGraph

namespace Store

theorem atMostOne_empty (fields : NodeId → Prop) : Store.empty.AtMostOne fields := by
  intro node field _
  rw [fieldRecords, inOrder, List.length_mergeSort]
  exact Nat.zero_le 1

/-- All fields but `field:supertag` have one row of each node at most. -/
def SingleButSupertags (s : Store) : Prop :=
  s.AtMostOne fun field => ¬ s.Holds (.known field) (some Handle.fieldSupertag)

namespace SingleButSupertags

variable {s s' : Store}

theorem empty : Store.empty.SingleButSupertags :=
  atMostOne_empty _

/-- A further node brings no rows. -/
theorem joinedBy {id : NodeId} (h : s.SingleButSupertags) (hjoined : JoinedBy id s s') :
    s'.SingleButSupertags := by
  intro node field hfield
  rw [fieldRecords, hjoined.properties]
  exact h node field fun hheld => hfield (hjoined.held _ _ hheld)

/-- An edit of one field leaves one row of the others, and of its own if it sees to it. -/
theorem editsField {α : Type} {e : Edit α} {node : NodeId} {field : String}
    {values : List PropertyValue} (h : s.SingleButSupertags)
    (he : Edit.EditsField e s node field values) (hs : s.Sound)
    (hown : ∀ fieldNode, s.findLive? field = .ok (some fieldNode) →
      ¬ s.Holds (.known fieldNode.id) (some Handle.fieldSupertag) →
        ((e.after s).fieldRecords node fieldNode.id).length ≤ 1) :
    (e.after s).SingleButSupertags := by
  have hafter := (he.atMostOne_after_iff hs h).mpr hown
  exact fun n f hf => hafter n f fun hheld => hf ((he.holds_iff hs).mpr hheld)

/-- So does a write of one value to a field that takes one. -/
theorem setProperty {now : Int} {node : NodeId} {field : String} {value : PropertyValue}
    {order : Option Int} (h : s.SingleButSupertags) (hs : s.Sound)
    (hok : Edit.setProperty now node field value order s = .ok () s')
    (hone : ∀ fieldNode type, Edit.Sets s s' node value field fieldNode type →
      Edit.TakesOne type) : s'.SingleButSupertags := by
  have hafter := Edit.after_of_ok hok
  rw [← hafter]
  refine h.editsField (Edit.setProperty_editsField now node field value order s) hs
    fun fieldNode hfound _ => ?_
  rw [hafter]
  exact Nat.le_of_eq (Edit.setProperty_length hs hok hfound (hone fieldNode))

end SingleButSupertags

end Store

/-! ## Steps of a seeding -/

namespace Seeding

open Store

variable {earlier : List SeedStep} {state state' : SeedState} {now : Int} {fresh : Nat → NodeId}

/-- A step that succeeds leaves one row of each field but `field:supertag`. -/
theorem step_singleButSupertags {step : SeedStep} (hfollows : step.follows earlier = true)
    (h : Reached earlier state) (hok : Seeding.step now fresh step state = .ok () state')
    (hsingle : state.store.SingleButSupertags) : state'.store.SingleButSupertags := by
  obtain ⟨-, -, -, hreadable⟩ := SeedStep.follows_iff.mp hfollows
  cases step with
  | create systemId content =>
    obtain ⟨id, drawn, hdraw, hok⟩ := ok_of_bind hok
    obtain ⟨-, rfl⟩ := EStateM.Result.ok.inj hdraw
    obtain ⟨found, filled, hedit, hok⟩ := ok_of_bind hok
    obtain ⟨s', hinsert, rfl⟩ := edit_ok hedit
    obtain ⟨-, rfl⟩ := EStateM.Result.ok.inj hok
    have hjoined := Edit.insertSystemNode_respects (JoinedBy.composes id) now id systemId content
      (fun _ _ _ => .addNode (r := Edit.newRecord now (.system id systemId content)) rfl rfl) _
      h.sound.native
    rw [Edit.after_of_ok hinsert] at hjoined
    exact hsingle.joinedBy hjoined.2
  | declare field type =>
    obtain ⟨id, -, hok⟩ := ok_of_require hok
    obtain ⟨s', hset, rfl⟩ := edit_ok hok
    exact hsingle.setProperty h.sound hset fun _ _ hsets =>
      Edit.takesOne_of_conforms rfl hsets.conforms
  | assign node supertag =>
    obtain ⟨id, -, hok⟩ := ok_of_require hok
    obtain ⟨tag, -, hok⟩ := ok_of_require hok
    obtain ⟨added, attached, hedit, hok⟩ := ok_of_bind hok
    obtain ⟨-, rfl⟩ := EStateM.Result.ok.inj hok
    obtain ⟨s', hattach, rfl⟩ := edit_ok hedit
    rw [← Edit.after_of_ok hattach]
    refine hsingle.editsField (Edit.attachSupertag_editsField now id tag _) h.sound
      fun fieldNode hfound hother => ?_
    exact absurd (h.sound.holds_of_found isName_fieldSupertag hfound) hother
  | inherit supertag parent =>
    obtain ⟨id, -, hok⟩ := ok_of_require hok
    obtain ⟨above, -, hok⟩ := ok_of_require hok
    obtain ⟨s', hset, rfl⟩ := edit_ok hok
    -- Parents are written one at a time, since an earlier step has declared the field.
    refine hsingle.setProperty h.sound hset fun fieldNode type hsets => ?_
    have hdeclared := h.sound.fieldType?_of_hasDone h.done (List.contains_iff_mem.mp hreadable)
      (h.sound.holds_of_found isName_fieldExtends hsets.admits.found)
    obtain rfl : type = some .node := Except.ok.inj (hsets.declared.symm.trans hdeclared)
    exact Edit.takesOne_of_ne (by decide)
  | save query definition =>
    obtain ⟨id, -, hok⟩ := ok_of_require hok
    obtain ⟨found, asked, hask, hok⟩ := ok_of_bind hok
    obtain ⟨s', hlook, rfl⟩ := edit_ok hask
    obtain rfl := (Edit.Reads.ask _).eq_of_ok hlook
    cases found with
    | some value =>
      obtain ⟨-, rfl⟩ := EStateM.Result.ok.inj hok
      exact hsingle
    | none =>
      obtain ⟨s', hset, rfl⟩ := edit_ok hok
      exact hsingle.setProperty h.sound hset fun _ _ hsets =>
        Edit.takesOne_of_conforms rfl hsets.conforms

end Seeding

/-! ## Runs on a seeded store -/

namespace Store

/-- When all steps of the catalogue are through, `field:supertag` takes several values. -/
theorem Sound.singleValued_of_hasDone {s : Store} (hs : s.Sound)
    (hdone : ∀ step ∈ SeedStep.plan, s.HasDone step) (h : s.SingleButSupertags) :
    s.SingleValued := by
  intro node field hsingle
  refine h node field fun hheld => hsingle ?_
  exact hs.fieldType?_of_hasDone hdone (by decide +kernel) hheld

/-- No field of the catalogue that takes one value has a second row. -/
theorem seeded_singleValued (now : Int) (fresh : Nat → NodeId) :
    (seeded now fresh).SingleValued := by
  have hafter : seeded now fresh = (Edit.bootstrap now fresh).after .empty :=
    Edit.after_map (fun _ => ()) (Edit.bootstrap now fresh) .empty
  rw [hafter]
  cases hrun : Edit.bootstrap now fresh .empty with
  | error err s' =>
    obtain rfl := Edit.IsWhole.atomically _ err s' hrun
    rw [Edit.after_of_error hrun]
    exact atMostOne_empty _
  | ok summary s' =>
    obtain ⟨state, hsteps, rfl⟩ := Edit.steps_of_bootstrap hrun
    have hempty := Seeding.reached_empty empty_sound
    have hreached := hempty.steps SeedStep.plan_isArranged hsteps
    rw [Edit.after_of_ok hrun]
    refine hreached.sound.singleValued_of_hasDone hreached.done ?_
    exact hempty.steps_preserve (P := fun state => state.store.SingleButSupertags)
      (fun _ _ _ _ _ => Seeding.step_singleButSupertags) SeedStep.plan_isArranged hsteps .empty

/-- From a freshly seeded store on, as long as the rows of `field:fieldType` are left, fields that
are not of type `nodes` have one row of each node at most all the way if and only if no edit on the
way leaves several. -/
theorem runGraph_seeded_singleValued_iff (now : Int) (fresh : Nat → NodeId)
    (edits : List GraphStep)
    (hsame : ∀ taken next, taken ++ [next] <+: edits →
      ((seeded now fresh).runGraph taken).SameDeclarations
        ((seeded now fresh).runGraph (taken ++ [next]))) :
    (∀ taken, taken <+: edits → ((seeded now fresh).runGraph taken).SingleValued) ↔
      ∀ taken next, taken ++ [next] <+: edits →
        ¬ ((seeded now fresh).runGraph taken).Overfills next.now next.edit :=
  (seeded_sound now fresh).runGraph_singleValued_iff (seeded_singleValued now fresh) edits hsame

/-- A node without supertags is created and gets its status. -/
theorem runGraph_seeded_singleValued_iff_status :
    let milk : NodeId := ⟨1, by decide⟩
    let s := seeded 7 Seeding.supply
    let edits : List GraphStep := [⟨8, .createNode ⟨milk, "milk", none, none, []⟩⟩,
      ⟨9, .setProperty milk Handle.fieldStatus (.string "open") none⟩]
    (∀ taken next, taken ++ [next] <+: edits →
      (s.runGraph taken).SameDeclarations (s.runGraph (taken ++ [next]))) ∧
      ∀ taken, taken <+: edits → (s.runGraph taken).SingleValued := by
  intro milk s edits
  have hname : IsName Handle.fieldStatus := ⟨by decide +kernel, by decide +kernel⟩
  have hedits : ∀ taken next, taken ++ [next] <+: edits →
      next.edit = .createNode ⟨milk, "milk", none, none, []⟩ ∨
        next.edit = .setProperty milk Handle.fieldStatus (.string "open") none := by
    intro taken next hnext
    have hmem : next ∈ edits :=
      hnext.subset (List.mem_append_right taken (List.mem_singleton_self next))
    simp only [edits, List.mem_cons, List.not_mem_nil, or_false] at hmem
    rcases hmem with rfl | rfl
    · exact Or.inl rfl
    · exact Or.inr rfl
  have hsame : ∀ taken next, taken ++ [next] <+: edits →
      (s.runGraph taken).SameDeclarations (s.runGraph (taken ++ [next])) := by
    intro taken next hnext
    rw [runGraph_concat]
    refine Edit.graphEdit_sameDeclarations next.now ((seeded_sound 7 Seeding.supply).run _)
      fun node field fieldNode hdirect hfound => ?_
    rcases hedits taken next hnext with hedit | hedit
    · rw [hedit] at hdirect
      cases hdirect
    · rw [hedit] at hdirect
      obtain ⟨-, rfl⟩ := Prod.mk.inj (Option.some.inj hdirect)
      rw [systemId_of_findLive? hname.trimmed hname.notId hfound]
      decide
  refine ⟨hsame, (runGraph_seeded_singleValued_iff 7 Seeding.supply edits hsame).mpr
    fun taken next hnext hover => ?_⟩
  rcases hedits taken next hnext with hedit | hedit
  · rw [hedit] at hover
    cases hover with
    | createNode _ _ hnamed hseveral =>
      cases hnamed
      exact absurd hseveral (by decide)
  · rw [hedit] at hover
    cases hover

end Store

end TagGraph
