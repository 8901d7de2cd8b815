import TagGraph.Proofs.Inheritance.Cycles

/-!
# The catalogue has no cycles

In the catalogue every supertag that extends one extends `supertag:item`, which extends none. This
holds after each part of the seeding of an empty store (`SeedState.Rooted`), whatever identifiers
the nodes get, so that a freshly seeded store is acyclic (`Store.seeded_acyclic`).
-/

namespace TagGraph

/-- The step inherits from `supertag:item`, if it inherits at all. -/
def SeedStep.isRooted : SeedStep → Bool
  | .inherit _ parent => parent == Handle.supertagItem
  | _ => true

theorem SeedStep.plan_isRooted : SeedStep.plan.all SeedStep.isRooted = true := by
  decide +kernel

/-- The store is sound, and whoever names a parent names the node of `supertag:item` and is
another. -/
structure SeedState.Rooted (state : SeedState) : Prop where
  sound : state.store.Sound
  rooted : ∀ child parent, state.store.Names child parent →
    state.context.id? Handle.supertagItem = some parent ∧ child ≠ parent

namespace Seeding

variable {α β : Type}

/-- A part of the seeding that keeps states rooted. -/
def Keeps (m : Seeding α) : Prop :=
  ∀ state : SeedState, state.Rooted → (m.after state).Rooted

namespace Keeps

theorem pure (a : α) : Keeps (pure a : Seeding α) :=
  fun _ h => h

/-- What comes after a part may rely on what that part gives. -/
theorem bind_of {m : Seeding α} {f : α → Seeding β} (hm : Keeps m)
    (hf : ∀ a state state', m state = .ok a state' → state'.Rooted → ((f a).after state').Rooted) :
    Keeps (m >>= f) := by
  intro state hstate
  have hfirst := hm state hstate
  unfold after at hfirst
  cases hrun : m state with
  | ok a state' =>
    rw [hrun] at hfirst
    rw [after_bind_of_ok hrun]
    exact hf a state state' hrun hfirst
  | error err state' =>
    rw [hrun] at hfirst
    rw [after_bind_of_error hrun]
    exact hfirst

theorem bind {m : Seeding α} {f : α → Seeding β} (hm : Keeps m) (hf : ∀ a, Keeps (f a)) :
    Keeps (m >>= f) :=
  hm.bind_of fun a _ state' _ hstate' => hf a state' hstate'

theorem require_bind {systemId : String} {f : NodeId → Seeding β}
    (hf : ∀ id (state : SeedState), state.context.id? systemId = some id → state.Rooted →
      ((f id).after state).Rooted) : Keeps (require systemId >>= f) := by
  refine bind_of (fun state hstate => ?_) fun id state state' hrun hstate' => ?_
  · unfold after
    rw [require_eq]
    cases state.context.id? systemId <;> exact hstate
  · rw [require_eq] at hrun
    cases hid : state.context.id? systemId with
    | none =>
      rw [hid] at hrun
      cases hrun
    | some found =>
      rw [hid] at hrun
      obtain ⟨rfl, rfl⟩ := EStateM.Result.ok.inj hrun
      exact hf found state hid hstate'

theorem draw (fresh : Nat → NodeId) : Keeps (draw fresh) :=
  fun _ h => ⟨h.sound, h.rooted⟩

/-- Noting further nodes does not change what is noted already. -/
theorem note (systemId : String) (id : NodeId) (created : Bool) :
    Keeps (note systemId id created) := by
  intro state h
  refine ⟨h.sound, fun child parent hnames => ?_⟩
  obtain ⟨hitem, hne⟩ := h.rooted child parent hnames
  refine ⟨?_, hne⟩
  have hlookup : state.context.ids.lookup Handle.supertagItem = some parent := hitem
  show List.lookup Handle.supertagItem (state.context.ids ++ [(systemId, id)]) = some parent
  rw [List.lookup_append, hlookup]
  rfl

end Keeps

/-- An edit that leaves the store sound keeps a state rooted if the parents that it adds are other
nodes than their children, and that of `supertag:item`. -/
theorem edit_rooted {e : Edit α} {state : SeedState} (hstate : state.Rooted)
    (hsound : (e.after state.store).Sound)
    (hnames : ∀ child parent, (e.after state.store).Names child parent →
      state.store.Names child parent ∨
        state.context.id? Handle.supertagItem = some parent ∧ child ≠ parent) :
    ((edit e).after state).Rooted := by
  have hafter : (edit e).after state = { state with store := e.after state.store } := by
    unfold after edit Edit.after
    cases e state.store <;> rfl
  rw [hafter]
  refine ⟨hsound, fun child parent h => ?_⟩
  rcases hnames child parent h with hold | hnew
  · exact hstate.rooted child parent hold
  · exact hnew

theorem edit_keeps {e : Edit α} (h : ∀ s : Store, s.Sound →
    (e.after s).Sound ∧ Edit.MakesNoStep e s) : Keeps (edit e) :=
  fun state hstate => edit_rooted hstate (h state.store hstate.sound).1 fun child parent hnames =>
    Or.inl ((h state.store hstate.sound).2 child parent hnames)

/-- A value of another field than `field:extends` is not a parent. -/
theorem setProperty_keeps (now : Int) (id : NodeId) {field : String} (value : PropertyValue)
    (htrim : Text.trim field = field) (hid : NodeId.ofString? field = none)
    (hne : field ≠ Handle.fieldExtends) :
    Keeps (edit (Edit.setProperty now id field value none)) := by
  refine edit_keeps fun s hs => ⟨?_, ?_⟩
  · exact hs.after (Edit.setProperty_respects .changes now id field value none)
  · exact (Edit.setProperty_editsField now id field value none s).makesNoStep hs htrim hid hne

/-- The node of `supertag:item` may become a parent: the guard sees to it that the child is another
node. -/
theorem extendItem_rooted (now : Int) (id : NodeId) {item : NodeId} {state : SeedState}
    (hitem : state.context.id? Handle.supertagItem = some item) (hstate : state.Rooted) :
    ((edit (Edit.setProperty now id Handle.fieldExtends (.node item) none)).after
      state).Rooted := by
  have hs := hstate.sound
  have he := Edit.setProperty_editsField now id Handle.fieldExtends (.node item) none state.store
  refine edit_rooted hstate (hs.after (Edit.setProperty_respects .changes now id _ _ none))
    fun child parent hnames => ?_
  rcases he.names hs with hnone | ⟨fieldNode, hadmits, hextends, hwithin⟩
  · exact Or.inl (hnone child parent hnames)
  rcases hwithin.names_new hnames with hold | ⟨rfl, -, raw, hraw, hparent⟩
  · exact Or.inl hold
  -- A new step is one to the value that has been written, which is the node of the handle.
  obtain ⟨value, hvalue, hwritten⟩ := hraw.parent hparent
  obtain rfl := List.mem_singleton.mp hvalue
  have heq : parent = item := by
    rcases hwritten with hid | hmem
    · exact (Option.some.inj hid).symm
    · exact List.mem_singleton.mp hmem
  subst heq
  have hoverlooked : state.store.Overlooks child parent [.node parent] :=
    Store.overlooks_of_admits hadmits hextends
  rcases hoverlooked with hunseen | ⟨hne, -⟩
  · exact absurd (List.mem_singleton_self parent) (hunseen _ hvalue)
  · exact Or.inr ⟨hitem, hne⟩

/-- A step of the catalogue keeps a state rooted. -/
theorem step_keeps (now : Int) (fresh : Nat → NodeId) {step : SeedStep}
    (hstep : step.isRooted = true) : Keeps (Seeding.step now fresh step) := by
  cases step with
  | create systemId content =>
    refine (Keeps.draw fresh).bind fun id => Keeps.bind (edit_keeps fun s hs => ?_) fun found =>
      Keeps.note systemId found.1 found.2
    exact ⟨hs.after (Store.TableLaw.changes.insertSystemNode now id systemId content),
      .of_noNewSteps hs (Store.NoNewSteps.insertSystemNode now id systemId content)⟩
  | declare field type =>
    refine Keeps.require_bind fun id state _ hstate => ?_
    exact setProperty_keeps now id _ (by decide +kernel) (by decide +kernel) (by decide) state
      hstate
  | assign node supertag =>
    refine Keeps.require_bind fun id state _ hstate => Keeps.require_bind (fun tag state _ hstate =>
      (Keeps.bind (edit_keeps fun s hs => ?_) fun _ => Keeps.pure _) state hstate) state hstate
    exact ⟨hs.after (Edit.attachSupertag_respects .changes now id tag),
      (Edit.attachSupertag_editsField now id tag s).supertag_makesNoStep hs⟩
  | inherit supertag parent =>
    obtain rfl : parent = Handle.supertagItem := beq_iff_eq.mp hstep
    refine Keeps.require_bind fun id state _ hstate => ?_
    exact Keeps.require_bind (fun item state hitem hstate =>
      extendItem_rooted now id hitem hstate) state hstate
  | save query definition =>
    refine Keeps.require_bind fun id state _ hstate => Keeps.bind (edit_keeps fun s hs => ?_)
      (fun value => ?_) state hstate
    · unfold Edit.MakesNoStep
      rw [Edit.after_ask]
      exact ⟨hs, fun _ _ h => h⟩
    · by_cases hvalue : value.isNone
      · rw [if_pos hvalue]
        exact setProperty_keeps now id _ (by decide +kernel) (by decide +kernel) (by decide)
      · rw [if_neg hvalue]
        exact Keeps.pure _

theorem steps_keep (now : Int) (fresh : Nat → NodeId) {plan : List SeedStep}
    (hplan : plan.all SeedStep.isRooted = true) : Keeps (steps now fresh plan) := by
  induction plan with
  | nil => exact Keeps.pure _
  | cons step rest ih =>
    rw [List.all_cons, Bool.and_eq_true] at hplan
    exact (step_keeps now fresh hplan.1).bind fun _ => ih hplan.2

theorem all_keeps (now : Int) (fresh : Nat → NodeId) : Keeps (all now fresh) := by
  refine (steps_keep now fresh SeedStep.plan_isRooted).bind fun _ => ?_
  refine Keeps.bind (fun _ h => h) fun state => ?_
  refine Keeps.bind (edit_keeps fun s hs => ?_) fun _ => Keeps.pure _
  unfold Edit.MakesNoStep
  rw [Edit.after_ask]
  exact ⟨hs, fun _ _ h => h⟩

end Seeding

namespace Store

/-- Where everybody names one parent and nobody itself, there are no cycles. -/
theorem Sound.acyclic_of_rooted {s : Store} (hs : s.Sound) {root : Option NodeId}
    (h : ∀ child parent, s.Names child parent → root = some parent ∧ child ≠ parent) :
    s.Acyclic := by
  rw [hs.acyclic_iff]
  intro node hcycle
  obtain ⟨next, hfirst, -⟩ := Relation.TransGen.head'_iff.mp hcycle
  obtain ⟨last, -, hlast⟩ := Relation.TransGen.tail'_iff.mp hcycle
  obtain ⟨hnext, hne⟩ := h node next hfirst
  obtain ⟨hnode, -⟩ := h last node hlast
  exact hne (Option.some.inj (hnode.symm.trans hnext))

/-- A freshly seeded store; it is empty if the seeding fails. -/
def seeded (now : Int) (fresh : Nat → NodeId) : Store :=
  Store.empty.step ⟨now, .bootstrap fresh⟩

theorem seeded_sound (now : Int) (fresh : Nat → NodeId) : (seeded now fresh).Sound :=
  empty_sound.run [⟨now, .bootstrap fresh⟩]

/-- No supertag of the catalogue extends itself, directly or through others. -/
theorem seeded_acyclic (now : Int) (fresh : Nat → NodeId) : (seeded now fresh).Acyclic := by
  have hempty : SeedState.Rooted ⟨.empty, .empty⟩ :=
    ⟨empty_sound, fun _ _ ⟨_, _, hr, _⟩ => nomatch hr⟩
  have hafter : seeded now fresh = (Edit.bootstrap now fresh).after .empty :=
    Edit.after_map (fun _ => ()) (Edit.bootstrap now fresh) .empty
  rw [hafter]
  rcases Edit.after_bootstrap now fresh .empty with hsame | hall
  · rw [hsame]
    exact empty_sound.acyclic_of_rooted hempty.rooted
  · have hrooted := Seeding.all_keeps now fresh _ hempty
    rw [hall]
    exact hrooted.sound.acyclic_of_rooted hrooted.rooted

end Store

end TagGraph
