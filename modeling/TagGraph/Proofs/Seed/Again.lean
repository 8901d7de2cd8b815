import TagGraph.Proofs.Seed.Progress

/-!
# Seeding again

In a store in which all steps of the catalogue are done, each of them is carried out without any
change (`Seeding.Reached.step_again`): every write finds what it would write. A seeding that
succeeds leaves such a store, so a further one right after it changes nothing, whatever the clock
says and whatever identifiers are at hand for new nodes (`Edit.bootstrap_again`).
-/

namespace TagGraph

/-! ## Writes of what is there -/

namespace Edit

open Store

variable {s : Store}

/-- A handle that a live node has is not given to another one. -/
theorem insertSystemNode_again (hs : s.Sound) (now : Int) (id : NodeId) {systemId : String}
    (content : String) {held : NodeId} (hfault : NewNode.systemIdFault? systemId = none)
    (hheld : s.Holds (.known held) (some systemId)) :
    insertSystemNode now id systemId content s = .ok (held, false) s := by
  have hvalid : (NewNode.system id systemId content).fault? = none := by
    simp [NewNode.fault?, NewNode.system, hfault]
  have hconflict : conflict? s (newRecord now (.system id systemId content)) =
      some .duplicateSystemId := by
    obtain ⟨r, hr, hlive, -, hhandle⟩ := hheld
    have hany : s.nodes.any (fun n => n.systemId == some systemId && n.isLive) = true :=
      List.any_eq_true.mpr ⟨r, hr, by simp [hlive, hhandle]⟩
    have hnew : (newRecord now (.system id systemId content)).systemId = some systemId := rfl
    have hnewLive : (newRecord now (.system id systemId content)).isLive = true := rfl
    simp [conflict?, hnew, hnewLive, hany]
  have hadd : addNode true (newRecord now (.system id systemId content)) s = .ok false s := by
    rw [addNode, get_bind, hs.native]
    simp only [hconflict]
    rfl
  obtain ⟨n, hn, rfl, -⟩ := hs.nodeBySystemId?_of_holds hheld
  unfold insertSystemNode
  simp only [hvalid]
  rw [bind_of_ok hadd, bind_of_ok (ask_of_ok (·.nodeBySystemId? systemId) hn)]
  rfl

/-- A value that is there already is not written again. -/
theorem setProperty_again (hs : s.Sound) (now : Int) {n : NodeId} {node field raw : String}
    {type : FieldType} {value : PropertyValue} (hname : IsName field)
    (hnode : s.Holds (.known n) (some node))
    (htype : ∀ f, s.Holds (.known f) (some field) → s.fieldType? f = .ok (some type))
    (hconforms : value.conformsTo type = true) (hone : TakesOne (some type))
    (hraw : value.encode? = some raw) (hhas : s.FieldHas node field (· = [raw]))
    (hguard : field = Handle.fieldExtends →
      ∀ parent ∈ value.referenced, s.wouldCreateCycle n parent = .ok false) :
    setProperty now n field value none s = .ok () s := by
  obtain ⟨m, f, hm, hf, htexts⟩ := hhas
  obtain rfl := StoredId.known.inj (hs.holds_unique hnode hm)
  obtain ⟨fieldNode, hfound, rfl, hhandle⟩ := hs.findLive?_of_holds hname hf
  refine setProperty_idle hs now ⟨hs.isLive_iff.mpr ⟨_, hnode⟩, hfound, fun hextends parent hmem =>
    ?_⟩ (htype _ hf) hconforms hone hraw htexts
  rw [List.flatMap_singleton] at hmem
  exact hguard (Option.some.inj (hhandle.symm.trans hextends)) parent hmem

end Edit

/-! ## Steps that are done -/

namespace SeedStep

theorem fieldType_declared : (Handle.fieldFieldType, .text) ∈ plan.filterMap (·.declared?) :=
  List.contains_iff_mem.mp (by decide +kernel)

theorem extends_declared : (Handle.fieldExtends, .node) ∈ plan.filterMap (·.declared?) :=
  List.contains_iff_mem.mp (by decide +kernel)

end SeedStep

namespace Seeding

variable {earlier : List SeedStep} {state : SeedState} {now : Int} {fresh : Nat → NodeId}

/-- Where the whole catalogue is written, its steps change nothing. -/
theorem Reached.step_again (h : Reached earlier state) {step : SeedStep}
    (hfollows : step.follows earlier = true) (hmem : step ∈ SeedStep.plan)
    (hdone : ∀ step ∈ SeedStep.plan, state.store.HasDone step) :
    ∃ state', Seeding.step now fresh step state = .ok () state' ∧ state'.store = state.store ∧
      state'.context.created = state.context.created := by
  have hs := h.sound
  obtain ⟨hrequired, -⟩ := SeedStep.follows_iff.mp hfollows
  have hthis := hdone step hmem
  cases step with
  | create systemId content =>
    obtain ⟨hfault, held, hheld⟩ := hthis
    have hinsert := Edit.insertSystemNode_again hs now (fresh state.context.drawn) content hfault
      hheld
    let drawn : SeedState :=
      { state with context := { state.context with drawn := state.context.drawn + 1 } }
    have hdraw : draw fresh state = .ok (fresh state.context.drawn) drawn := rfl
    have hedit : edit (Edit.insertSystemNode now (fresh state.context.drawn) systemId content)
        drawn = .ok (held, false) drawn := edit_of hinsert
    exact ⟨_, (bind_of_ok hdraw).trans ((bind_of_ok hedit).trans rfl), rfl, rfl⟩
  | declare field type =>
    obtain ⟨id, hid⟩ := h.exists_id? (hrequired field (by simp [SeedStep.required]))
    obtain ⟨raw, hraw, hhas⟩ := hthis
    have hset := Edit.setProperty_again hs now Store.isName_fieldFieldType (h.holds_of_id? hid)
      (fun f hf => hs.fieldType?_of_hasDone hdone SeedStep.fieldType_declared hf) rfl rfl hraw hhas
      fun hextends => absurd hextends (by decide)
    exact ⟨state, (bind_of_ok (require_of hid)).trans (edit_of hset), rfl, rfl⟩
  | assign node supertag =>
    obtain ⟨id, hid⟩ := h.exists_id? (hrequired node (by simp [SeedStep.required]))
    obtain ⟨tag, htag⟩ := h.exists_id? (hrequired supertag (by simp [SeedStep.required]))
    obtain ⟨target, htarget, n, f, hn, hf, hrefers⟩ := hthis
    obtain rfl := StoredId.known.inj (hs.holds_unique (h.holds_of_id? hid) hn)
    obtain rfl := StoredId.known.inj (hs.holds_unique (h.holds_of_id? htag) htarget)
    obtain ⟨field, hfound, rfl, -⟩ := hs.findLive?_of_holds Store.isName_fieldSupertag hf
    have hattach := Edit.attachSupertag_idle hs now (hs.isLive_iff.mpr ⟨_, hn⟩) hfound hrefers
    exact ⟨state, (bind_of_ok (require_of hid)).trans ((bind_of_ok (require_of htag)).trans
      ((bind_of_ok (edit_of hattach)).trans rfl)), rfl, rfl⟩
  | inherit supertag parent =>
    obtain ⟨id, hid⟩ := h.exists_id? (hrequired supertag (by simp [SeedStep.required]))
    obtain ⟨above, habove⟩ := h.exists_id? (hrequired parent (by simp [SeedStep.required]))
    obtain ⟨child, target, raw, hchild, htarget, hraw, hhas, hguard⟩ := hthis
    obtain rfl := StoredId.known.inj (hs.holds_unique (h.holds_of_id? hid) hchild)
    obtain rfl := StoredId.known.inj (hs.holds_unique (h.holds_of_id? habove) htarget)
    have hset := Edit.setProperty_again hs now Store.isName_fieldExtends hchild
      (fun f hf => hs.fieldType?_of_hasDone hdone SeedStep.extends_declared hf) rfl rfl hraw hhas
      fun _ reference hreference => (List.mem_singleton.mp hreference) ▸ hguard
    exact ⟨state, (bind_of_ok (require_of hid)).trans ((bind_of_ok (require_of habove)).trans
      (edit_of hset)), rfl, rfl⟩
  | save query definition =>
    obtain ⟨id, hid⟩ := h.exists_id? (hrequired query (by simp [SeedStep.required]))
    obtain ⟨n, f, hn, hf, hvalues⟩ := hthis
    obtain rfl := StoredId.known.inj (hs.holds_unique (h.holds_of_id? hid) hn)
    obtain ⟨field, hfound, rfl, -⟩ := hs.findLive?_of_holds Store.isName_fieldQueryDefinition hf
    obtain ⟨value, hvalue⟩ := Option.ne_none_iff_exists'.mp (mt List.head?_eq_none_iff.mp hvalues)
    have hask := Edit.ask_of_ok (·.value? id Handle.fieldQueryDefinition)
      ((hs.value?_eq (hs.isLive_iff.mpr ⟨_, hn⟩) hfound).trans (congrArg Except.ok hvalue))
    exact ⟨state, (bind_of_ok (require_of hid)).trans ((bind_of_ok (edit_of hask)).trans rfl),
      rfl, rfl⟩

/-- The steps of the catalogue change nothing where all of it is written. -/
theorem Reached.steps_again {rest : List SeedStep} (hrest : SeedStep.isArranged earlier rest = true)
    (hmem : ∀ step ∈ rest, step ∈ SeedStep.plan) (h : Reached earlier state)
    (hdone : ∀ step ∈ SeedStep.plan, state.store.HasDone step) :
    ∃ state', Seeding.steps now fresh rest state = .ok () state' ∧ state'.store = state.store ∧
      state'.context.created = state.context.created := by
  induction rest generalizing earlier state with
  | nil => exact ⟨state, rfl, rfl, rfl⟩
  | cons step rest ih =>
    rw [SeedStep.isArranged, Bool.and_eq_true] at hrest
    obtain ⟨hfirst, hlater⟩ := List.forall_mem_cons.mp hmem
    obtain ⟨next, hstep, hstore, hcreated⟩ := h.step_again hrest.1 hfirst hdone
    obtain ⟨last, hsteps, hstore', hcreated'⟩ :=
      ih hrest.2 hlater (h.step hrest.1 hstep) (hstore ▸ hdone)
    exact ⟨last, (bind_of_ok hstep).trans hsteps, hstore'.trans hstore, hcreated'.trans hcreated⟩

/-! ## The whole catalogue -/

/-- The nodes that are noted are those that have the handles, one for each. -/
theorem Reached.ids_unique {state' : SeedState} (h : Reached earlier state)
    (h' : Reached earlier state') (hstore : state'.store = state.store) :
    state'.context.ids = state.context.ids := by
  have hhandles := h'.handles.trans h.handles.symm
  have hnoted := h.noted
  have hnoted' := h'.noted
  rw [hstore] at hnoted'
  revert hhandles hnoted hnoted'
  generalize state.context.ids = ids, state'.context.ids = ids'
  intro hhandles hnoted hnoted'
  induction ids generalizing ids' with
  | nil => exact List.map_eq_nil_iff.mp hhandles
  | cons entry ids ih =>
    cases ids' with
    | nil => cases hhandles
    | cons entry' ids' =>
      obtain ⟨hhandle, hrest⟩ : entry'.1 = entry.1 ∧ _ := List.cons.inj hhandles
      obtain ⟨hfirst, hlater⟩ := List.forall_mem_cons.mp hnoted
      obtain ⟨hfirst', hlater'⟩ := List.forall_mem_cons.mp hnoted'
      rw [hhandle] at hfirst'
      have hid := StoredId.known.inj (h.sound.holds_unique hfirst' hfirst)
      rw [ih ids' hrest hlater hlater', Prod.ext hhandle hid]

/-- What a seeding that succeeds answers. -/
theorem all_ok {state state' : SeedState} {summary : SeedSummary}
    (h : all now fresh state = .ok summary state') :
    steps now fresh SeedStep.plan state = .ok () state' ∧
      ∃ count, countRows state'.store (state'.context.ids.map (·.2)) = .ok count ∧
        summary = ⟨state'.context.ids.length, count, state'.context.created,
          state'.context.created == 0⟩ := by
  obtain ⟨_, last, hsteps, h⟩ := ok_of_bind h
  obtain ⟨got, last', hget, h⟩ := ok_of_bind h
  obtain ⟨rfl, rfl⟩ := EStateM.Result.ok.inj hget
  obtain ⟨count, counted, hcount, h⟩ := ok_of_bind h
  obtain ⟨s', hask, rfl⟩ := edit_ok hcount
  obtain rfl := (Edit.Reads.ask _).eq_of_ok hask
  obtain ⟨rfl, rfl⟩ := EStateM.Result.ok.inj h
  exact ⟨hsteps, count, Edit.ask_ok hask, rfl⟩

theorem all_of {state state' : SeedState} {count : Nat}
    (hsteps : steps now fresh SeedStep.plan state = .ok () state')
    (hcount : countRows state'.store (state'.context.ids.map (·.2)) = .ok count) :
    all now fresh state = .ok ⟨state'.context.ids.length, count, state'.context.created,
      state'.context.created == 0⟩ state' := by
  have hget : (get : Seeding SeedState) state' = .ok state' state' := rfl
  have hask := Edit.ask_of_ok (fun s => countRows s (state'.context.ids.map (·.2))) hcount
  unfold all
  rw [bind_of_ok hsteps, bind_of_ok hget, bind_of_ok (edit_of hask)]
  rfl

end Seeding

/-- Seeding a store that any run has left fails and leaves it as it was, or it succeeds, and then
seeding what it leaves once more succeeds too, changes nothing and answers the same numbers of nodes
and rows, none of them new. -/
theorem Edit.bootstrap_again (steps : List Step) (now now' : Int) (fresh fresh' : Nat → NodeId) :
    (∃ err, Edit.bootstrap now fresh (Store.empty.run steps) =
      .error err (Store.empty.run steps)) ∨
    ∃ summary s', Edit.bootstrap now fresh (Store.empty.run steps) = .ok summary s' ∧
      Edit.bootstrap now' fresh' s' =
        .ok { summary with nodesCreated := 0, alreadyBootstrapped := true } s' := by
  have hs := Store.empty_sound.run steps
  generalize Store.empty.run steps = s at hs
  unfold Edit.bootstrap
  cases hrun : Seeding.all now fresh ⟨s, .empty⟩ with
  | error err state =>
    exact Or.inl ⟨err, Edit.atomically_of_error (by rw [Store.seed, hrun])⟩
  | ok summary state =>
    obtain ⟨hsteps, count, hcount, rfl⟩ := Seeding.all_ok hrun
    have hreached := (Seeding.reached_empty hs).steps SeedStep.plan_isArranged hsteps
    have hempty : Seeding.Reached [] ⟨state.store, .empty⟩ :=
      Seeding.reached_empty hreached.sound
    obtain ⟨again, hagain, hstore, hcreated⟩ :=
      hempty.steps_again SeedStep.plan_isArranged (fun _ h => h) hreached.done
    have hids := hreached.ids_unique (hempty.steps SeedStep.plan_isArranged hagain) hstore
    have hcount' : Seeding.countRows again.store (again.context.ids.map (·.2)) = .ok count := by
      rw [hstore, hids, hcount]
    have hall := Seeding.all_of hagain hcount'
    refine Or.inr ⟨_, state.store, Edit.atomically_of_ok (by rw [Store.seed, hrun]), ?_⟩
    refine Edit.atomically_of_ok ?_
    rw [Store.seed, hall]
    simp only [hids, hcreated, hstore]
    rfl

end TagGraph
