import TagGraph.Proofs.Inheritance.Guard
import TagGraph.Proofs.Inheritance.Seeded
import TagGraph.Proofs.Query.Saved

/-!
# What seeding leaves behind

A step of the seeding that succeeds does what it is for (`Store.HasDone`), and undoes nothing that
the steps before it have done, as the catalogue is arranged (`SeedStep.isArranged`): no two steps
write one field of one node. A seeding that succeeds has therefore done all of its steps
(`Seeding.Reached.steps`), whatever the store held before.
-/

namespace TagGraph

/-! ## The order of the steps -/

namespace SeedStep

/-- The handle of the node that a step provides. -/
def created? : SeedStep → Option String
  | .create systemId _ => some systemId
  | _ => none

/-- The field that a step declares, with its type. -/
def declared? : SeedStep → Option (String × FieldType)
  | .declare field type => some (field, type)
  | _ => none

/-- The handles of the nodes that a step needs. -/
def required : SeedStep → List String
  | .create .. => []
  | .declare field _ => [field]
  | .assign node supertag => [node, supertag]
  | .inherit supertag parent => [supertag, parent]
  | .save query _ => [query]

/-- The node and the field whose value a step writes. Supertags are added to others, so assigning
one is no such write. -/
def target? : SeedStep → Option (String × String)
  | .create .. | .assign .. => none
  | .declare field _ => some (field, Handle.fieldFieldType)
  | .inherit supertag _ => some (supertag, Handle.fieldExtends)
  | .save query _ => some (query, Handle.fieldQueryDefinition)

/-- Whether the value that a step writes can be read back: `field:extends` must be declared before
parents are written to it, and a definition must leave room for its tag. -/
def isReadable (earlier : List SeedStep) : SeedStep → Bool
  | .inherit .. => (earlier.filterMap (·.declared?)).contains (Handle.fieldExtends, .node)
  | .save _ definition => definition.toJson.depth ≤ 126
  | _ => true

/-- Whether a step may come after others: what it needs is there, and it writes what none of them
has written. -/
def follows (earlier : List SeedStep) (step : SeedStep) : Bool :=
  step.required.all (earlier.filterMap (·.created?)).contains &&
  step.target?.all (fun target => !(earlier.filterMap (·.target?)).contains target) &&
  step.isRooted && step.isReadable earlier

/-- Whether each step may come after those before it. -/
def isArranged : (earlier rest : List SeedStep) → Bool
  | _, [] => true
  | earlier, step :: rest => step.follows earlier && isArranged (earlier ++ [step]) rest

theorem plan_isArranged : isArranged [] plan = true := by
  decide +kernel

theorem follows_iff {earlier : List SeedStep} {step : SeedStep} :
    step.follows earlier = true ↔
      (∀ handle ∈ step.required, handle ∈ earlier.filterMap (·.created?)) ∧
      (∀ target, step.target? = some target → target ∉ earlier.filterMap (·.target?)) ∧
      step.isRooted = true ∧ step.isReadable earlier = true := by
  simp only [follows, Bool.and_eq_true, List.all_eq_true, Option.all_eq_true,
    Bool.not_eq_true', List.contains_eq_mem, decide_eq_false_iff_not, decide_eq_true_eq, and_assoc]

end SeedStep

/-! ## What a step has done -/

namespace Store

/-- There are live nodes with the handles of a node and of a field, and the texts of the field of
the node are as wanted. -/
def FieldHas (s : Store) (node field : String) (P : List String → Prop) : Prop :=
  ∃ n f, s.Holds (.known n) (some node) ∧ s.Holds (.known f) (some field) ∧ P (s.texts n f)

/-- What a step is for is the case in the store. -/
def HasDone (s : Store) : SeedStep → Prop
  | .create systemId _ =>
    NewNode.systemIdFault? systemId = none ∧ ∃ id, s.Holds (.known id) (some systemId)
  | .declare field type =>
    ∃ raw, (PropertyValue.string type.name).encode? = some raw ∧
      s.FieldHas field Handle.fieldFieldType (· = [raw])
  | .assign node supertag =>
    ∃ tag, s.Holds (.known tag) (some supertag) ∧
      s.FieldHas node Handle.fieldSupertag fun raws => ∃ raw ∈ raws, Edit.RefersTo raw tag
  | .inherit supertag parent =>
    ∃ child above raw, s.Holds (.known child) (some supertag) ∧
      s.Holds (.known above) (some parent) ∧ (PropertyValue.node above).encode? = some raw ∧
      s.FieldHas supertag Handle.fieldExtends (· = [raw]) ∧
      s.wouldCreateCycle child above = .ok false
  | .save query _ =>
    s.FieldHas query Handle.fieldQueryDefinition fun raws =>
      raws.filterMap PropertyValue.decode? ≠ []

variable {s s' : Store} {target : Option (String × String)}

/-- What a step leaves of what other steps have done, if it writes one field of one node at most:
the live nodes with handles, the texts of other fields, the assigned supertags, and what the guard
says of the node of `supertag:item` as a parent. -/
structure Advances (target : Option (String × String)) (s s' : Store) : Prop where
  sound : s'.Sound
  holds : ∀ id handle, s.Holds id (some handle) → s'.Holds id (some handle)
  texts : ∀ n f node field, s.Holds (.known n) (some node) → s.Holds (.known f) (some field) →
    field ≠ Handle.fieldSupertag → target ≠ some (node, field) → s'.texts n f = s.texts n f
  assigned : ∀ n f, s.Holds (.known f) (some Handle.fieldSupertag) → s.texts n f ⊆ s'.texts n f
  guard : ∀ child item handle, s.Holds (.known child) (some handle) →
    s.Holds (.known item) (some Handle.supertagItem) →
    (∃ f, s.Holds (.known f) (some Handle.fieldExtends)) →
    s.wouldCreateCycle child item = .ok false → s'.wouldCreateCycle child item = .ok false

theorem Advances.refl (hs : s.Sound) (target : Option (String × String)) : Advances target s s :=
  ⟨hs, fun _ _ h => h, fun _ _ _ _ _ _ _ _ => rfl, fun _ _ _ => List.Subset.refl _,
    fun _ _ _ _ _ _ h => h⟩

theorem FieldHas.advance {node field : String} {P : List String → Prop}
    (h : s.FieldHas node field P) (hadvance : Advances target s s')
    (hfield : field ≠ Handle.fieldSupertag) (hne : target ≠ some (node, field)) :
    s'.FieldHas node field P := by
  obtain ⟨n, f, hn, hf, hP⟩ := h
  refine ⟨n, f, hadvance.holds _ _ hn, hadvance.holds _ _ hf, ?_⟩
  rwa [hadvance.texts n f node field hn hf hfield hne]

/-- What a step has done stays done over one that writes elsewhere. -/
theorem HasDone.advance {step : SeedStep} (h : s.HasDone step) (hstep : step.isRooted = true)
    (hadvance : Advances target s s') (hne : ∀ t, step.target? = some t → target ≠ some t) :
    s'.HasDone step := by
  cases step with
  | create systemId content =>
    obtain ⟨hfault, id, hid⟩ := h
    exact ⟨hfault, id, hadvance.holds _ _ hid⟩
  | declare field type =>
    obtain ⟨raw, hraw, hfield⟩ := h
    exact ⟨raw, hraw, hfield.advance hadvance (by decide) (hne _ rfl)⟩
  | assign node supertag =>
    obtain ⟨tag, htag, n, f, hn, hf, raw, hraw, hrefers⟩ := h
    exact ⟨tag, hadvance.holds _ _ htag, n, f, hadvance.holds _ _ hn, hadvance.holds _ _ hf, raw,
      hadvance.assigned n f hf hraw, hrefers⟩
  | inherit supertag parent =>
    obtain rfl : parent = Handle.supertagItem := beq_iff_eq.mp hstep
    obtain ⟨child, above, raw, hchild, habove, hraw, hfield, hguard⟩ := h
    refine ⟨child, above, raw, hadvance.holds _ _ hchild, hadvance.holds _ _ habove, hraw,
      hfield.advance hadvance (by decide) (hne _ rfl), ?_⟩
    obtain ⟨-, f, -, hf, -⟩ := hfield
    exact hadvance.guard child above supertag hchild habove ⟨f, hf⟩ hguard
  | save query definition =>
    have hfield : s.FieldHas query Handle.fieldQueryDefinition fun raws =>
        raws.filterMap PropertyValue.decode? ≠ [] := h
    exact hfield.advance hadvance (by decide) (hne _ rfl)

/-- The type that a step has declared for a field. -/
theorem Sound.fieldType?_of_hasDone (hs : s.Sound) {steps : List SeedStep}
    (hdone : ∀ step ∈ steps, s.HasDone step) {field : String} {type : FieldType} {id : NodeId}
    (hdeclared : (field, type) ∈ steps.filterMap (·.declared?))
    (hid : s.Holds (.known id) (some field)) : s.fieldType? id = .ok (some type) := by
  obtain ⟨step, hstep, hdeclares⟩ := List.mem_filterMap.mp hdeclared
  cases step with
  | declare f t =>
    cases hdeclares
    obtain ⟨raw, hraw, n, typeField, hn, htypeField, htexts⟩ := hdone _ hstep
    obtain rfl := StoredId.known.inj (hs.holds_unique hid hn)
    rw [hs.fieldType?_eq htypeField, htexts, typeIn?_of_encode? hraw]
  | _ => cases hdeclares

/-! ## What edits leave -/

/-- A further node leaves what steps have done. -/
theorem Sound.advances_addNode (hs : s.Sound) {now : Int} {n : NewNode} (hvalid : n.fault? = none)
    (hfree : Edit.conflict? s (Edit.newRecord now n) = none) :
    Advances target s { s with nodes := s.nodes ++ [Edit.newRecord now n] } where
  sound := hs.addNode (Edit.newRecord_sound now hvalid) hfree
  holds _ _ h := (holds_addNode rfl).mpr (Or.inl h)
  texts _ _ _ _ _ _ _ _ := rfl
  assigned _ _ _ := List.Subset.refl _
  guard child item handle hchild _ hfield hguard := by
    obtain ⟨f, hf⟩ := hfield
    exact wouldCreateCycle_of_alike hguard fun _ _ node _ =>
      hs.stepsAlike_addNode hvalid hfree hf (hs.isLive_iff.mpr ⟨_, hchild⟩) node

end Store

namespace Edit

open Store

variable {s s' : Store}

/-- An edit of one field leaves what other steps have done, if it takes no supertag away and, where
it writes a parent, the guard does not find the node above that of `supertag:item`. -/
theorem EditsField.advances {α : Type} {e : Edit α} {n : NodeId} {node field : String}
    {values : List PropertyValue} {target : Option (String × String)}
    (he : EditsField e s n field values) (hs : s.Sound)
    (hsound : Respects (Natively Changes) e) (hname : IsName field)
    (hnode : s.Holds (.known n) (some node))
    (htarget : field ≠ Handle.fieldSupertag → target = some (node, field))
    (hassigned : field = Handle.fieldSupertag → ∀ f,
      s.Holds (.known f) (some Handle.fieldSupertag) → s.texts n f ⊆ (e.after s).texts n f)
    (hguard : field = Handle.fieldExtends → ∀ item,
      s.Holds (.known item) (some Handle.supertagItem) → s.wouldCreateCycle n item = .ok false) :
    Advances target s (e.after s) where
  sound := hs.after hsound
  holds id handle h := (he.holds_iff hs).mpr h
  texts := by
    intro m f other handle hm hf hne hother
    refine he.texts_eq hs hname hf ?_
    rintro ⟨rfl, rfl⟩
    obtain rfl := Option.some.inj (hs.handle_unique hm hnode)
    exact hother (htarget hne)
  assigned := by
    intro m f hf
    by_cases hat : m = n ∧ Handle.fieldSupertag = field
    · obtain ⟨rfl, hfield⟩ := hat
      exact hassigned hfield.symm f hf
    · rw [he.texts_eq hs hname hf hat]
      exact List.Subset.refl _
  guard := by
    rintro child item handle - hitem ⟨f, hf⟩ hold
    refine wouldCreateCycle_of_alike hold fun above habove m hm => Or.inl ?_
    refine hs.parent?_congr (hs.after hsound) hf ((he.holds_iff hs).mpr hf)
      (he.texts_eq hs hname hf ?_)
      fun id => hs.isLive_congr (hs.after hsound) fun _ _ => he.holds_iff hs
    -- The node to which a parent is written is not in the chain that the guard has followed.
    rintro ⟨rfl, hfield⟩
    obtain ⟨hne, above', habove', hnot⟩ :=
      wouldCreateCycle_eq_false_iff.mp (hguard hfield.symm item hitem)
    obtain rfl := Except.ok.inj (habove.symm.trans habove')
    rcases hm with rfl | hmem
    · exact hne rfl
    · exact hnot hmem

/-- A write of a value leaves what other steps have done. -/
theorem setProperty_advances (hs : s.Sound) {now : Int} {n : NodeId} {node field : String}
    {value : PropertyValue} (hname : IsName field) (hne : field ≠ Handle.fieldSupertag)
    (hnode : s.Holds (.known n) (some node))
    (hvalue : field = Handle.fieldExtends → ∀ item,
      s.Holds (.known item) (some Handle.supertagItem) → value = .node item)
    (h : setProperty now n field value none s = .ok () s') :
    Advances (some (node, field)) s s' := by
  obtain ⟨fieldNode, type, hsets⟩ := setProperty_ok hs h
  rw [← after_of_ok h]
  refine (setProperty_editsField now n field value none s).advances hs
    (setProperty_respects .changes now n field value none) hname hnode (fun _ => rfl)
    (fun hfield => absurd hfield hne) fun hfield item hitem => ?_
  have hhandle := systemId_of_findLive? hname.trimmed hname.notId hsets.admits.found
  refine hsets.admits.guarded (hhandle.trans (congrArg some hfield)) item ?_
  rw [hvalue hfield item hitem]
  exact List.mem_singleton_self item

theorem attachSupertag_advances (target : Option (String × String)) (hs : s.Sound) {now : Int}
    {n tag : NodeId} {node : String} {added : Bool} (hnode : s.Holds (.known n) (some node))
    (h : attachSupertag now n tag s = .ok added s') : Advances target s s' := by
  obtain ⟨field, -, hfound, -, hsubset⟩ := attachSupertag_ok hs h
  rw [← after_of_ok h] at hsubset ⊢
  refine (attachSupertag_editsField now n tag s).advances hs
    (attachSupertag_respects .changes now n tag) isName_fieldSupertag hnode
    (fun hne => absurd rfl hne) (fun _ f hf => ?_) fun hfield => absurd hfield (by decide)
  have hfield := hs.holds_of_found isName_fieldSupertag hfound
  obtain rfl := StoredId.known.inj (hs.holds_unique hf hfield)
  exact hsubset

/-- A node that has been provided for a handle is live and has it, and it is there already or is the
one node that has been added. -/
theorem insertSystemNode_ok (target : Option (String × String)) (hs : s.Sound) {now : Int}
    {id : NodeId} {systemId content : String} {found : NodeId × Bool}
    (h : insertSystemNode now id systemId content s = .ok found s') :
    NewNode.systemIdFault? systemId = none ∧ Advances target s s' ∧
      s'.Holds (.known found.1) (some systemId) := by
  have hfault : (NewNode.system id systemId content).fault? =
      NewNode.systemIdFault? systemId := by
    unfold NewNode.fault? NewNode.system
    cases h : NewNode.systemIdFault? systemId <;> simp [h]
  unfold insertSystemNode at h
  cases hvalid : NewNode.systemIdFault? systemId with
  | some fault =>
    rw [← hfault] at hvalid
    simp only [hvalid] at h
    cases h
  | none =>
    rw [← hfault] at hvalid
    simp only [hvalid] at h
    obtain ⟨created, t, hadd, h⟩ := ok_of_bind h
    obtain ⟨node, hnode, h⟩ := (Reads.ask _).ok_of_bind h
    have hadvances : Advances target s t := by
      rw [← after_of_ok hadd]
      rcases after_addNode hs.native true (newRecord now (.system id systemId content)) with
        hsame | ⟨hfree, hnew⟩
      · rw [hsame]
        exact Advances.refl hs target
      · rw [hnew]
        exact hs.advances_addNode hvalid hfree
    cases node with
    | none => cases h
    | some node =>
      obtain ⟨rfl, rfl⟩ := EStateM.Result.ok.inj h
      exact ⟨rfl, hadvances, hadvances.sound.holds_of_nodeBySystemId? (ask_ok hnode)⟩

end Edit

/-! ## States of a seeding -/

namespace Seeding

variable {α β : Type}

/-- What a sequence gives, its second part gives in the state that the first one leaves. -/
theorem ok_of_bind {m : Seeding α} {f : α → Seeding β} {state final : SeedState} {b : β}
    (h : (m >>= f) state = .ok b final) :
    ∃ a state', m state = .ok a state' ∧ f a state' = .ok b final := by
  cases hfirst : m state with
  | ok a state' =>
    rw [bind_of_ok hfirst] at h
    exact ⟨a, state', rfl, h⟩
  | error err state' =>
    have hrun : (m >>= f) state = .error err state' := by
      show EStateM.bind m f state = _
      rw [EStateM.bind, hfirst]
    cases hrun.symm.trans h

theorem require_of {systemId : String} {state : SeedState} {id : NodeId}
    (h : state.context.id? systemId = some id) : require systemId state = .ok id state := by
  rw [require_eq, h]

/-- What goes on with a required node has got the one that is noted. -/
theorem ok_of_require {systemId : String} {f : NodeId → Seeding β} {state final : SeedState}
    {b : β} (h : (require systemId >>= f) state = .ok b final) :
    ∃ id, state.context.id? systemId = some id ∧ f id state = .ok b final := by
  obtain ⟨id, state', hrequire, h⟩ := ok_of_bind h
  rw [require_eq] at hrequire
  cases hid : state.context.id? systemId with
  | none =>
    rw [hid] at hrequire
    cases hrequire
  | some found =>
    rw [hid] at hrequire
    obtain ⟨rfl, rfl⟩ := EStateM.Result.ok.inj hrequire
    exact ⟨found, rfl, h⟩

theorem edit_of {e : Edit α} {state : SeedState} {s' : Store} {a : α}
    (h : e state.store = .ok a s') : edit e state = .ok a { state with store := s' } := by
  rw [edit, h]

theorem edit_ok {e : Edit α} {state state' : SeedState} {a : α} (h : edit e state = .ok a state') :
    ∃ s', e state.store = .ok a s' ∧ state' = { state with store := s' } := by
  rw [edit] at h
  cases hrun : e state.store with
  | ok b s' =>
    rw [hrun] at h
    obtain ⟨rfl, rfl⟩ := EStateM.Result.ok.inj h
    exact ⟨s', rfl, rfl⟩
  | error err s' =>
    rw [hrun] at h
    cases h

/-- A seeding that has come through some steps: the store is sound, what the steps are for is the
case, and the nodes that they have provided are noted under their handles. -/
structure Reached (earlier : List SeedStep) (state : SeedState) : Prop where
  rooted : ∀ step ∈ earlier, step.isRooted = true
  sound : state.store.Sound
  done : ∀ step ∈ earlier, state.store.HasDone step
  noted : ∀ entry ∈ state.context.ids, state.store.Holds (.known entry.2) (some entry.1)
  handles : state.context.ids.map (·.1) = earlier.filterMap (·.created?)

theorem reached_empty {s : Store} (hs : s.Sound) : Reached [] ⟨s, .empty⟩ where
  rooted _ h := nomatch h
  sound := hs
  done _ h := nomatch h
  noted _ h := nomatch h
  handles := rfl

namespace Reached

variable {earlier : List SeedStep} {state state' : SeedState} {step : SeedStep}

/-- A node that has been noted is live and has the handle. -/
theorem holds_of_id? (h : Reached earlier state) {systemId : String} {id : NodeId}
    (hid : state.context.id? systemId = some id) :
    state.store.Holds (.known id) (some systemId) := by
  obtain ⟨before, after, hids, -⟩ := List.lookup_eq_some_iff.mp hid
  exact h.noted (systemId, id) (by rw [hids]; simp)

/-- The nodes of all handles that the steps have provided are noted. -/
theorem exists_id? (h : Reached earlier state) {systemId : String}
    (hmem : systemId ∈ earlier.filterMap (·.created?)) :
    ∃ id, state.context.id? systemId = some id := by
  rw [← h.handles] at hmem
  obtain ⟨⟨handle, id⟩, hentry, rfl⟩ := List.mem_map.mp hmem
  cases hlookup : state.context.ids.lookup handle with
  | none => exact absurd rfl (bne_iff_ne.mp (List.lookup_eq_none_iff.mp hlookup _ hentry))
  | some found => exact ⟨found, hlookup⟩

/-- A step that has been carried out and leaves what others have done takes its place behind
them. -/
theorem extend (h : Reached earlier state) (hrooted : step.isRooted = true)
    (hapart : ∀ t, step.target? = some t → t ∉ earlier.filterMap (·.target?))
    (hadvances : Store.Advances step.target? state.store state'.store)
    (hdone : state'.store.HasDone step) {new : List (String × NodeId)}
    (hids : state'.context.ids = state.context.ids ++ new)
    (hhandles : new.map (·.1) = step.created?.toList)
    (hnew : ∀ entry ∈ new, state'.store.Holds (.known entry.2) (some entry.1)) :
    Reached (earlier ++ [step]) state' where
  rooted := by
    intro other hother
    rcases List.mem_append.mp hother with hold | hlast
    · exact h.rooted other hold
    · obtain rfl := List.mem_singleton.mp hlast
      exact hrooted
  sound := hadvances.sound
  done := by
    intro other hother
    rcases List.mem_append.mp hother with hold | hlast
    · refine (h.done other hold).advance (h.rooted other hold) hadvances fun t ht htarget => ?_
      exact hapart t htarget (List.mem_filterMap.mpr ⟨other, hold, ht⟩)
    · obtain rfl := List.mem_singleton.mp hlast
      exact hdone
  noted := by
    intro entry hentry
    rw [hids] at hentry
    rcases List.mem_append.mp hentry with hold | hlast
    · exact hadvances.holds _ _ (h.noted entry hold)
    · exact hnew entry hlast
  handles := by
    rw [hids, List.map_append, h.handles, hhandles, List.filterMap_append, List.filterMap_cons]
    cases step.created? <;> rfl

end Reached

/-! ## Steps that succeed -/

/-- What a step that has succeeded has changed. -/
structure Succeeded (step : SeedStep) (state state' : SeedState) : Prop where
  advances : Store.Advances step.target? state.store state'.store
  done : state'.store.HasDone step
  noted : ∃ new, state'.context.ids = state.context.ids ++ new ∧
    new.map (·.1) = step.created?.toList ∧
    ∀ entry ∈ new, state'.store.Holds (.known entry.2) (some entry.1)

/-- A step that edits the store and provides no node has nothing to note. -/
theorem Succeeded.of_edit {step : SeedStep} {state : SeedState} {s' : Store}
    (hcreated : step.created? = none)
    (hadvances : Store.Advances step.target? state.store s') (hdone : s'.HasDone step) :
    Succeeded step state { state with store := s' } where
  advances := hadvances
  done := hdone
  noted := ⟨[], (List.append_nil _).symm, by rw [hcreated]; rfl, fun _ hentry => nomatch hentry⟩

section

variable {earlier : List SeedStep} {state state' : SeedState} {now : Int} {fresh : Nat → NodeId}

theorem create_succeeded (h : Reached earlier state) {systemId content : String}
    (hok : step now fresh (.create systemId content) state = .ok () state') :
    Succeeded (.create systemId content) state state' := by
  obtain ⟨id, drawn, hdraw, hok⟩ := ok_of_bind hok
  obtain ⟨-, rfl⟩ := EStateM.Result.ok.inj hdraw
  obtain ⟨found, filled, hedit, hok⟩ := ok_of_bind hok
  obtain ⟨s', hinsert, rfl⟩ := edit_ok hedit
  obtain ⟨-, rfl⟩ := EStateM.Result.ok.inj hok
  obtain ⟨hfault, hadvances, hfound⟩ := Edit.insertSystemNode_ok none h.sound hinsert
  refine ⟨hadvances, ⟨hfault, found.1, hfound⟩, [(systemId, found.1)], rfl, rfl, ?_⟩
  intro entry hentry
  obtain rfl := List.mem_singleton.mp hentry
  exact hfound

theorem declare_succeeded (h : Reached earlier state) {field : String} {type : FieldType}
    (hok : step now fresh (.declare field type) state = .ok () state') :
    Succeeded (.declare field type) state state' := by
  obtain ⟨id, hid, hok⟩ := ok_of_require hok
  obtain ⟨s', hset, rfl⟩ := edit_ok hok
  have hnode := h.holds_of_id? hid
  have hadvances := Edit.setProperty_advances h.sound Store.isName_fieldFieldType (by decide) hnode
    (fun hfield => absurd hfield (by decide)) hset
  obtain ⟨typeField, declared, hsets⟩ := Edit.setProperty_ok h.sound hset
  obtain ⟨raw, hraw, htexts⟩ := hsets.written (Edit.takesOne_of_conforms rfl hsets.conforms)
  have hfield := h.sound.holds_of_found Store.isName_fieldFieldType hsets.admits.found
  exact .of_edit rfl hadvances ⟨raw, hraw, id, typeField.id, hadvances.holds _ _ hnode,
    hadvances.holds _ _ hfield, htexts⟩

theorem assign_succeeded (h : Reached earlier state) {node supertag : String}
    (hok : step now fresh (.assign node supertag) state = .ok () state') :
    Succeeded (.assign node supertag) state state' := by
  obtain ⟨id, hid, hok⟩ := ok_of_require hok
  obtain ⟨tag, htag, hok⟩ := ok_of_require hok
  obtain ⟨added, attached, hedit, hok⟩ := ok_of_bind hok
  obtain ⟨-, rfl⟩ := EStateM.Result.ok.inj hok
  obtain ⟨s', hattach, rfl⟩ := edit_ok hedit
  have hadvances := Edit.attachSupertag_advances none h.sound (h.holds_of_id? hid) hattach
  obtain ⟨field, -, hfound, hrefers, -⟩ := Edit.attachSupertag_ok h.sound hattach
  have hfield := h.sound.holds_of_found Store.isName_fieldSupertag hfound
  exact .of_edit rfl hadvances ⟨tag, hadvances.holds _ _ (h.holds_of_id? htag), id, field.id,
    hadvances.holds _ _ (h.holds_of_id? hid), hadvances.holds _ _ hfield, hrefers⟩

theorem inherit_succeeded (h : Reached earlier state) {supertag parent : String}
    (hrooted : (SeedStep.inherit supertag parent).isRooted = true)
    (hreadable : (SeedStep.inherit supertag parent).isReadable earlier = true)
    (hok : step now fresh (.inherit supertag parent) state = .ok () state') :
    Succeeded (.inherit supertag parent) state state' := by
  obtain rfl : parent = Handle.supertagItem := beq_iff_eq.mp hrooted
  obtain ⟨id, hid, hok⟩ := ok_of_require hok
  obtain ⟨item, hitem, hok⟩ := ok_of_require hok
  obtain ⟨s', hset, rfl⟩ := edit_ok hok
  have hnode := h.holds_of_id? hid
  have hparent := h.holds_of_id? hitem
  have hadvances := Edit.setProperty_advances h.sound Store.isName_fieldExtends (by decide) hnode
    (fun _ other hother => congrArg PropertyValue.node
      (StoredId.known.inj (h.sound.holds_unique hparent hother))) hset
  obtain ⟨extendsField, type, hsets⟩ := Edit.setProperty_ok h.sound hset
  have hfield := h.sound.holds_of_found Store.isName_fieldExtends hsets.admits.found
  -- Parents are written one at a time, since an earlier step has declared the field.
  obtain rfl : type = some .node := by
    have hdeclared := h.sound.fieldType?_of_hasDone h.done (List.contains_iff_mem.mp hreadable)
      hfield
    exact Except.ok.inj (hsets.declared.symm.trans hdeclared)
  obtain ⟨raw, hraw, htexts⟩ := hsets.written rfl
  have hguard : state.store.wouldCreateCycle id item = .ok false :=
    hsets.admits.guarded (Store.systemId_of_findLive? (by decide +kernel) (by decide +kernel)
      hsets.admits.found) item (List.mem_singleton_self item)
  refine .of_edit rfl hadvances ⟨id, item, raw, hadvances.holds _ _ hnode,
    hadvances.holds _ _ hparent, hraw,
    ⟨id, extendsField.id, hadvances.holds _ _ hnode, hadvances.holds _ _ hfield, htexts⟩, ?_⟩
  exact hadvances.guard id item _ hnode hparent ⟨extendsField.id, hfield⟩ hguard

theorem save_succeeded (h : Reached earlier state) {query : String} {definition : QueryDefinition}
    (hreadable : (SeedStep.save query definition).isReadable earlier = true)
    (hok : step now fresh (.save query definition) state = .ok () state') :
    Succeeded (.save query definition) state state' := by
  obtain ⟨id, hid, hok⟩ := ok_of_require hok
  have hnode := h.holds_of_id? hid
  have hlive := h.sound.isLive_iff.mpr ⟨_, hnode⟩
  obtain ⟨found, asked, hask, hok⟩ := ok_of_bind hok
  obtain ⟨s', hlook, rfl⟩ := edit_ok hask
  obtain rfl := (Edit.Reads.ask _).eq_of_ok hlook
  cases found with
  -- A definition that is there already is left.
  | some value =>
    obtain ⟨-, rfl⟩ := EStateM.Result.ok.inj hok
    obtain ⟨field, hfound, hvalue⟩ := h.sound.exists_of_value? hlive (Edit.ask_ok hlook)
    have hfield := h.sound.holds_of_found Store.isName_fieldQueryDefinition hfound
    refine .of_edit rfl (Store.Advances.refl h.sound _)
      ⟨id, field.id, hnode, hfield, fun hnil => ?_⟩
    rw [hnil] at hvalue
    cases hvalue
  | none =>
    obtain ⟨s', hset, rfl⟩ := edit_ok hok
    have hadvances := Edit.setProperty_advances h.sound Store.isName_fieldQueryDefinition
      (by decide) hnode (fun hfield => absurd hfield (by decide)) hset
    obtain ⟨field, type, hsets⟩ := Edit.setProperty_ok h.sound hset
    obtain ⟨raw, hraw, htexts⟩ := hsets.written (Edit.takesOne_of_conforms rfl hsets.conforms)
    have hfield := h.sound.holds_of_found Store.isName_fieldQueryDefinition hsets.admits.found
    refine .of_edit rfl hadvances
      ⟨id, field.id, hadvances.holds _ _ hnode, hadvances.holds _ _ hfield, ?_⟩
    have hdepth : definition.toJson.depth ≤ 126 := of_decide_eq_true hreadable
    rw [htexts]
    show [raw].filterMap PropertyValue.decode? ≠ []
    rw [List.filterMap_cons, PropertyValue.decode?_of_encode? hraw,
      Store.payloadDepth_toDocument, if_pos hdepth]
    exact List.cons_ne_nil _ _

/-- A step of the catalogue that succeeds has done what it is for, and undone nothing. -/
theorem Reached.step (h : Reached earlier state) {step : SeedStep}
    (hfollows : step.follows earlier = true)
    (hok : Seeding.step now fresh step state = .ok () state') :
    Reached (earlier ++ [step]) state' := by
  obtain ⟨-, hapart, hrooted, hreadable⟩ := SeedStep.follows_iff.mp hfollows
  have hsucceeded : Succeeded step state state' := by
    cases step with
    | create systemId content => exact create_succeeded h hok
    | declare field type => exact declare_succeeded h hok
    | assign node supertag => exact assign_succeeded h hok
    | inherit supertag parent => exact inherit_succeeded h hrooted hreadable hok
    | save query definition => exact save_succeeded h hreadable hok
  obtain ⟨new, hids, hhandles, hnew⟩ := hsucceeded.noted
  exact h.extend hrooted hapart hsucceeded.advances hsucceeded.done hids hhandles hnew

/-- So have several. -/
theorem Reached.steps {rest : List SeedStep} (hrest : SeedStep.isArranged earlier rest = true)
    (h : Reached earlier state)
    (hok : Seeding.steps now fresh rest state = .ok () state') :
    Reached (earlier ++ rest) state' := by
  induction rest generalizing earlier state with
  | nil =>
    obtain ⟨-, rfl⟩ := EStateM.Result.ok.inj hok
    rwa [List.append_nil]
  | cons step rest ih =>
    rw [SeedStep.isArranged, Bool.and_eq_true] at hrest
    obtain ⟨_, next, hstep, hok⟩ := ok_of_bind hok
    rw [show earlier ++ step :: rest = (earlier ++ [step]) ++ rest by simp]
    exact ih hrest.2 (h.step hrest.1 hstep) hok

/-- What each step preserves behind those before it, several do. -/
theorem Reached.steps_preserve {P : SeedState → Prop} {rest : List SeedStep}
    (hP : ∀ earlier step state state', step ∈ rest → step.follows earlier = true →
      Reached earlier state → Seeding.step now fresh step state = .ok () state' →
        P state → P state')
    (hrest : SeedStep.isArranged earlier rest = true) (h : Reached earlier state)
    (hok : Seeding.steps now fresh rest state = .ok () state') (hstart : P state) : P state' := by
  induction rest generalizing earlier state with
  | nil =>
    obtain ⟨-, rfl⟩ := EStateM.Result.ok.inj hok
    exact hstart
  | cons step rest ih =>
    rw [SeedStep.isArranged, Bool.and_eq_true] at hrest
    obtain ⟨_, next, hstep, hok⟩ := ok_of_bind hok
    refine ih (fun earlier later state state' hmem => ?_) hrest.2 (h.step hrest.1 hstep) hok ?_
    · exact hP earlier later state state' (List.mem_cons_of_mem _ hmem)
    · exact hP earlier step state next List.mem_cons_self hrest.1 h hstep hstart

end

end Seeding

end TagGraph
