import TagGraph.Proofs.Store.Readable

/-!
# Times of change

The clock may go back between two operations. What edits of rows and new nodes do to the times of
change is safe from that: a node that is touched keeps the later of two times, and a new node is
changed at its creation (`Store.Ages`). A change of the content and a deletion set the time of
change to their own time, whatever it was (`Store.Overwrites`). So a time of change goes back if and
only if such an operation comes at an earlier time (`Store.updatedAt_run`).
-/

namespace TagGraph

/-- A node and what has become of it, with a time of change that has not gone back. -/
structure Node.AgesTo (n n' : Node) : Prop where
  id : n'.id = n.id
  createdAt : n'.createdAt = n.createdAt
  updatedAt : n.updatedAt ≤ n'.updatedAt

theorem Node.AgesTo.refl (n : Node) : n.AgesTo n :=
  ⟨rfl, rfl, Int.le_refl _⟩

theorem Node.AgesTo.trans {a b c : Node} (hab : a.AgesTo b) (hbc : b.AgesTo c) : a.AgesTo c :=
  ⟨hbc.id.trans hab.id, hbc.createdAt.trans hab.createdAt,
    Int.le_trans hab.updatedAt hbc.updatedAt⟩

namespace Store

variable {s s' : Store}

/-- Nodes stay, and no time of change goes back. A node that is new has not been changed before its
creation. -/
structure Ages (s s' : Store) : Prop where
  kept : ∀ n : Node, n.record ∈ s.nodes → ∃ n' : Node, n'.record ∈ s'.nodes ∧ n.AgesTo n'
  origin : ∀ n' : Node, n'.record ∈ s'.nodes →
    n'.createdAt ≤ n'.updatedAt ∨ ∃ n : Node, n.record ∈ s.nodes ∧ n.AgesTo n'

namespace Ages

theorem of_nodes (h : s'.nodes = s.nodes) : Ages s s' where
  kept n hn := ⟨n, h ▸ hn, .refl n⟩
  origin n hn := Or.inr ⟨n, h ▸ hn, .refl n⟩

theorem trans {s'' : Store} (h : Ages s s') (h' : Ages s' s'') : Ages s s'' where
  kept n hn := by
    obtain ⟨n', hn', hage⟩ := h.kept n hn
    obtain ⟨n'', hn'', hage'⟩ := h'.kept n' hn'
    exact ⟨n'', hn'', hage.trans hage'⟩
  origin n'' hn'' := by
    rcases h'.origin n'' hn'' with hnew | ⟨n', hn', hage'⟩
    · exact Or.inl hnew
    · rcases h.origin n' hn' with hnew | ⟨n, hn, hage⟩
      · refine Or.inl ?_
        rw [hage'.createdAt]
        exact Int.le_trans hnew hage'.updatedAt
      · exact Or.inr ⟨n, hn, hage.trans hage'⟩

/-- The same of sound stores. -/
def OfSound (s s' : Store) : Prop :=
  s.Sound → s'.Sound ∧ Ages s s'

theorem composes : Composes OfSound where
  refl _ hs := ⟨hs, .of_nodes rfl⟩
  trans hab hbc ha := by
    obtain ⟨hb, hages⟩ := hab ha
    obtain ⟨hc, hages'⟩ := hbc hb
    exact ⟨hc, hages.trans hages'⟩

end Ages

/-! ## Changes of nodes -/

/-- The nodes after a change of the live one among them that has an identifier. -/
theorem mem_updateNode_iff (hs : s.Sound) {change : NodeRecord → NodeRecord} {f : Node → Node}
    (hf : ∀ n : Node, change n.record = (f n).record) (id : NodeId) {m : Node} :
    m.record ∈ (s.updateNode id change).nodes ↔
      ∃ n : Node, n.record ∈ s.nodes ∧ m = if n.id = id ∧ n.isActive = true then f n else n := by
  have hone : ∀ n : Node, (if n.record.id == StoredId.known id && n.record.isLive then
      change n.record else n.record) =
        (if n.id = id ∧ n.isActive = true then f n else n).record := by
    intro n
    have hmeant : (n.record.id == StoredId.known id && n.record.isLive) = true ↔
        n.id = id ∧ n.isActive = true := by
      rw [Bool.and_eq_true, beq_iff_eq, Node.isLive_record]
      exact and_congr_left' (StoredId.known.injEq _ _ ▸ Iff.rfl)
    by_cases h : n.id = id ∧ n.isActive = true
    · rw [if_pos h, if_pos (hmeant.mpr h), hf]
    · rw [if_neg h, if_neg fun hlive => h (hmeant.mp hlive)]
  unfold updateNode
  rw [List.mem_map]
  constructor
  · rintro ⟨r, hr, hrm⟩
    obtain ⟨n, rfl⟩ := hs.record_of_mem hr
    exact ⟨n, hr, Node.record_injective (hrm.symm.trans (hone n))⟩
  · rintro ⟨n, hn, rfl⟩
    exact ⟨n.record, hn, hone n⟩

/-- Touching a node keeps the later of two times. -/
theorem Ages.touch (now : Int) (id : NodeId) (s : Store) :
    OfSound s (s.updateNode id fun r =>
      { r with updatedAt := r.updatedAt.max (.integer now) }) := by
  intro hs
  have htouch : ∀ n : Node, { n.record with updatedAt := n.record.updatedAt.max (.integer now) } =
      Node.record { n with updatedAt := max n.updatedAt now } := by
    intro n
    rw [show n.record.updatedAt = .integer n.updatedAt from rfl, Cell.max_integer]
    rfl
  have hages : ∀ n : Node, n.AgesTo
      (if n.id = id ∧ n.isActive = true then { n with updatedAt := max n.updatedAt now }
        else n) := by
    intro n
    split
    · exact ⟨rfl, rfl, Int.le_max_left _ _⟩
    · exact .refl n
  refine ⟨hs.updateNode (NodeRecord.touch_amends now) id, fun n hn => ?_, fun m hm => ?_⟩
  · exact ⟨_, (mem_updateNode_iff hs htouch id).mpr ⟨n, hn, rfl⟩, hages n⟩
  · obtain ⟨n, hn, rfl⟩ := (mem_updateNode_iff hs htouch id).mp hm
    exact Or.inr ⟨n, hn, hages n⟩

/-- A new node is changed at its creation. -/
theorem Ages.addNode (now : Int) (n : NewNode) (hvalid : n.fault? = none)
    (hfree : Edit.conflict? s (Edit.newRecord now n) = none) :
    OfSound s { s with nodes := s.nodes ++ [Edit.newRecord now n] } := by
  refine fun hs => ⟨hs.addNode (Edit.newRecord_sound now hvalid) hfree,
    fun m hm => ⟨m, List.mem_append_left _ hm, .refl m⟩, fun m hm => ?_⟩
  rcases List.mem_append.mp hm with hold | hnew
  · exact Or.inr ⟨m, hold, .refl m⟩
  · have hrecord := List.mem_singleton.mp hnew
    have hcreated : m.createdAt = now := Cell.integer.inj (congrArg NodeRecord.createdAt hrecord)
    have hupdated : m.updatedAt = now := Cell.integer.inj (congrArg NodeRecord.updatedAt hrecord)
    exact Or.inl (Int.le_of_eq (hcreated.trans hupdated.symm))

/-- The edits of rows and those that insert nodes let no time of change go back. -/
theorem Ages.creationLaw : CreationLaw (Natively Ages.OfSound) where
  toComposes := composes.natively
  touchNode now {id} _ := Edit.touchNode_respects now id (touch now id)
  insertProperty now node field _ raw _ order := by
    refine Edit.insertProperty_respects composes now node field raw
      (fun s number place hn hf hnext hs => ?_) order
    exact ⟨hs.addRow now raw place hn hf hnext, .of_nodes rfl⟩
  deleteFieldProperties {node field} _ :=
    Edit.deleteFieldProperties_respects node field fun _ hs =>
      ⟨hs.removeRows node field, .of_nodes rfl⟩
  insertNode now n := Edit.insertNode_respects composes now n fun _ => addNode now n
  insertSystemNode now _ _ _ :=
    Edit.insertSystemNode_respects composes now _ _ _ fun _ => addNode now _

/-! ## Operations that set a time -/

/-- The step sets the time of change of a live node to its own time. -/
def Overwrites (s : Store) (step : Step) (n : Node) : Prop :=
  step.operation.overwritten? = some n.id ∧ s.node? n.id = .ok (some n)

/-- What an operation that sets a time makes of the node that it is about. -/
structure Overwritten (now : Int) (n n' : Node) : Prop where
  id : n'.id = n.id
  createdAt : n'.createdAt = n.createdAt
  updatedAt : n'.updatedAt = now

theorem mem_step_overwriting (hs : s.Sound) {step : Step} {id : NodeId}
    (h : step.operation.overwritten? = some id) :
    ∃ f : Node → Node, (∀ n, Overwritten step.now n (f n)) ∧ ∀ m : Node,
      m.record ∈ (s.step step).nodes ↔ ∃ n : Node, n.record ∈ s.nodes ∧
        m = if n.id = id ∧ n.isActive = true then f n else n := by
  obtain ⟨now, op⟩ := step
  have hcontent : ∀ content, ∃ f : Node → Node, (∀ n, Overwritten now n (f n)) ∧ ∀ m : Node,
      m.record ∈ ((Edit.updateContent now id content).after s).nodes ↔
        ∃ n : Node, n.record ∈ s.nodes ∧
          m = if n.id = id ∧ n.isActive = true then f n else n := by
    intro content
    refine ⟨fun n => { n with content, contentPlain := Text.plain content, updatedAt := now },
      fun _ => ⟨rfl, rfl, rfl⟩, fun m => ?_⟩
    rw [Edit.after_updateContent]
    exact mem_updateNode_iff hs (fun _ => rfl) id
  have hdelete : ∃ f : Node → Node, (∀ n, Overwritten now n (f n)) ∧ ∀ m : Node,
      m.record ∈ ((Edit.deleteNode now id).after s).nodes ↔
        ∃ n : Node, n.record ∈ s.nodes ∧
          m = if n.id = id ∧ n.isActive = true then f n else n := by
    refine ⟨fun n => { n with deletedAt := some now, updatedAt := now },
      fun _ => ⟨rfl, rfl, rfl⟩, fun m => ?_⟩
    rw [Edit.after_deleteNode]
    exact mem_updateNode_iff hs (fun _ => rfl) id
  cases op with
  | table e =>
    cases e with
    | updateContent _ content =>
      obtain rfl := Option.some.inj h
      exact hcontent content
    | deleteNode _ =>
      obtain rfl := Option.some.inj h
      exact hdelete
    | _ => cases h
  | graph e =>
    cases e with
    | updateContent _ content =>
      obtain rfl := Option.some.inj h
      exact hcontent content
    | deleteNode _ =>
      obtain rfl := Option.some.inj h
      exact hdelete
    | _ => cases h
  | query e => cases h
  | bootstrap fresh => cases h

/-- Every other operation lets no time of change go back. -/
theorem ages_step (hs : s.Sound) {step : Step} (h : step.operation.overwritten? = none) :
    Ages s (s.step step) :=
  (Operation.respects_of_creation Ages.creationLaw step.now h s hs.native).2 hs |>.2

theorem Sound.step (hs : s.Sound) (step : Step) : (s.step step).Sound :=
  hs.run [step]

/-- The live nodes with an identifier, as `Overwrites` has it. -/
theorem overwrites_iff (hs : s.Sound) {step : Step} {n : Node} (hn : n.record ∈ s.nodes) :
    Overwrites s step n ↔ step.operation.overwritten? = some n.id ∧ n.isActive = true := by
  rw [Overwrites, hs.node?_eq_some_iff, hs.mem_liveNodes]
  exact and_congr_right' ⟨fun h => h.1.2, fun h => ⟨⟨hn, h⟩, rfl⟩⟩

/-- A step keeps every node with the time of its creation, and its time of change goes back if and
only if the step sets it to an earlier one. -/
theorem updatedAt_step (hs : s.Sound) (step : Step) {n : Node} (hn : n.record ∈ s.nodes) :
    ∃ n' : Node, n'.record ∈ (s.step step).nodes ∧ n'.id = n.id ∧ n'.createdAt = n.createdAt ∧
      (n'.updatedAt < n.updatedAt ↔ Overwrites s step n ∧ step.now < n.updatedAt) := by
  cases h : step.operation.overwritten? with
  | none =>
    obtain ⟨n', hn', hage⟩ := (ages_step hs h).kept n hn
    refine ⟨n', hn', hage.id, hage.createdAt, iff_of_false (Int.not_lt.mpr hage.updatedAt) ?_⟩
    rintro ⟨⟨hset, -⟩, -⟩
    cases h.symm.trans hset
  | some id =>
    obtain ⟨f, hf, hmem⟩ := mem_step_overwriting hs h
    rw [overwrites_iff hs hn, h]
    by_cases hmeant : n.id = id ∧ n.isActive = true
    · refine ⟨f n, (hmem _).mpr ⟨n, hn, (if_pos hmeant).symm⟩, (hf n).id, (hf n).createdAt, ?_⟩
      rw [(hf n).updatedAt, hmeant.1]
      exact (and_iff_right ⟨rfl, hmeant.2⟩).symm
    · refine ⟨n, (hmem _).mpr ⟨n, hn, (if_neg hmeant).symm⟩, rfl, rfl,
        iff_of_false (Int.lt_irrefl _) ?_⟩
      rintro ⟨⟨hid, hactive⟩, -⟩
      exact hmeant ⟨(Option.some.inj hid).symm, hactive⟩

/-! ## Runs -/

/-- No node, deleted ones included, has been changed before its creation. -/
def Timely (s : Store) : Prop :=
  ∀ n : Node, s.nodeOrTombstone? n.id = .ok (some n) → n.createdAt ≤ n.updatedAt

theorem timely_iff (hs : s.Sound) :
    s.Timely ↔ ∀ n : Node, n.record ∈ s.nodes → n.createdAt ≤ n.updatedAt := by
  unfold Timely
  simp only [hs.nodeOrTombstone?_eq_some_iff, and_true]

/-- A step keeps the times in order if and only if it sets none to one before the creation. -/
theorem timely_step_iff (hs : s.Sound) (h : s.Timely) (step : Step) :
    (s.step step).Timely ↔ ∀ n, Overwrites s step n → n.createdAt ≤ step.now := by
  rw [timely_iff hs] at h
  rw [timely_iff (hs.step step)]
  cases hset : step.operation.overwritten? with
  | none =>
    refine iff_of_true (fun n' hn' => ?_) fun n hover => nomatch hset.symm.trans hover.1
    rcases (ages_step hs hset).origin n' hn' with hnew | ⟨n, hn, hage⟩
    · exact hnew
    · rw [hage.createdAt]
      exact Int.le_trans (h n hn) hage.updatedAt
  | some id =>
    obtain ⟨f, hf, hmem⟩ := mem_step_overwriting hs hset
    constructor
    · intro hall n hover
      have hn : n.record ∈ s.nodes :=
        (hs.mem_liveNodes.mp (hs.node?_eq_some_iff.mp hover.2).1).1
      obtain ⟨hid, hactive⟩ := (overwrites_iff hs hn).mp hover
      have hmeant : n.id = id ∧ n.isActive = true :=
        ⟨(Option.some.inj (hset.symm.trans hid)).symm, hactive⟩
      have hle := hall (f n) ((hmem _).mpr ⟨n, hn, (if_pos hmeant).symm⟩)
      rwa [(hf n).createdAt, (hf n).updatedAt] at hle
    · intro hall m hm
      obtain ⟨n, hn, rfl⟩ := (hmem m).mp hm
      by_cases hmeant : n.id = id ∧ n.isActive = true
      · rw [if_pos hmeant, (hf n).createdAt, (hf n).updatedAt]
        exact hall n ((overwrites_iff hs hn).mpr ⟨hmeant.1 ▸ hset, hmeant.2⟩)
      · rw [if_neg hmeant]
        exact h n hn

/-- The times stay in order all along a run if and only if no step sets one to a time before the
creation. -/
theorem timely_run_iff (hs : s.Sound) (h : s.Timely) (steps : List Step) :
    (∀ before, before <+: steps → (s.run before).Timely) ↔
      ∀ before step, before ++ [step] <+: steps →
        ∀ n, Overwrites (s.run before) step n → n.createdAt ≤ step.now := by
  induction steps generalizing s with
  | nil =>
    refine iff_of_true (fun before hbefore => ?_) fun before step hbefore => ?_
    · rw [List.prefix_nil.mp hbefore]
      exact h
    · exact absurd (List.prefix_nil.mp hbefore) (by simp)
  | cons first steps ih =>
    have hfirst := timely_step_iff hs h first
    have hs' := hs.step first
    constructor
    · intro hall before step hbefore
      have hafter : (s.step first).Timely := hall [first] (by simp)
      cases before with
      | nil =>
        obtain rfl : step = first := by simpa using hbefore
        exact hfirst.mp hafter
      | cons other before =>
        obtain ⟨rfl, hrest⟩ := List.cons_prefix_cons.mp hbefore
        refine (ih hs' hafter).mp (fun b hb => ?_) before step hrest
        exact hall (other :: b) (List.cons_prefix_cons.mpr ⟨rfl, hb⟩)
    · intro hall before hbefore
      have hafter : (s.step first).Timely := hfirst.mpr (hall [] first (by simp))
      cases before with
      | nil => exact h
      | cons other before =>
        obtain ⟨rfl, hrest⟩ := List.cons_prefix_cons.mp hbefore
        refine (ih hs' hafter).mpr (fun b step hb => ?_) before hrest
        exact hall (other :: b) step (List.cons_prefix_cons.mpr ⟨rfl, hb⟩)

/-- In a store that any run has left, whatever the clock has read, a further step keeps every node,
and its time of change goes back if and only if the step is a change of its content or its deletion
at an earlier time. All along the run, no node has been changed before its creation if and only if
none of these steps has come before the creation of its node. -/
theorem updatedAt_run (steps : List Step) :
    (∀ step n, (Store.empty.run steps).nodeOrTombstone? n.id = .ok (some n) →
      ∃ n', ((Store.empty.run steps).step step).nodeOrTombstone? n.id = .ok (some n') ∧
        n'.createdAt = n.createdAt ∧
        (n'.updatedAt < n.updatedAt ↔
          Overwrites (Store.empty.run steps) step n ∧ step.now < n.updatedAt)) ∧
    ((∀ before, before <+: steps → (Store.empty.run before).Timely) ↔
      ∀ before step, before ++ [step] <+: steps →
        ∀ n, Overwrites (Store.empty.run before) step n → n.createdAt ≤ step.now) := by
  have hs := empty_sound.run steps
  refine ⟨fun step n hn => ?_, timely_run_iff empty_sound ?_ steps⟩
  · obtain ⟨n', hn', hid, hcreated, hupdated⟩ :=
      updatedAt_step hs step (hs.nodeOrTombstone?_eq_some_iff.mp hn).1
    exact ⟨n', (hs.step step).nodeOrTombstone?_eq_some_iff.mpr ⟨hn', hid⟩, hcreated, hupdated⟩
  · exact (timely_iff empty_sound).mpr fun n hn => nomatch hn

end Store

end TagGraph
