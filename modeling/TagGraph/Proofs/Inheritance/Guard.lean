import TagGraph.Proofs.Field.Reading

/-!
# What the guard of inheritance looks at

The guard lets a supertag extend a parent if it is another node and does not stand in the chain
above the parent (`Store.wouldCreateCycle_eq_false_iff`), which goes on step by step until the top
or until it runs into itself (`Store.climbed_ancestorsFrom`). The guard looks at the steps up from
that chain alone: if these stay the same, or the chain only becomes longer by one node at its end,
the parent is let pass as before (`Store.wouldCreateCycle_of_alike`). More does not happen when a
node is added (`Store.Sound.stepsAlike_addNode`).
-/

namespace TagGraph

namespace Store

variable {s s' : Store}

/-! ## Chains of supertags -/

section Chain

variable {steps : Nat} {visited above : List NodeId} {current parent : NodeId}

theorem ancestorsFrom_top (h : s.parent? current = .ok none) (steps : Nat)
    (visited : List NodeId) : s.ancestorsFrom steps visited current = .ok [] := by
  cases steps with
  | zero => rfl
  | succ steps =>
    rw [ancestorsFrom, h]
    rfl

theorem ancestorsFrom_again (h : s.parent? current = .ok (some parent)) (hagain : parent ∈ visited)
    (steps : Nat) : s.ancestorsFrom steps visited current = .ok [] := by
  cases steps with
  | zero => rfl
  | succ steps =>
    rw [ancestorsFrom, h]
    show (if visited.contains parent = true then _ else _) = _
    rw [if_pos (List.contains_iff_mem.mpr hagain)]
    rfl

theorem ancestorsFrom_next (h : s.parent? current = .ok (some parent)) (hnew : parent ∉ visited)
    (hrest : s.ancestorsFrom steps (parent :: visited) parent = .ok above) :
    s.ancestorsFrom (steps + 1) visited current = .ok (parent :: above) := by
  rw [ancestorsFrom, h]
  show (if visited.contains parent = true then _ else _) = _
  rw [if_neg (mt List.contains_iff_mem.mp hnew), hrest]
  rfl

/-- A chain ends at the top or where it runs into itself, or it goes on with one step. -/
theorem ancestorsFrom_ok (h : s.ancestorsFrom (steps + 1) visited current = .ok above) :
    (s.parent? current = .ok none ∧ above = []) ∨
    ∃ parent, s.parent? current = .ok (some parent) ∧
      (parent ∈ visited ∧ above = [] ∨ parent ∉ visited ∧ ∃ rest,
        s.ancestorsFrom steps (parent :: visited) parent = .ok rest ∧ above = parent :: rest) := by
  rw [ancestorsFrom] at h
  obtain ⟨found, hfound, h⟩ := Reading.bind_ok h
  cases found with
  | none => exact Or.inl ⟨hfound, (Except.ok.inj h).symm⟩
  | some parent =>
    refine Or.inr ⟨parent, hfound, ?_⟩
    replace h : (if visited.contains parent = true then (.ok [] : Reading (List NodeId)) else
      s.ancestorsFrom steps (parent :: visited) parent >>= fun rest => pure (parent :: rest)) =
        .ok above := h
    by_cases hagain : parent ∈ visited
    · rw [if_pos (List.contains_iff_mem.mpr hagain)] at h
      exact Or.inl ⟨hagain, (Except.ok.inj h).symm⟩
    · rw [if_neg (mt List.contains_iff_mem.mp hagain)] at h
      obtain ⟨rest, hrest, h⟩ := Reading.bind_ok h
      exact Or.inr ⟨hagain, rest, hrest, (Except.ok.inj h).symm⟩

end Chain

/-- A climb by parents, from a supertag and past others that must not be met again: how far it came
and why it ended. -/
structure Climbed (s : Store) (steps : Nat) (visited : List NodeId) (current : NodeId)
    (above : List NodeId) : Prop where
  chain : (current :: above).IsChain fun c p => s.parent? c = .ok (some p)
  nodup : above.Nodup
  apart : ∀ id ∈ above, id ∉ visited
  bounded : above.length ≤ steps
  ended : above.length < steps → s.parent? (above.getLastD current) = .ok none ∨
    ∃ parent, s.parent? (above.getLastD current) = .ok (some parent) ∧
      (parent ∈ visited ∨ parent ∈ above)

namespace Climbed

variable {steps : Nat} {visited above : List NodeId} {current parent : NodeId}

/-- A climb that ends where it starts. -/
theorem nil (h : 0 < steps → s.parent? current = .ok none ∨
    ∃ parent, s.parent? current = .ok (some parent) ∧ parent ∈ visited) :
    Climbed s steps visited current [] where
  chain := List.IsChain.singleton current
  nodup := List.nodup_nil
  apart _ hid := absurd hid List.not_mem_nil
  bounded := Nat.zero_le steps
  ended hsteps := (h hsteps).imp id fun ⟨parent, hparent, hvisited⟩ =>
    ⟨parent, hparent, Or.inl hvisited⟩

/-- A climb that goes on from a parent that has not been met before. -/
theorem cons (hparent : s.parent? current = .ok (some parent)) (hnew : parent ∉ visited)
    (h : Climbed s steps (parent :: visited) parent above) :
    Climbed s (steps + 1) visited current (parent :: above) where
  chain := List.isChain_cons_cons.mpr ⟨hparent, h.chain⟩
  nodup := List.nodup_cons.mpr ⟨fun hmem => h.apart parent hmem List.mem_cons_self, h.nodup⟩
  apart id hid := by
    rcases List.mem_cons.mp hid with rfl | hid
    · exact hnew
    · exact fun hvisited => h.apart id hid (List.mem_cons_of_mem _ hvisited)
  bounded := Nat.succ_le_succ h.bounded
  ended hlength := by
    rw [List.getLastD_cons]
    rcases h.ended (Nat.lt_of_succ_lt_succ hlength) with hnone | ⟨top, htop, hmet⟩
    · exact Or.inl hnone
    · refine Or.inr ⟨top, htop, ?_⟩
      rcases hmet with hvisited | habove
      · rcases List.mem_cons.mp hvisited with rfl | hvisited
        · exact Or.inr List.mem_cons_self
        · exact Or.inl hvisited
      · exact Or.inr (List.mem_cons_of_mem _ habove)

end Climbed

theorem climbed_ancestorsFrom : ∀ {steps : Nat} {visited above : List NodeId} {current : NodeId},
    s.ancestorsFrom steps visited current = .ok above → Climbed s steps visited current above
  | 0, _, _, _, h => by
    obtain rfl := Except.ok.inj h
    exact .nil fun hsteps => absurd hsteps (Nat.lt_irrefl 0)
  | steps + 1, _, _, _, h => by
    rcases ancestorsFrom_ok h with
      ⟨hnone, rfl⟩ | ⟨parent, hparent, ⟨hagain, rfl⟩ | ⟨hnew, rest, hrest, rfl⟩⟩
    · exact .nil fun _ => Or.inl hnone
    · exact .nil fun _ => Or.inr ⟨parent, hparent, hagain⟩
    · exact (climbed_ancestorsFrom hrest).cons hparent hnew

/-- All supertags above a supertag are live. -/
theorem isLive_of_mem_ancestorsFrom {steps : Nat} {visited above : List NodeId} {current : NodeId}
    (h : s.ancestorsFrom steps visited current = .ok above) : ∀ id ∈ above, s.IsLive id := by
  have hchain := (climbed_ancestorsFrom h).chain
  clear h
  induction above generalizing current with
  | nil => exact fun _ hid => absurd hid List.not_mem_nil
  | cons parent rest ih =>
    obtain ⟨hparent, hrest⟩ := List.isChain_cons_cons.mp hchain
    exact List.forall_mem_cons.mpr ⟨isLive_of_parent? hparent, ih hrest⟩

/-! ## What the guard lets pass -/

theorem wouldCreateCycle_eq_false_iff {child parent : NodeId} :
    s.wouldCreateCycle child parent = .ok false ↔
      child ≠ parent ∧ ∃ above, s.ancestors parent = .ok above ∧ child ∉ above := by
  unfold wouldCreateCycle
  by_cases heq : child = parent
  · rw [if_pos heq]
    exact ⟨fun h => (nomatch h), fun h => absurd heq h.1⟩
  rw [if_neg heq]
  constructor
  · intro h
    obtain ⟨above, habove, hcontains⟩ := Reading.bind_ok h
    exact ⟨heq, above, habove, by simpa using Except.ok.inj hcontains⟩
  · rintro ⟨-, above, habove, hchild⟩
    rw [habove]
    show Except.ok (above.contains child) = Except.ok false
    simpa using hchild

/-- The step up from a node is the same in both stores, or it is a new one, to another node than
`child`, from which none goes on. -/
def StepsAlike (child : NodeId) (s s' : Store) (node : NodeId) : Prop :=
  s'.parent? node = s.parent? node ∨ s.parent? node = .ok none ∧
    ∃ top, top ≠ child ∧ s'.parent? node = .ok (some top) ∧ s'.parent? top = .ok none

/-- A chain that does not come to a node still does not if all steps from its members are alike. -/
theorem ancestorsFrom_of_alike {child : NodeId} : ∀ {steps : Nat} {visited : List NodeId}
    {node : NodeId} {above : List NodeId}, s.ancestorsFrom steps visited node = .ok above →
      child ∉ above → (∀ n, n = node ∨ n ∈ above → StepsAlike child s s' n) →
        ∃ above', s'.ancestorsFrom steps visited node = .ok above' ∧ child ∉ above'
  | 0, _, _, _, _, _, _ => ⟨[], rfl, List.not_mem_nil⟩
  | steps + 1, visited, node, above, h, hchild, halike => by
    rcases halike node (Or.inl rfl) with hsame | ⟨-, top, htop, hstep, hend⟩
    · rcases ancestorsFrom_ok h with
        ⟨hfound, -⟩ | ⟨parent, hfound, ⟨hagain, -⟩ | ⟨hnew, rest, hrest, rfl⟩⟩
      · exact ⟨[], ancestorsFrom_top (hsame.trans hfound) _ _, List.not_mem_nil⟩
      · exact ⟨[], ancestorsFrom_again (hsame.trans hfound) hagain _, List.not_mem_nil⟩
      · obtain ⟨hparent, hchild⟩ := not_or.mp (mt List.mem_cons.mpr hchild)
        obtain ⟨rest', hrest', hchild'⟩ := ancestorsFrom_of_alike hrest hchild fun n hn =>
          halike n (Or.inr (List.mem_cons.mpr hn))
        exact ⟨parent :: rest', ancestorsFrom_next (hsame.trans hfound) hnew hrest',
          mt List.mem_cons.mp (not_or.mpr ⟨hparent, hchild'⟩)⟩
    -- The chain has ended here, and now goes on for one node at most.
    · by_cases hagain : top ∈ visited
      · exact ⟨[], ancestorsFrom_again hstep hagain _, List.not_mem_nil⟩
      · exact ⟨[top], ancestorsFrom_next hstep hagain (ancestorsFrom_top hend _ _),
          fun hmem => htop (List.mem_singleton.mp hmem).symm⟩

/-- A parent that the guard lets pass passes as long as the steps from the chain above it are
alike. -/
theorem wouldCreateCycle_of_alike {child parent : NodeId}
    (h : s.wouldCreateCycle child parent = .ok false)
    (halike : ∀ above, s.ancestors parent = .ok above → ∀ n, n = parent ∨ n ∈ above →
      StepsAlike child s s' n) : s'.wouldCreateCycle child parent = .ok false := by
  obtain ⟨hne, above, habove, hchild⟩ := wouldCreateCycle_eq_false_iff.mp h
  exact wouldCreateCycle_eq_false_iff.mpr
    ⟨hne, ancestorsFrom_of_alike habove hchild (halike above habove)⟩

/-- The step up from a node depends on its rows of `field:extends` and on the live nodes. -/
theorem Sound.parent?_congr (hs : s.Sound) (hs' : s'.Sound) {extendsField node : NodeId}
    (h : s.Holds (.known extendsField) (some Handle.fieldExtends))
    (h' : s'.Holds (.known extendsField) (some Handle.fieldExtends))
    (htexts : s'.texts node extendsField = s.texts node extendsField)
    (hlive : ∀ id, s'.IsLive id ↔ s.IsLive id) : s'.parent? node = s.parent? node := by
  obtain ⟨found, hfound, hiff⟩ := hs.exists_parent? h node
  obtain ⟨found', hfound', hiff'⟩ := hs'.exists_parent? h' node
  rw [hfound, hfound']
  refine congrArg Except.ok (Option.ext fun parent => ?_)
  rw [hiff', hiff, htexts, hlive]

/-! ## Further nodes -/

/-- The live nodes after a live one has been added. -/
theorem holds_addNode {r : NodeRecord} (hlive : r.isLive = true) {id : StoredId}
    {handle : Option String} : ({ s with nodes := s.nodes ++ [r] } : Store).Holds id handle ↔
      s.Holds id handle ∨ r.id = id ∧ r.systemId = handle := by
  constructor
  · rintro ⟨m, hm, hmlive, hid, hhandle⟩
    rcases List.mem_append.mp hm with hold | hnew
    · exact Or.inl ⟨m, hold, hmlive, hid, hhandle⟩
    · obtain rfl := List.mem_singleton.mp hnew
      exact Or.inr ⟨hid, hhandle⟩
  · rintro (⟨m, hm, hm'⟩ | ⟨hid, hhandle⟩)
    · exact ⟨m, List.mem_append_left _ hm, hm'⟩
    · exact ⟨r, List.mem_append_right _ (List.mem_singleton_self r), hlive, hid, hhandle⟩

/-- Nodes are never taken out of the store. -/
theorem Change.ids_subset (h : Change s s') : s.nodes.map (·.id) ⊆ s'.nodes.map (·.id) := by
  have hupdate : ∀ {change : NodeRecord → NodeRecord}, NodeRecord.Amends change →
      ∀ id, s.nodes.map (·.id) ⊆ (s.updateNode id change).nodes.map (·.id) :=
    fun hchange id => (updateNode_ids hchange s id).symm ▸ fun _ hid => hid
  cases h with
  | addNode now n _ _ =>
    rw [List.map_append]
    exact List.subset_append_left _ _
  | setContent now id content => exact hupdate (NodeRecord.setContent_amends now content) id
  | touch now id => exact hupdate (NodeRecord.touch_amends now) id
  | bury now id => exact hupdate (NodeRecord.bury_amends now) id
  | addRow | removeRows => exact fun _ hid => hid

/-- A node that is live after an elementary change has been so before, with its handle, or it is
new. -/
theorem Change.holds_or_new (h : Change s s') {id : StoredId} {handle : Option String}
    (hholds : s'.Holds id handle) : s.Holds id handle ∨ id ∉ s.nodes.map (·.id) := by
  cases h with
  | addNode now n _ hfree =>
    rcases (holds_addNode rfl).mp hholds with hold | ⟨rfl, -⟩
    · exact Or.inl hold
    · exact Or.inr (not_mem_ids_of_free hfree)
  | setContent now id content =>
    exact Or.inl (holds_of_updateNode (NodeRecord.setContent_amends now content)
      (fun _ hlive => hlive) hholds)
  | touch now id =>
    exact Or.inl (holds_of_updateNode (NodeRecord.touch_amends now) (fun _ hlive => hlive) hholds)
  | bury now id =>
    refine Or.inl (holds_of_updateNode (NodeRecord.bury_amends now) (fun r hlive => ?_) hholds)
    simp [NodeRecord.isLive, Cell.isNull] at hlive
  | addRow | removeRows => exact Or.inl hholds

/-- Deleted nodes do not come back: a node that is live later on has been so before, or it is
new. -/
theorem Changes.holds_or_new (h : Changes s s') {id : StoredId} {handle : Option String}
    (hholds : s'.Holds id handle) : s.Holds id handle ∨ id ∉ s.nodes.map (·.id) := by
  induction h using Relation.ReflTransGen.head_induction_on with
  | refl => exact Or.inl hholds
  | head hstep _ ih =>
    rcases ih with hmid | hnew
    · exact hstep.holds_or_new hmid
    · exact Or.inr fun hid => hnew (hstep.ids_subset hid)

namespace Sound

/-- A node that has not been inserted has no rows. -/
theorem texts_of_new (hs : s.Sound) {id : NodeId}
    (hnew : StoredId.known id ∉ s.nodes.map (·.id)) (field : NodeId) : s.texts id field = [] := by
  refine List.eq_nil_iff_forall_not_mem.mpr fun raw hraw => hnew ?_
  obtain ⟨r, hr, hnode, -⟩ := mem_texts.mp hraw
  obtain ⟨n, hn, hid⟩ := (hs.grounded r hr).1
  exact List.mem_map.mpr ⟨n, hn, hid.trans hnode⟩

/-- A node that has not been inserted is no field of a row. -/
theorem texts_of_new_field (hs : s.Sound) {id : NodeId}
    (hnew : StoredId.known id ∉ s.nodes.map (·.id)) (node : NodeId) : s.texts node id = [] := by
  refine List.eq_nil_iff_forall_not_mem.mpr fun raw hraw => hnew ?_
  obtain ⟨r, hr, -, hfield, -⟩ := mem_texts.mp hraw
  obtain ⟨n, hn, hid⟩ := (hs.grounded r hr).2
  exact List.mem_map.mpr ⟨n, hn, hid.trans hfield⟩

theorem not_isLive_of_new (hs : s.Sound) {id : NodeId}
    (hnew : StoredId.known id ∉ s.nodes.map (·.id)) : ¬ s.IsLive id := by
  intro hlive
  obtain ⟨handle, r, hr, -, hid, -⟩ := hs.isLive_iff.mp hlive
  exact hnew (List.mem_map.mpr ⟨r, hr, hid⟩)

/-- Without rows of `field:extends` a supertag has no parent. -/
theorem parent?_of_texts_nil (hs : s.Sound) {extendsField node : NodeId}
    (h : s.Holds (.known extendsField) (some Handle.fieldExtends))
    (htexts : s.texts node extendsField = []) : s.parent? node = .ok none := by
  obtain ⟨found, hfound, hiff⟩ := hs.exists_parent? h node
  rw [hfound]
  refine congrArg Except.ok (Option.eq_none_iff_forall_ne_some.mpr fun parent hsome => ?_)
  have hnames := ((hiff parent).mp hsome).1
  rw [htexts] at hnames
  cases hnames

variable {now : Int} {n : NewNode}

theorem isLive_addNode (hs : s.Sound) (hvalid : n.fault? = none)
    (hfree : Edit.conflict? s (Edit.newRecord now n) = none) (id : NodeId) :
    ({ s with nodes := s.nodes ++ [Edit.newRecord now n] } : Store).IsLive id ↔
      s.IsLive id ∨ n.id = id := by
  rw [(hs.addNode (Edit.newRecord_sound now hvalid) hfree).isLive_iff, hs.isLive_iff]
  simp only [holds_addNode (r := Edit.newRecord now n) rfl, exists_or, exists_and_left]
  exact or_congr Iff.rfl ⟨fun h => StoredId.known.inj h.1, fun h => ⟨congrArg _ h, _, rfl⟩⟩

/-- A further node makes at most one step up from where there was none: a supertag may name it as
its parent already, but it names none itself. -/
theorem stepsAlike_addNode (hs : s.Sound) (hvalid : n.fault? = none)
    (hfree : Edit.conflict? s (Edit.newRecord now n) = none) {extendsField child : NodeId}
    (hfield : s.Holds (.known extendsField) (some Handle.fieldExtends)) (hchild : s.IsLive child)
    (node : NodeId) :
    StepsAlike child s { s with nodes := s.nodes ++ [Edit.newRecord now n] } node := by
  have hs' := hs.addNode (Edit.newRecord_sound now hvalid) hfree
  have hnew : StoredId.known n.id ∉ s.nodes.map (·.id) := not_mem_ids_of_free hfree
  have hgone := hs.not_isLive_of_new hnew
  have hfield' := (holds_addNode (r := Edit.newRecord now n) rfl).mpr (Or.inl hfield)
  obtain ⟨found, hfound, hiff⟩ := hs.exists_parent? hfield node
  obtain ⟨found', hfound', hiff'⟩ := hs'.exists_parent? hfield' node
  simp only [hs.isLive_addNode hvalid hfree] at hiff'
  -- No row has changed, so that both stores name the same parent.
  by_cases hnames : parentOf? (s.texts node extendsField) = some n.id
  · refine Or.inr ⟨?_, n.id, fun heq => hgone (heq ▸ hchild), ?_, ?_⟩
    · rw [hfound]
      refine congrArg Except.ok (Option.eq_none_iff_forall_ne_some.mpr fun parent hsome => ?_)
      obtain ⟨hparent, hlive⟩ := (hiff parent).mp hsome
      obtain rfl := Option.some.inj (hparent.symm.trans hnames)
      exact hgone hlive
    · rw [hfound']
      exact congrArg Except.ok ((hiff' n.id).mpr ⟨hnames, Or.inr rfl⟩)
    · exact hs'.parent?_of_texts_nil hfield' (hs.texts_of_new hnew extendsField)
  · refine Or.inl ?_
    rw [hfound, hfound']
    refine congrArg Except.ok (Option.ext fun parent => ?_)
    rw [hiff, hiff']
    refine and_congr_right fun hparent => or_iff_left ?_
    rintro rfl
    exact hnames hparent

end Sound

end Store

/-! ## Nodes with supertags -/

namespace Edit

open Store

/-- The creation of a node relates a store to the one that it leaves if the row of the node does and
rows of the node that assign supertags do. -/
theorem createNode_rel {R : Store → Store → Prop} {fields : NodeId → NodeId → Prop}
    {texts : String → Prop} (h : RowLaw R fields texts) {s : Store} (hs : s.Sound) (now : Int)
    (n : NewNode) (hnode : Respects R (insertNode now n))
    (hrows : ∀ field supertag raw, s.Holds (.known field) (some Handle.fieldSupertag) →
      (PropertyValue.node supertag).encode? = some raw → fields n.id field ∧ texts raw) :
    R s ((createNode now n).after s) := by
  have hC := h.toComposes
  have hinsert : ∀ rows : List (NodeId × String),
      (∀ row ∈ rows, fields n.id row.1 ∧ texts row.2) →
        R s ((do return (← insertNodeWithProperties now n rows).id : Edit NodeId).after s) :=
    fun rows hrows => (Respects.bind hC (insertNodeWithProperties_respects h now n hnode hrows)
      fun node => .of_reads hC (Reads.pure node.id)) s
  unfold createNode
  by_cases hn : n.supertags.isEmpty
  · simp only [hn, if_true]
    exact hinsert [] fun _ hrow => nomatch hrow
  · simp only [hn, Bool.false_eq_true, if_false]
    rcases (requireField_reads _).after_bind _ s with hsame | ⟨field, hfield, hrest⟩
    · rw [hsame]
      exact hC.refl s
    rw [hrest]
    have hholds := hs.holds_of_found isName_fieldSupertag (requireField_ok hfield)
    rcases (requireSupertags_reads _).after_bind _ s with hsame | ⟨supertags, -, hrest⟩
    · rw [hsame]
      exact hC.refl s
    rw [hrest]
    rcases (supertagRows_reads field.id supertags).after_bind _ s with hsame | ⟨rows, hmade, hrest⟩
    · rw [hsame]
      exact hC.refl s
    rw [hrest]
    refine hinsert rows fun row hrow => ?_
    obtain ⟨supertag, -, hat, hraw⟩ := exists_paired (supertagRows_ok hmade) row hrow
    exact hrows row.1 supertag row.2 (hat ▸ hholds) hraw

end Edit

end TagGraph
