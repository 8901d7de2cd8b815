import TagGraph.Proofs.Assembly

/-!
# Assembling with one memory

One memory may serve any number of uses (`Assembling.Use`): single nodes, lists of identifiers, all
live nodes, nodes that are at hand already. Each use gives what it gives on its own
(`Assembling.uses_eq`), so the nodes that a query chooses from are those that single look-ups show
(`Store.assembleAll_run`).
-/

namespace TagGraph

open Reading

namespace Assembling

/-- Assembles all live nodes, in the order of creation. -/
def ofAll (s : Store) : Assembling (List AssembledNode) := do
  ofNodes s (← liftM (s.listNodes none false))

/-! ## Uses of one memory -/

/-- One use of a memory: a node by identifier, several by identifier, all, or one that is at
hand. -/
inductive Use where
  | node (id : NodeId)
  | nodes (ids : List NodeId)
  | all
  | loaded (n : Node)

/-- What a use gives. -/
def Use.reading (s : Store) : Use → Assembling (List AssembledNode)
  | .node id => do return (← ofId s id).toList
  | .nodes ids => ofIds s ids
  | .all => ofAll s
  | .loaded n => do return [← ofNode s n]

/-- What a use gives on its own. -/
def Use.alone (s : Store) (use : Use) : Reading (List AssembledNode) :=
  (use.reading s).fresh

variable {s : Store}

theorem ofAll_answers (hs : s.Sound) : Answers (Known s) (ofAll s) s.joinedNodes :=
  (Answers.lift hs.listNodes_live).bind (ofNodes_answers hs s.liveNodes)

/-- A use has one answer, whatever is remembered. -/
theorem Use.exists_answers (hs : s.Sound) (use : Use) :
    ∃ answer, Answers (Known s) (use.reading s) answer := by
  cases use with
  | node id => exact ⟨_, (ofId_answers hs id).bind (Answers.pure _)⟩
  | nodes ids => exact ⟨_, ofIds_answers hs ids⟩
  | all => exact ⟨_, ofAll_answers hs⟩
  | loaded n => exact ⟨_, (ofNode_answers hs n).bind (Answers.pure _)⟩

/-- Uses of one memory, one after the other, give what each gives on its own, and the memory still
holds nothing but what the store says. -/
theorem uses_eq (hs : s.Sound) (uses : List Use) :
    ∃ answers, uses.mapM (Use.alone s) = .ok answers ∧
      Answers (Known s) (uses.mapM (Use.reading s)) answers := by
  induction uses with
  | nil => exact ⟨[], rfl, Answers.pure []⟩
  | cons use rest ih =>
    obtain ⟨answer, hanswer⟩ := use.exists_answers hs
    obtain ⟨answers, halone, hanswers⟩ := ih
    refine ⟨answer :: answers, ?_, ?_⟩
    · rw [List.mapM_cons, Use.alone, fresh_eq hanswer, halone]
      rfl
    · rw [List.mapM_cons]
      exact hanswer.bind (hanswers.bind (Answers.pure _))

end Assembling

namespace Store

variable {s : Store}

/-! ## Nodes one by one -/

/-- Identifiers looked up one by one, with those that are gone left out. -/
theorem Sound.mapM_assemble? (hs : s.Sound) (ids : List NodeId) :
    ∃ found, ids.mapM s.assemble? = .ok found ∧
      found.reduceOption =
        ids.flatMap fun id => ((found? (s.node? id)).map s.joined).toList := by
  induction ids with
  | nil => exact ⟨[], rfl, rfl⟩
  | cons id rest ih =>
    obtain ⟨found, hfound, hlive⟩ := ih
    refine ⟨(found? (s.node? id)).map s.joined :: found, ?_, ?_⟩
    · rw [List.mapM_cons, hs.assemble?_eq, hfound]
      rfl
    · rw [List.flatMap_cons, ← hlive]
      cases (found? (s.node? id)).map s.joined with
      | none => exact rfl
      | some node => exact rfl

/-- A live node assembled by its identifier is the node joined on its own. -/
theorem Sound.assemble?_of_live (hs : s.Sound) {node : Node} (h : node ∈ s.liveNodes) :
    s.assemble? node.id = .ok (some (s.joined node)) := by
  rw [hs.assemble?_eq, hs.node?_eq_some_iff.mpr ⟨h, rfl⟩]
  rfl

/-- Live nodes assembled by their identifiers are the nodes joined one by one. -/
theorem Sound.mapM_assemble?_of_live (hs : s.Sound) {nodes : List Node}
    (h : ∀ node ∈ nodes, node ∈ s.liveNodes) :
    nodes.mapM (fun node => s.assemble? node.id) = .ok ((nodes.map s.joined).map some) := by
  induction nodes with
  | nil => rfl
  | cons node rest ih =>
    rw [List.mapM_cons, hs.assemble?_of_live (h node List.mem_cons_self),
      ih fun other hother => h other (List.mem_cons_of_mem _ hother)]
    rfl

/-- The nodes assembled all together are those that single look-ups give. -/
theorem Sound.mem_joinedNodes_iff (hs : s.Sound) {n : AssembledNode} :
    n ∈ s.joinedNodes ↔ s.assemble? n.id = .ok (some n) := by
  rw [joinedNodes, List.mem_map]
  constructor
  · rintro ⟨node, hlive, rfl⟩
    exact hs.assemble?_of_live hlive
  · intro h
    rw [hs.assemble?_eq] at h
    obtain ⟨node, hnode, hjoined⟩ := Option.map_eq_some_iff.mp (Except.ok.inj h)
    have hread := (hs.node?_succeeds n.id).eq_ok_found
    rw [hnode] at hread
    exact ⟨node, (hs.node?_eq_some_iff.mp hread).1, hjoined⟩

/-- The live nodes are all nodes in the order of creation, those of one time in the order of
insertion, without the deleted ones. -/
theorem Sound.liveNodes_eq (hs : s.Sound) : ∃ all : List Node, s.nodes = all.map Node.record ∧
    s.liveNodes =
      (all.mergeSort fun a b => decide (a.createdAt ≤ b.createdAt)).filter (·.isActive) := by
  obtain ⟨all, hall⟩ := hs.exists_nodes fun _ hr => hr
  have hsorted : s.recordsByCreation =
      (all.mergeSort fun a b => decide (a.createdAt ≤ b.createdAt)).map Node.record := by
    rw [recordsByCreation, hall]
    refine (List.map_mergeSort (f := Node.record) fun a _ b _ => ?_).symm
    exact (Cell.precedes_integer a.createdAt b.createdAt).symm
  refine ⟨all, hall, ?_⟩
  have hlive : (s.liveNodes.map Node.record) = _ := hs.liveRecords_eq.symm
  have hactive : (fun r : NodeRecord => r.isLive) ∘ Node.record = (·.isActive) :=
    funext Node.isLive_record
  rw [liveRecords, hsorted, List.filter_map, hactive] at hlive
  exact List.map_injective_iff.mpr Node.record_injective hlive

/-! ## Runs -/

/-- On every store that a run leaves, the live nodes, in the order of creation, are assembled all
together to what each is assembled to on its own. The same holds of any identifiers, with those that
are gone left out, whatever the memory has been used for before, and these are the nodes that a
query chooses from. -/
theorem assembleAll_run (steps : List Step) (earlier : List Assembling.Use) :
    let s := Store.empty.run steps
    ∃ (all live : List Node) (nodes : List AssembledNode) (answers : List (List AssembledNode))
        (memo : AssemblyMemo),
      s.nodes = all.map Node.record ∧
      live = (all.mergeSort fun a b => decide (a.createdAt ≤ b.createdAt)).filter (·.isActive) ∧
      live.mapM (fun node => s.assemble? node.id) = .ok (nodes.map some) ∧
      s.assembleAll = .ok nodes ∧
      earlier.mapM (Assembling.Use.alone s) = .ok answers ∧
      earlier.mapM (Assembling.Use.reading s) Assembling.noMemo = .ok (answers, memo) ∧
      (∃ memo', Assembling.ofAll s memo = .ok (nodes, memo')) ∧
      (∀ ids, ∃ found memo', ids.mapM s.assemble? = .ok found ∧
        Assembling.ofIds s ids memo = .ok (found.reduceOption, memo')) ∧
      (∀ n, n ∈ nodes ↔ s.assemble? n.id = .ok (some n)) ∧
      ∀ now d, s.evaluate now d =
        match d.fault? with
        | some fault => .error (.invalidDefinition fault)
        | none => (·.1) <$> Evaluating.answer ⟨s, nodes, now⟩ d .empty := by
  intro s
  have hs : s.Sound := empty_sound.run steps
  obtain ⟨all, hall, hlive⟩ := hs.liveNodes_eq
  obtain ⟨answers, halone, hanswers⟩ := Assembling.uses_eq hs earlier
  obtain ⟨memo, hmemo, hknown⟩ := hanswers _ (Assembling.known_noMemo s)
  refine ⟨all, s.liveNodes, s.joinedNodes, answers, memo, hall, hlive,
    hs.mapM_assemble?_of_live fun _ h => h, hs.assembleAll_eq, halone, hmemo, ?_, ?_,
    fun _ => hs.mem_joinedNodes_iff, ?_⟩
  · obtain ⟨memo', hmemo', -⟩ := Assembling.ofAll_answers hs memo hknown
    exact ⟨memo', hmemo'⟩
  · intro ids
    obtain ⟨found, hfound, hpresent⟩ := hs.mapM_assemble? ids
    obtain ⟨memo', hmemo', -⟩ := Assembling.ofIds_answers hs ids memo hknown
    exact ⟨found, memo', hfound, by rw [hpresent, hmemo']⟩
  · intro now d
    unfold evaluate
    cases d.fault? with
    | some fault => rfl
    | none =>
      show (s.assembleAll >>= fun candidates => _) = _
      rw [hs.assembleAll_eq]
      rfl

end Store

end TagGraph
