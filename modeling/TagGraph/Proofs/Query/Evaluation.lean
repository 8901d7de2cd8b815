import TagGraph.Proofs.Query.Meaning

/-!
# Evaluation gives the meaning

While a query is evaluated, what names stand for is remembered. Each table holds nothing but what a
look-up gives (`Evaluating.Known`), so that a test answers what the filter means, whatever has been
tested before (`Evaluating.test_answers`). On every store that a run leaves, evaluation gives the
nodes that the query means (`Store.evaluate_run`).
-/

namespace TagGraph

open Reading

namespace Store

/-- What an evaluation runs on: the live nodes of a store at a time. -/
def scope (s : Store) (now : Int) : QueryScope :=
  ⟨s, s.joinedNodes, now⟩

end Store

namespace Evaluating

/-- The tables hold nothing but what look-ups give. -/
structure Known (s : Store) (memo : QueryMemo) : Prop where
  fields : memo.fields.Faithful s.findLiveId?
  targets : memo.targets.Faithful s.findLiveId?
  supertags : memo.supertags.Faithful fun key => s.acceptedBy? key.1 key.2
  backlinks : memo.backlinks.Faithful fun field =>
    .ok (s.joinedNodes.flatMap fun n => s.referencesOf n field)
  supertagField : memo.supertagField.Faithful fun _ => s.supertagFieldId?

theorem known_empty (s : Store) : Known s .empty :=
  ⟨Memo.faithful_empty _, Memo.faithful_empty _, Memo.faithful_empty _, Memo.faithful_empty _,
    Memo.faithful_empty _⟩

variable {s : Store} {now : Int}

/-! ## Names -/

theorem field?_answers (hs : s.Sound) (identifier : String) :
    Answers (Known s) (field? (s.scope now) identifier) (found? (s.findLiveId? identifier)) := by
  intro memo h
  obtain ⟨fields, hfields, hfaithful⟩ :=
    h.fields.consult identifier (hs.findLiveId?_succeeds identifier).eq_ok_found
  refine ⟨{ memo with fields }, ?_, { h with fields := hfaithful }⟩
  unfold field? Store.scope
  rw [hfields]
  rfl

theorem target?_answers (hs : s.Sound) (identifier : String) :
    Answers (Known s) (target? (s.scope now) identifier) (found? (s.findLiveId? identifier)) := by
  intro memo h
  obtain ⟨targets, htargets, hfaithful⟩ :=
    h.targets.consult identifier (hs.findLiveId?_succeeds identifier).eq_ok_found
  refine ⟨{ memo with targets }, ?_, { h with targets := hfaithful }⟩
  unfold target? Store.scope
  rw [htargets]
  rfl

theorem accepted?_answers (hs : s.Sound) (tag : String) (includeInherited : Bool) :
    Answers (Known s) (accepted? (s.scope now) tag includeInherited)
      (found? (s.acceptedBy? tag includeInherited)) := by
  intro memo h
  obtain ⟨supertags, hsupertags, hfaithful⟩ :=
    h.supertags.consult (tag, includeInherited)
      (hs.acceptedBy?_succeeds tag includeInherited).eq_ok_found
  refine ⟨{ memo with supertags }, ?_, { h with supertags := hfaithful }⟩
  unfold accepted? Store.scope
  rw [hsupertags]
  rfl

theorem supertagField?_answers (hs : s.Sound) :
    Answers (Known s) (supertagField? (s.scope now)) (found? s.supertagFieldId?) := by
  intro memo h
  obtain ⟨supertagField, hfield, hfaithful⟩ :=
    h.supertagField.consult () hs.supertagFieldId?_succeeds.eq_ok_found
  refine ⟨{ memo with supertagField }, ?_, { h with supertagField := hfaithful }⟩
  unfold supertagField? Store.scope
  rw [hfield]
  rfl

theorem named?_answers {find? : String → Evaluating (Option NodeId)}
    (h : ∀ name, Answers (Known s) (find? name) (found? (s.findLiveId? name)))
    (name : Option String) : Answers (Known s) (named? find? name) (s.named? name) := by
  cases name with
  | none => exact Answers.pure _
  | some name =>
    refine (h name).bind ?_
    show Answers (Known s) _ ((found? (s.findLiveId? name)).map some)
    cases found? (s.findLiveId? name) with
    | none => exact Answers.pure _
    | some id => exact Answers.pure _

/-! ## Relations -/

theorem references_answers (hs : s.Sound) (n : AssembledNode) (field : Option NodeId) :
    Answers (Known s) (references (s.scope now) n field) (s.referencesOf n field) :=
  (supertagField?_answers hs).bind (Answers.pure _)

theorem backlinks_answers (hs : s.Sound) (field : Option NodeId) :
    Answers (Known s) (backlinks (s.scope now) field)
      (s.joinedNodes.flatMap fun n => s.referencesOf n field) := by
  intro memo h
  unfold backlinks
  cases hget : memo.backlinks.get? field with
  | some ids =>
    have heq := h.backlinks field ids hget
    exact ⟨memo, by rw [Except.ok.inj heq]; rfl, h⟩
  | none =>
    -- The table is filled once for a field, with the references of all live nodes.
    have hall : Answers (Known s)
        (s.joinedNodes.mapM fun n => references (s.scope now) n field)
        (s.joinedNodes.map fun n => s.referencesOf n field) :=
      Answers.mapM fun n _ => references_answers hs n field
    obtain ⟨memo', hmemo', h'⟩ := hall memo h
    have hinsert : (memo'.backlinks.insert field
        (s.joinedNodes.map fun n => s.referencesOf n field).flatten).Faithful fun field =>
        .ok (s.joinedNodes.flatMap fun n => s.referencesOf n field) :=
      h'.backlinks.insert (by rw [List.flatMap_def])
    refine ⟨{ memo' with backlinks := memo'.backlinks.insert field _ }, ?_,
      { h' with backlinks := hinsert }⟩
    show ((s.joinedNodes.mapM fun n => references (s.scope now) n field) memo >>= fun found =>
      .ok (found.1.flatten,
        { found.2 with backlinks := found.2.backlinks.insert field found.1.flatten })) = _
    rw [hmemo']
    rfl

/-- Among the live nodes a target is found as it is found in the store. -/
theorem candidate?_eq (hs : s.Sound) (id : NodeId) :
    (s.scope now).candidate? id = found? (s.assemble? id) := by
  rw [hs.assemble?_eq, found?_ok]
  show s.joinedNodes.reverse.find? (·.id == id) = (found? (s.node? id)).map s.joined
  cases hnode : found? (s.node? id) with
  | none =>
    rw [Option.map_none, List.find?_eq_none]
    intro n hn hid
    obtain ⟨node, hmem, rfl⟩ := List.mem_map.mp (List.mem_reverse.mp hn)
    have hfound := hs.node?_eq_some_iff.mpr ⟨hmem, by simpa using hid⟩
    rw [hfound] at hnode
    cases hnode
  | some node =>
    have hok : s.node? id = .ok (some node) := by
      rw [(hs.node?_succeeds id).eq_ok_found, hnode]
    obtain ⟨hmem, rfl⟩ := hs.node?_eq_some_iff.mp hok
    have hjoined : s.joined node ∈ s.joinedNodes.reverse :=
      List.mem_reverse.mpr (List.mem_map_of_mem hmem)
    cases hfind : s.joinedNodes.reverse.find? (·.id == node.id) with
    | none => exact absurd (by simp) (List.find?_eq_none.mp hfind _ hjoined)
    | some found =>
      have hid : found.id = node.id := by simpa using List.find?_some hfind
      have hfound := List.mem_reverse.mp (List.mem_of_find?_eq_some hfind)
      rw [Option.map_some, List.inj_on_of_nodup_map hs.joinedNodes_ids_nodup hfound
        (List.mem_reverse.mp hjoined) hid]

theorem related_answers (hs : s.Sound) (n : AssembledNode) (kind : RelationKind)
    (target field : Option NodeId) :
    Answers (Known s) (related (s.scope now) n kind target field)
      (s.relates n kind target field) := by
  cases kind with
  | childOf => cases target <;> exact Answers.pure _
  | ownedBy => cases target <;> exact Answers.pure _
  | linksTo =>
    refine (references_answers hs n field).bind ?_
    cases target <;> exact Answers.pure _
  | linkedFrom =>
    cases target with
    | some target =>
      unfold related Store.relates
      simp only [candidate?_eq hs]
      cases found? (s.assemble? target) with
      | none => exact Answers.pure _
      | some source => exact (references_answers hs source field).bind (Answers.pure _)
    | none =>
      -- Some node refers to this one if and only if the table of the field holds it.
      have hany : s.relates n .linkedFrom none field =
          (s.joinedNodes.flatMap fun m => s.referencesOf m field).contains n.id := by
        rw [Bool.eq_iff_iff]
        simp [Store.relates]
      rw [hany]
      exact (backlinks_answers hs field).bind (Answers.pure _)

theorem testRelation_answers (hs : s.Sound) (n : AssembledNode) (kind : RelationKind)
    (target field : Option String) :
    Answers (Known s) (testRelation (s.scope now) n kind target field)
      ((s.named? target).any fun target =>
        (s.named? field).any fun field => s.relates n kind target field) := by
  refine (named?_answers (target?_answers hs) target).bind ?_
  cases s.named? target with
  | none => exact Answers.pure _
  | some target =>
    refine (named?_answers (field?_answers hs) field).bind ?_
    cases s.named? field with
    | none => exact Answers.pure _
    | some field => exact related_answers hs n kind target field

/-! ## Filters -/

mutual

/-- A test answers what the filter means, whatever the tables have been filled with before. -/
theorem test_answers (hs : s.Sound) (n : AssembledNode) (f : Filter) :
    Answers (Known s) (test (s.scope now) n f) (f.holds s now n) := by
  cases f with
  | supertag tag includeInherited =>
    rw [test, Filter.holds]
    refine (accepted?_answers hs tag includeInherited).bind ?_
    cases found? (s.acceptedBy? tag includeInherited) with
    | none => exact Answers.pure _
    | some ids => exact Answers.pure _
  | property field op value =>
    rw [test, Filter.holds]
    refine (field?_answers hs field).bind ?_
    cases found? (s.findLiveId? field) with
    | none => exact Answers.pure _
    | some id => exact Answers.pure _
  | content query caseSensitive =>
    rw [test, Filter.holds]
    exact Answers.pure _
  | relation kind target field =>
    rw [test, Filter.holds]
    exact testRelation_answers hs n kind target field
  | temporal field op days date =>
    rw [test, Filter.holds]
    exact Answers.pure _
  | hasField field negate =>
    rw [test, Filter.holds]
    refine (field?_answers hs field).bind ?_
    cases found? (s.findLiveId? field) with
    | none => exact Answers.pure _
    | some id => exact Answers.pure _
  | and filters =>
    rw [test, Filter.holds]
    exact testAll_answers hs n filters
  | or filters =>
    rw [test, Filter.holds]
    exact testAny_answers hs n filters
  | not filters =>
    rw [test, Filter.holds]
    exact (testAny_answers hs n filters).bind (Answers.pure _)

theorem testAll_answers (hs : s.Sound) (n : AssembledNode) (filters : List Filter) :
    Answers (Known s) (testAll (s.scope now) n filters) (Filter.allHold s now n filters) := by
  cases filters with
  | nil =>
    rw [testAll, Filter.allHold]
    exact Answers.pure _
  | cons f rest =>
    rw [testAll, Filter.allHold]
    refine (test_answers hs n f).bind ?_
    -- The rest is not tested once a filter fails, and what it would say does not count.
    cases f.holds s now n with
    | false => exact Answers.pure _
    | true => exact testAll_answers hs n rest

theorem testAny_answers (hs : s.Sound) (n : AssembledNode) (filters : List Filter) :
    Answers (Known s) (testAny (s.scope now) n filters) (Filter.someHolds s now n filters) := by
  cases filters with
  | nil =>
    rw [testAny, Filter.someHolds]
    exact Answers.pure _
  | cons f rest =>
    rw [testAny, Filter.someHolds]
    refine (test_answers hs n f).bind ?_
    -- The rest is not tested once a filter holds.
    cases f.holds s now n with
    | true => exact Answers.pure _
    | false => exact testAny_answers hs n rest

end

/-- What a test answers does not depend on the nodes and filters that were tested before it. -/
theorem test_after (hs : s.Sound) (earlier : List (AssembledNode × Filter)) (n : AssembledNode)
    (f : Filter) :
    ∃ memo memo', (earlier.mapM fun e => test (s.scope now) e.1 e.2) .empty =
        .ok (earlier.map fun e => e.2.holds s now e.1, memo) ∧
      test (s.scope now) n f memo = .ok (f.holds s now n, memo') := by
  have hearlier : Answers (Known s) (earlier.mapM fun e => test (s.scope now) e.1 e.2)
      (earlier.map fun e => e.2.holds s now e.1) := Answers.mapM fun e _ => test_answers hs e.1 e.2
  obtain ⟨memo, hmemo, hknown⟩ := hearlier _ (known_empty s)
  have htest : Answers (Known s) (test (s.scope now) n f) (f.holds s now n) := test_answers hs n f
  obtain ⟨memo', hmemo', _⟩ := htest memo hknown
  exact ⟨memo, memo', hmemo, hmemo'⟩

/-! ## Answers -/

theorem select_answers (hs : s.Sound) (filters : List Filter) (nodes : List AssembledNode) :
    Answers (Known s) (select (s.scope now) filters nodes)
      (nodes.filter fun n => filters.all (Filter.holds s now n)) := by
  induction nodes with
  | nil => exact Answers.pure []
  | cons n rest ih =>
    rw [select, List.filter_cons, ← Filter.allHold_eq]
    refine (testAll_answers hs n filters).bind (ih.bind ?_)
    exact Answers.pure _

theorem sortKey_answers (hs : s.Sound) (field : String) :
    Answers (Known s) (sortKey (s.scope now) field) (s.sortKeyOf field) := by
  unfold sortKey
  split
  · exact Answers.pure _
  · exact Answers.pure _
  · exact Answers.pure _
  · next hcontent hcreated hupdated =>
    -- Any other name names a field, which is looked up once for all nodes.
    have hnamed : s.sortKeyOf field = fun n => (found? (s.findLiveId? field)).bind fun id =>
        (n.valuesByFieldId id).head?.bind SortKey.ofValue? := by
      funext n
      unfold Store.sortKeyOf
      split <;> simp_all
    rw [hnamed]
    refine (field?_answers hs field).bind ?_
    cases found? (s.findLiveId? field) with
    | none => exact Answers.pure _
    | some id => exact Answers.pure _

/-- Nodes are put in the order of the query. -/
theorem arrange_answers (hs : s.Sound) (now : Int) (sort : Option QuerySort)
    (nodes : List AssembledNode) :
    ∃ arrangement, Answers (Known s) (arrange (s.scope now) sort nodes) arrangement ∧
      s.Arranged sort nodes arrangement := by
  cases sort with
  | none => exact ⟨nodes, Answers.pure _, rfl⟩
  | some sort =>
    refine ⟨(RankedNode.sort sort.direction (s.ranked sort.field nodes)).map (·.node),
      (sortKey_answers hs sort.field).bind (Answers.pure _),
      RankedNode.sort sort.direction (s.ranked sort.field nodes), ?_, ?_, rfl⟩
    · exact RankedNode.sort_perm ..
    · exact RankedNode.sort_pairwise sort.direction (s.ranked_places_nodup sort.field nodes)

end Evaluating

namespace Store

variable {s : Store}

/-- The nodes that a query means are the same for every limit, and a page has the first ones. -/
theorem Sound.evaluate_eq (hs : s.Sound) (now : Int) (filters : List Filter)
    (sort : Option QuerySort) :
    ∃ arrangement, s.Arranged sort (s.matching now filters) arrangement ∧
      ∀ limit, (⟨filters, sort, limit⟩ : QueryDefinition).isValid = true →
        s.evaluate now ⟨filters, sort, limit⟩ =
          .ok ⟨arrangement.take limit.toNat, (s.matching now filters).length⟩ := by
  obtain ⟨arrangement, harrange, harranged⟩ :=
    Evaluating.arrange_answers hs now sort (s.matching now filters)
  refine ⟨arrangement, harranged, fun limit hvalid => ?_⟩
  have hfault : (⟨filters, sort, limit⟩ : QueryDefinition).fault? = none :=
    Option.isNone_iff_eq_none.mp hvalid
  have hanswer : Answers (Evaluating.Known s)
      (Evaluating.answer (s.scope now) ⟨filters, sort, limit⟩)
      ⟨arrangement.take limit.toNat, (s.matching now filters).length⟩ :=
    (Evaluating.select_answers hs filters s.joinedNodes).bind (harrange.bind (Answers.pure _))
  obtain ⟨memo, hmemo, _⟩ := hanswer _ (Evaluating.known_empty s)
  unfold evaluate
  rw [hfault, hs.assembleAll_eq]
  show (do return (← (Evaluating.answer (s.scope now) ⟨filters, sort, limit⟩) .empty).1 :
    Reading QueryPage) = _
  rw [hmemo]
  rfl

/-- The nodes of an arrangement of matching nodes are different ones. -/
theorem Sound.arranged_ids_nodup (hs : s.Sound) {now : Int} {filters : List Filter}
    {sort : Option QuerySort} {arrangement : List AssembledNode}
    (h : s.Arranged sort (s.matching now filters) arrangement) :
    (arrangement.map (·.id)).Nodup := by
  have hmatching : ((s.matching now filters).map (·.id)).Nodup :=
    hs.joinedNodes_ids_nodup.sublist (List.filter_sublist.map _)
  exact (h.perm.map _).nodup_iff.mpr hmatching

/-- What is answered is a valid definition. -/
theorem isValid_of_evaluate {now : Int} {d : QueryDefinition} {page : QueryPage}
    (h : s.evaluate now d = .ok page) : d.isValid = true := by
  unfold evaluate at h
  cases hfault : d.fault? with
  | none =>
    rw [QueryDefinition.isValid, hfault]
    rfl
  | some fault =>
    rw [hfault] at h
    cases h

/-- A valid definition is answered. -/
theorem Sound.exists_page (hs : s.Sound) (now : Int) {d : QueryDefinition}
    (hvalid : d.isValid = true) : ∃ page, s.evaluate now d = .ok page := by
  obtain ⟨_, -, hpages⟩ := hs.evaluate_eq now d.filters d.sort
  exact ⟨_, hpages d.limit hvalid⟩

/-- A page has at most as many nodes as are live. -/
theorem Sound.length_nodeIds_le_live (hs : s.Sound) {now : Int} {d : QueryDefinition}
    {page : QueryPage} (h : s.evaluate now d = .ok page) :
    page.nodeIds.length ≤ s.liveNodes.length := by
  have hvalid := isValid_of_evaluate h
  obtain ⟨arrangement, harranged, hpages⟩ := hs.evaluate_eq now d.filters d.sort
  obtain rfl := Except.ok.inj ((hpages d.limit hvalid).symm.trans h)
  calc ((arrangement.take d.limit.toNat).map (·.id)).length
      ≤ arrangement.length := by
        rw [List.length_map, List.length_take]
        exact Nat.min_le_right _ _
    _ = (s.matching now d.filters).length := harranged.perm.length_eq
    _ ≤ s.joinedNodes.length := List.length_filter_le _ _
    _ = s.liveNodes.length := List.length_map _

theorem length_liveNodes_le (s : Store) : s.liveNodes.length ≤ s.nodes.length :=
  calc s.liveNodes.length
      ≤ s.liveRecords.length := List.length_filterMap_le _ _
    _ ≤ s.recordsByCreation.length := List.length_filter_le _ _
    _ = s.nodes.length := List.length_mergeSort _

/-- A page has at most as many nodes as there are. -/
theorem Sound.length_nodeIds_le (hs : s.Sound) {now : Int} {d : QueryDefinition} {page : QueryPage}
    (h : s.evaluate now d = .ok page) : page.nodeIds.length ≤ s.nodes.length :=
  Nat.le_trans (hs.length_nodeIds_le_live h) s.length_liveNodes_le

/-- A page that has place for all live nodes tells those that all filters hold of. -/
theorem Sound.mem_nodeIds_iff (hs : s.Sound) {now : Int} {d : QueryDefinition} {page : QueryPage}
    (h : s.evaluate now d = .ok page) (hfits : s.liveNodes.length ≤ d.limit.toNat) {id : NodeId} :
    id ∈ page.nodeIds ↔ ∃ n ∈ s.liveNodes,
      d.filters.all (Filter.holds s now (s.joined n)) = true ∧ n.id = id := by
  have hvalid := isValid_of_evaluate h
  obtain ⟨arrangement, harranged, hpages⟩ := hs.evaluate_eq now d.filters d.sort
  obtain rfl := Except.ok.inj ((hpages d.limit hvalid).symm.trans h)
  have hall : arrangement.length ≤ d.limit.toNat := by
    have hmatching : (s.matching now d.filters).length ≤ s.joinedNodes.length :=
      List.length_filter_le _ _
    rw [joinedNodes, List.length_map] at hmatching
    rw [harranged.perm.length_eq]
    exact Nat.le_trans hmatching hfits
  rw [QueryPage.nodeIds, List.take_of_length_le hall, (harranged.perm.map _).mem_iff]
  simp only [matching, joinedNodes, List.mem_map, List.mem_filter]
  constructor
  · rintro ⟨_, ⟨⟨n, hn, rfl⟩, hholds⟩, rfl⟩
    exact ⟨n, hn, hholds, rfl⟩
  · rintro ⟨n, hn, hholds, rfl⟩
    exact ⟨s.joined n, ⟨⟨n, hn, rfl⟩, hholds⟩, rfl⟩

/-- A definition stays valid with a greater limit. -/
theorem isValid_of_limit_le {d : QueryDefinition} (hd : d.isValid = true) {larger : UInt64}
    (h : d.limit ≤ larger) : ({ d with limit := larger } : QueryDefinition).isValid = true := by
  unfold QueryDefinition.isValid QueryDefinition.fault? at hd ⊢
  by_cases hzero : d.limit = 0
  · simp [hzero] at hd
  · have hlarger : larger ≠ 0 := by
      rintro rfl
      exact hzero (UInt64.le_zero_iff.mp h)
    rw [if_neg hzero] at hd
    simpa [hlarger] using hd

/-- On every store that a run leaves, a valid query is answered: the count is that of the live nodes
that all filters hold of, and the page has the first of these in the order of the query, each once.
A greater limit makes the page longer at its end only. What a single test answers does not depend on
the tests before it. -/
theorem evaluate_run (steps : List Step) (now : Int) (d : QueryDefinition)
    (hd : d.isValid = true) :
    let s := Store.empty.run steps
    s.assembleAll = .ok s.joinedNodes ∧
    (∃ page, s.evaluate now d = .ok page ∧
      page.totalCount = (s.matching now d.filters).length ∧
      (∃ arrangement, s.Arranged d.sort (s.matching now d.filters) arrangement ∧
        page.nodes = arrangement.take d.limit.toNat) ∧
      page.nodeIds.Nodup ∧
      ∀ larger, d.limit ≤ larger →
        ∃ longer, s.evaluate now { d with limit := larger } = .ok longer ∧
          longer.totalCount = page.totalCount ∧ page.nodes <+: longer.nodes) ∧
    ∀ (earlier : List (AssembledNode × Filter)) (n : AssembledNode) (f : Filter),
      ∃ memo memo', (earlier.mapM fun e => Evaluating.test (s.scope now) e.1 e.2) .empty =
          .ok (earlier.map fun e => e.2.holds s now e.1, memo) ∧
        Evaluating.test (s.scope now) n f memo = .ok (f.holds s now n, memo') := by
  intro s
  have hs : s.Sound := empty_sound.run steps
  obtain ⟨arrangement, harranged, hpages⟩ := hs.evaluate_eq now d.filters d.sort
  refine ⟨hs.assembleAll_eq, ⟨_, hpages d.limit hd, rfl, ⟨arrangement, harranged, rfl⟩, ?_, ?_⟩,
    Evaluating.test_after hs⟩
  · exact (hs.arranged_ids_nodup harranged).sublist ((List.take_sublist ..).map _)
  · intro larger hle
    refine ⟨_, hpages larger (isValid_of_limit_le hd hle), rfl, ?_⟩
    exact List.take_prefix_take_left hle

/-- A query by content after a node has been created. -/
theorem evaluate_run_content :
    let steps : List Step := [⟨5, .graph (.createNode ⟨default, "milk", none, none, []⟩)⟩]
    let d : QueryDefinition := ⟨[.not [.content "bread" false]], some ⟨"content", .desc⟩, 1⟩
    d.isValid = true ∧ ∃ page, (Store.empty.run steps).evaluate 7 d = .ok page ∧
      page.totalCount = ((Store.empty.run steps).matching 7 d.filters).length := by
  intro steps d
  have hd : d.isValid = true := by decide
  obtain ⟨_, ⟨page, hpage, htotal, _⟩, _⟩ := evaluate_run steps 7 d hd
  exact ⟨hd, page, hpage, htotal⟩

end Store

end TagGraph
