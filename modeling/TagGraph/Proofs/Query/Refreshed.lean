import TagGraph.Proofs.Query.Seeded

/-!
# A refresh and the answer after it

A refresh keeps the identifiers of its answer as references of the saved query. So the query may
refer to other nodes than before, and a filter for links without a field counts these references
too: the answer of the query can change by being kept (`Store.not_runSaved_again`). It does not
change if the filters name no field of a kept answer, and if those for links without a field hold of
the same nodes whether the query refers to what it did or to what it will
(`Store.runSaved_again`).
-/

namespace TagGraph

open Reading

namespace Store

open Edit (IsCacheField)

variable {s s' : Store} {q : NodeId} {ids : List NodeId}

/-! ## References of a query -/

/-- A text names one of the fields of kept answers, by handle or identifier. -/
def NamesCache (s : Store) (name : String) : Prop :=
  ∃ field, s.findLiveId? name = .ok (some field) ∧ s.HasOneOf IsCacheField field

/-- A query links to a node once `ids` are kept as its answer: the node is one of these, or the
query refers to it in a field that is not one of the kept answer. -/
def WillLink (s : Store) (q : NodeId) (ids : List NodeId) (id : NodeId) : Prop :=
  id ∈ ids ∨ s.Refers (fun field => s.Counts none field ∧ ¬ s.HasOneOf IsCacheField field) q id

/-- A relation without a field is between the same nodes once `ids` are kept as the answer of a
query, although the query then links to other nodes. -/
def KeepsLinks (s : Store) (q : NodeId) (ids : List NodeId) (kind : RelationKind)
    (target : Option NodeId) : Prop :=
  match kind, target with
  | .childOf, _ | .ownedBy, _ => True
  | .linksTo, some target => s.WillLink q ids target ↔ s.Links q target
  | .linksTo, none => (∃ id, s.WillLink q ids id) ↔ ∃ id, s.Links q id
  | .linkedFrom, some target =>
    target = q → ∀ id, s.IsLive id → (s.WillLink q ids id ↔ s.Links q id)
  | .linkedFrom, none =>
    ∀ id, s.IsLive id → (∀ m, m ≠ q → s.IsLive m → ¬ s.Links m id) →
      (s.WillLink q ids id ↔ s.Links q id)

/-! ## Steady queries -/

mutual

/-- A filter that means the same once `ids` are kept as the answer of a query. -/
def SteadyFilter (s : Store) (q : NodeId) (ids : List NodeId) : Filter → Prop
  | .supertag _ _ | .content _ _ => True
  | .property field _ _ | .hasField field _ | .relation _ _ (some field) => ¬ s.NamesCache field
  | .relation kind target none => ∀ t ∈ s.named? target, s.KeepsLinks q ids kind t
  | .temporal _ _ _ _ => False
  | .and filters | .or filters | .not filters => SteadyFilters s q ids filters

/-- Filters that mean the same once `ids` are kept as the answer of a query. -/
def SteadyFilters (s : Store) (q : NodeId) (ids : List NodeId) : List Filter → Prop
  | [] => True
  | f :: rest => SteadyFilter s q ids f ∧ SteadyFilters s q ids rest

end

/-- A definition whose filters mean the same once `ids` are kept as the answer of a query, and that
does not sort by times of change or by a field of kept answers. -/
structure Steady (s : Store) (q : NodeId) (ids : List NodeId) (d : QueryDefinition) : Prop where
  filters : s.SteadyFilters q ids d.filters
  sort : ∀ sort ∈ d.sort, sort.field ≠ "updatedAt" ∧ ¬ s.NamesCache sort.field

/-! ## What a refresh leaves -/

/-- A store has kept `ids` as the answer of a query, and shows what was there before beside that. -/
structure Refreshed (q : NodeId) (ids : List NodeId) (s s' : Store) : Prop
    extends AgreesBeside q (s.HasOneOf IsCacheField) s s' where
  kept : ∀ id, s'.Refers (s.HasOneOf IsCacheField) q id ↔ id ∈ ids

theorem refreshed_of_keepCache (hs : s.Sound) (hc : s.Counted) {now : Int}
    (h : Edit.keepCache now q ids s = .ok () s') : s.Refreshed q ids s' := by
  obtain ⟨hlive, ⟨raw, hraw, htime⟩, hids⟩ := keepCache_leaves hs hc h
  obtain ⟨_, t, hfirst, hsecond⟩ := Edit.ok_of_bind h
  -- First the identifiers are written, then the time; each leaves everything beside its field.
  have hwrites := AgreesBeside.of_editsField
    (Edit.setPropertyValues_editsField now q Handle.fieldResultCache (ids.map .node) s)
    (Edit.setPropertyValues_respects .changes now q _ _) hs isName_fieldResultCache
  rw [Edit.after_of_ok hfirst] at hwrites
  have hstamps := AgreesBeside.of_editsField
    (Edit.setProperty_editsField now q Handle.fieldEvaluatedAt (.ofInt now) none t)
    (Edit.setProperty_respects .changes now q _ _ none) hwrites.sound isName_fieldEvaluatedAt
  rw [Edit.after_of_ok hsecond] at hstamps
  have hagrees : AgreesBeside q (s.HasOneOf IsCacheField) s s' :=
    (hwrites.mono fun f hf => ⟨_, Or.inl rfl, hf⟩).trans
      (hstamps.mono fun f hf => ⟨_, Or.inr rfl, (hwrites.holds _ _).mp hf⟩)
  have hlinked (id : NodeId) : (∃ raw ∈ s'.textsIn q Handle.fieldResultCache,
      id ∈ PropertyValue.referencedIn raw) ↔ id ∈ ids := by
    rw [← mem_referenced_of_texts, filterMap_decode_references hids]
  refine ⟨hagrees, fun id => ⟨?_, fun hid => ?_⟩⟩
  · rintro ⟨field, ⟨handle, hcache, hfield⟩, -, text, htext, hid⟩
    have hfield' := (hagrees.holds _ _).mpr hfield
    rcases hcache with rfl | rfl
    · rw [← textsIn_of_holds hagrees.sound isName_fieldResultCache hfield'] at htext
      exact (hlinked id).mp ⟨text, htext, hid⟩
    · -- The time of the answer is no reference.
      rw [← textsIn_of_holds hagrees.sound isName_fieldEvaluatedAt hfield', htime,
        List.mem_singleton] at htext
      have hdecode : PropertyValue.decode? raw = some (PropertyValue.ofInt now).reread :=
        PropertyValue.decode?_of_encode? hraw
      rw [htext, PropertyValue.referencedIn, hdecode] at hid
      cases hid
  · obtain ⟨text, htext, hid⟩ := (hlinked id).mpr hid
    obtain ⟨field, hfield'⟩ := (hasField_iff hagrees.sound isName_fieldResultCache).mp
      (hasField_of_textsIn (List.ne_nil_of_mem htext))
    rw [textsIn_of_holds hagrees.sound isName_fieldResultCache hfield'] at htext
    exact ⟨field, ⟨_, Or.inl rfl, (hagrees.holds _ _).mp hfield'⟩,
      hagrees.sound.isLive_iff.mpr ⟨_, hfield'⟩, text, htext, hid⟩

namespace Refreshed

variable (h : s.Refreshed q ids s') (hs : s.Sound)

include h hs

/-! ## Links after a refresh -/

/-- The query links to what it was said to. -/
theorem links_self_iff (id : NodeId) : s'.Links q id ↔ s.WillLink q ids id := by
  -- The fields of a kept answer count, as neither of them is `field:supertag`.
  have hcounts (field : NodeId) :
      s.Counts none field ∧ s.HasOneOf IsCacheField field ↔ s.HasOneOf IsCacheField field :=
    and_iff_right_of_imp fun hcache => hcache.not_holds hs Edit.not_isCacheField_supertag
  rw [Links, h.counts_eq, h.refers_self_iff hs]
  simp only [hcounts]
  rw [h.kept, WillLink]

/-- Other nodes link to what they did. -/
theorem links_iff {node : NodeId} (hne : node ≠ q) (id : NodeId) :
    s'.Links node id ↔ s.Links node id := by
  rw [Links, h.counts_eq]
  exact h.toAgreesBeside.refers_iff hs (fun heq => absurd heq hne) id

/-- A relation without a field is between the same nodes if it is one that keeps its links. -/
theorem related_iff {kind : RelationKind} {target : Option NodeId}
    (hkeeps : s.KeepsLinks q ids kind target) {n n' : Node} (hn : n ∈ s.liveNodes)
    (hsame : n'.undated = n.undated) :
    s'.Related s'.Links n' kind target ↔ s.Related s.Links n kind target := by
  obtain ⟨hid, -, howner, -⟩ := Node.of_undated hsame
  have hlive := hs.isLive_of_mem_liveNodes hn
  cases kind with
  | childOf => cases target <;> simp only [Related, howner]
  | ownedBy => cases target <;> simp only [Related, howner]
  | linksTo =>
    by_cases hq : n.id = q
    · cases target with
      | some target =>
        simp only [Related, hid, hq, h.links_self_iff hs]
        exact hkeeps
      | none =>
        simp only [Related, hid, hq, h.links_self_iff hs]
        exact hkeeps
    · cases target <;> simp only [Related, hid, h.links_iff hs hq]
  | linkedFrom =>
    cases target with
    | some target =>
      simp only [Related, hid, h.isLive_iff hs]
      refine and_congr_right fun _ => ?_
      by_cases hq : target = q
      · rw [hq, h.links_self_iff hs]
        exact hkeeps hq n.id hlive
      · exact h.links_iff hs hq n.id
    | none =>
      simp only [Related, hid, h.isLive_iff hs]
      by_cases hother : ∃ m, m ≠ q ∧ s.IsLive m ∧ s.Links m n.id
      · obtain ⟨m, hne, hm, hlinks⟩ := hother
        exact iff_of_true ⟨m, hm, (h.links_iff hs hne n.id).mpr hlinks⟩ ⟨m, hm, hlinks⟩
      · -- Nobody but the query can link to the node, before and after.
        push Not at hother
        refine exists_congr fun m => and_congr_right fun hm => ?_
        by_cases hne : m = q
        · rw [hne, h.links_self_iff hs]
          exact hkeeps n.id hlive hother
        · exact h.links_iff hs hne n.id

/-- Only those are. -/
theorem keepsLinks_of_related (hlive : s.IsLive q) {kind : RelationKind} {target : Option NodeId}
    (hrelated : ∀ n ∈ s.liveNodes, ∃ n', n'.id = n.id ∧
      (s'.Related s'.Links n' kind target ↔ s.Related s.Links n kind target)) :
    s.KeepsLinks q ids kind target := by
  have hof {id : NodeId} (hid : s.IsLive id) : ∃ n n' : Node, n.id = id ∧ n'.id = id ∧
      (s'.Related s'.Links n' kind target ↔ s.Related s.Links n kind target) := by
    obtain ⟨n, hfound⟩ := hid
    obtain ⟨hn, rfl⟩ := hs.node?_eq_some_iff.mp hfound
    obtain ⟨n', hid, hiff⟩ := hrelated n hn
    exact ⟨n, n', rfl, hid, hiff⟩
  cases kind with
  | childOf | ownedBy => exact trivial
  | linksTo =>
    obtain ⟨n, n', hid, hid', hiff⟩ := hof hlive
    cases target with
    | some target =>
      simp only [Related, hid, hid', h.links_self_iff hs] at hiff
      exact hiff
    | none =>
      simp only [Related, hid, hid', h.links_self_iff hs] at hiff
      exact hiff
  | linkedFrom =>
    cases target with
    | some target =>
      rintro rfl id hid
      obtain ⟨n, n', rfl, hid', hiff⟩ := hof hid
      simpa only [Related, hid', h.links_self_iff hs, h.isLive_iff hs, hlive, true_and] using hiff
    | none =>
      intro id hid hother
      obtain ⟨n, n', rfl, hid', hiff⟩ := hof hid
      simp only [Related, hid', h.isLive_iff hs] at hiff
      -- Nobody but the query links to the node, so that it is the one that does.
      constructor
      · intro hwill
        obtain ⟨m, hm, hlinks⟩ := hiff.mp ⟨q, hlive, (h.links_self_iff hs n.id).mpr hwill⟩
        by_cases hne : m = q
        · exact hne ▸ hlinks
        · exact absurd hlinks (hother m hne hm)
      · intro hlinks
        obtain ⟨m, hm, hlinks'⟩ := hiff.mpr ⟨q, hlive, hlinks⟩
        by_cases hne : m = q
        · exact (h.links_self_iff hs n.id).mp (hne ▸ hlinks')
        · exact absurd ((h.links_iff hs hne n.id).mp hlinks') (hother m hne hm)

/-! ## Filters after a refresh -/

theorem relates_eq {kind : RelationKind} {target field : Option NodeId} {n n' : Node}
    (hn : n ∈ s.liveNodes) (hsame : n'.undated = n.undated)
    (hfield : ∀ f ∈ field, ¬ s.HasOneOf IsCacheField f)
    (hkeeps : field = none → s.KeepsLinks q ids kind target) :
    s'.relates (s'.joined n') kind target field = s.relates (s.joined n) kind target field := by
  rw [Bool.eq_iff_iff, h.sound.relates_joined_iff, hs.relates_joined_iff]
  cases field with
  | none => exact h.related_iff hs (hkeeps rfl) hn hsame
  | some field =>
    have hrefers := h.refers_some_iff hs (hfield field rfl)
    exact h.toAgreesBeside.related_iff hs hrefers hsame kind target

/-- A field that a name stands for keeps its values, unless the name is one of a kept answer. -/
theorem values_eq {name : String} (hname : ¬ s.NamesCache name) {field : NodeId}
    (hfound : found? (s.findLiveId? name) = some field) {n n' : Node}
    (hsame : n'.undated = n.undated) :
    (s'.joined n').valuesByFieldId field = (s.joined n).valuesByFieldId field := by
  exact h.valuesByFieldId_eq hs (Node.of_undated hsame).1 fun hcache =>
    hname ⟨field, hs.findLiveId?_of_found hfound, hcache⟩

theorem sortKeyOf_eq {field : String} (htime : field ≠ "updatedAt") (hname : ¬ s.NamesCache field)
    {n n' : Node} (hsame : n'.undated = n.undated) :
    s'.sortKeyOf field (s'.joined n') = s.sortKeyOf field (s.joined n) := by
  obtain ⟨-, hcontent, -, hcreated⟩ := Node.of_undated hsame
  unfold sortKeyOf
  split
  · rw [joined_content, joined_content, hcontent]
  · rw [joined_createdAt, joined_createdAt, hcreated]
  · exact absurd rfl htime
  · rw [h.findLiveId?_eq hs]
    cases hfound : found? (s.findLiveId? field) with
    | none => rw [Option.bind_none, Option.bind_none]
    | some id => simp only [Option.bind_some, h.values_eq hs hname hfound hsame]

omit h hs in
mutual

/-- A steady filter means the same for a node after the refresh, at whatever time. -/
theorem holds_eq (h : s.Refreshed q ids s') (hs : s.Sound) {n n' : Node} (hn : n ∈ s.liveNodes)
    (hsame : n'.undated = n.undated) (now later : Int) (f : Filter)
    (hf : s.SteadyFilter q ids f) :
    Filter.holds s' later (s'.joined n') f = Filter.holds s now (s.joined n) f := by
  obtain ⟨hid, hcontent, -, -⟩ := Node.of_undated hsame
  cases f with
  | supertag tag includeInherited =>
    exact h.holds_supertag hs (fun _ hcache => hcache.not_holds hs Edit.not_isCacheField_supertag)
      (fun _ hcache => hcache.not_holds hs Edit.not_isCacheField_extends) hid now later tag
      includeInherited
  | property field op value =>
    rw [SteadyFilter] at hf
    rw [Filter.holds, Filter.holds, h.findLiveId?_eq hs]
    cases hfound : found? (s.findLiveId? field) with
    | none => rw [Option.any_none, Option.any_none]
    | some id => simp only [Option.any_some, h.values_eq hs hf hfound hsame]
  | content query caseSensitive =>
    rw [Filter.holds, Filter.holds, joined_content, joined_content, hcontent]
  | relation kind target field =>
    rw [Filter.holds, Filter.holds, h.named?_eq hs, h.named?_eq hs]
    cases htarget : s.named? target with
    | none => rw [Option.any_none, Option.any_none]
    | some t =>
      cases field with
      | none =>
        rw [SteadyFilter] at hf
        exact h.relates_eq hs hn hsame (fun _ hnone => nomatch hnone) fun _ => hf t htarget
      | some name =>
        rw [SteadyFilter] at hf
        cases hfound : found? (s.findLiveId? name) with
        | none => simp only [named?, hfound, Option.map_none, Option.any_none]
        | some field =>
          simp only [named?, hfound, Option.map_some, Option.any_some]
          refine h.relates_eq hs hn hsame (fun f hf' hcache => ?_) fun hnone => nomatch hnone
          obtain rfl := Option.some.inj hf'
          exact hf ⟨field, hs.findLiveId?_of_found hfound, hcache⟩
  | temporal field op days date =>
    rw [SteadyFilter] at hf
    exact absurd hf not_false
  | hasField field negate =>
    rw [SteadyFilter] at hf
    rw [Filter.holds, Filter.holds, h.findLiveId?_eq hs]
    cases hfound : found? (s.findLiveId? field) with
    | none => rw [Option.any_none, Option.any_none]
    | some id => simp only [Option.any_some, h.values_eq hs hf hfound hsame]
  | and filters =>
    rw [SteadyFilter] at hf
    rw [Filter.holds, Filter.holds, (allHold_eq h hs hn hsame now later filters hf).1]
  | or filters =>
    rw [SteadyFilter] at hf
    rw [Filter.holds, Filter.holds, (allHold_eq h hs hn hsame now later filters hf).2]
  | not filters =>
    rw [SteadyFilter] at hf
    rw [Filter.holds, Filter.holds, (allHold_eq h hs hn hsame now later filters hf).2]

theorem allHold_eq (h : s.Refreshed q ids s') (hs : s.Sound) {n n' : Node} (hn : n ∈ s.liveNodes)
    (hsame : n'.undated = n.undated) (now later : Int) (filters : List Filter)
    (hf : s.SteadyFilters q ids filters) :
    Filter.allHold s' later (s'.joined n') filters = Filter.allHold s now (s.joined n) filters ∧
      Filter.someHolds s' later (s'.joined n') filters =
        Filter.someHolds s now (s.joined n) filters := by
  cases filters with
  | nil =>
    constructor
    · rw [Filter.allHold, Filter.allHold]
    · rw [Filter.someHolds, Filter.someHolds]
  | cons f rest =>
    rw [SteadyFilters] at hf
    obtain ⟨hall, hsome⟩ := allHold_eq h hs hn hsame now later rest hf.2
    have hfirst := holds_eq h hs hn hsame now later f hf.1
    constructor
    · rw [Filter.allHold, Filter.allHold, hfirst, hall]
    · rw [Filter.someHolds, Filter.someHolds, hfirst, hsome]

end

/-- A filter for a relation without a field is steady exactly if it holds of the same live nodes
after the refresh. -/
theorem steadyFilter_relation_iff (hlive : s.IsLive q) (now later : Int) (kind : RelationKind)
    (target : Option String) : s.SteadyFilter q ids (.relation kind target none) ↔
      ∀ n ∈ s.joinedNodes, ∀ n' ∈ s'.joinedNodes, n'.id = n.id →
        Filter.holds s' later n' (.relation kind target none) =
          Filter.holds s now n (.relation kind target none) := by
  simp only [joinedNodes, List.forall_mem_map, joined_id]
  constructor
  · intro hsteady n hn n' hn' hid
    exact h.holds_eq hs hn (h.undated_of_id hn hn' hid) now later _ hsteady
  · intro hsame
    rw [SteadyFilter]
    refine fun t ht => h.keepsLinks_of_related hs hlive fun n hn => ?_
    obtain ⟨n', hn', hundated⟩ := List.mem_map.mp (h.nodes ▸ List.mem_map_of_mem hn)
    have hid := (Node.of_undated hundated).1
    have hiff := Bool.eq_iff_iff.mp (hsame n hn n' hn' hid)
    have ht' : s'.named? target = some t := (h.named?_eq hs target).trans ht
    rw [h.sound.holds_relation_iff ht', hs.holds_relation_iff ht] at hiff
    exact ⟨n', hid, hiff⟩

/-! ## The answer after a refresh -/

theorem loadQuery?_eq (hlive : s.IsLive q) : s'.loadQuery? q = s.loadQuery? q := by
  have htexts := h.textsIn_eq hs isName_fieldQueryDefinition
    (fun _ hcache => hcache.not_holds hs Edit.not_isCacheField_queryDefinition) q
  have hvalue : s'.value? q Handle.fieldQueryDefinition =
      s.value? q Handle.fieldQueryDefinition := by
    rw [value?, value?, h.sound.values_eq_textsIn _ ((h.isLive_iff hs q).mpr hlive),
      hs.values_eq_textsIn _ hlive, htexts]
  rw [loadQuery?, loadQuery?, hvalue]

/-- A steady query has the same answer after the refresh, at whatever time. -/
theorem evaluate_eq {d : QueryDefinition} (hsteady : s.Steady q ids d) {now : Int}
    {page : QueryPage} (hpage : s.evaluate now d = .ok page) (later : Int) :
    ∃ page', s'.evaluate later d = .ok page' ∧ page'.nodeIds = page.nodeIds ∧
      page'.totalCount = page.totalCount := by
  refine h.toAgreesBeside.evaluate_eq hs hpage (fun n hn n' hsame => ?_)
    fun sort hsort n n' hsame => ?_
  · rw [← Filter.allHold_eq, ← Filter.allHold_eq]
    exact (allHold_eq h hs hn hsame now later d.filters hsteady.filters).1
  · obtain ⟨htime, hname⟩ := hsteady.sort sort hsort
    exact h.sortKeyOf_eq hs htime hname hsame

end Refreshed

/-- On every store that a run leaves, if a query is refreshed, then it gives the same nodes in the
same order after that, and the same number of them, at whatever time, provided that its definition
does not name the fields of a kept answer, that it does not ask for times of change, and that its
filters for links without a field keep their links. A filter does so exactly if it holds of the same
nodes after the refresh as before. -/
theorem runSaved_again (steps : List Step) (now later : Int) (q : NodeId) (d : QueryDefinition)
    (page : QueryPage) (s' : Store)
    (hload : (Store.empty.run steps).loadQuery? q = .ok (some d))
    (hrun : Edit.runSaved now q true (Store.empty.run steps) = .ok page s') :
    ((Store.empty.run steps).Steady q page.nodeIds d →
      ∃ page', Edit.runSaved later q false s' = .ok page' s' ∧ page'.nodeIds = page.nodeIds ∧
        page'.totalCount = page.totalCount) ∧
    ∀ kind target,
      (Store.empty.run steps).SteadyFilter q page.nodeIds (.relation kind target none) ↔
        ∀ n ∈ (Store.empty.run steps).joinedNodes, ∀ n' ∈ s'.joinedNodes, n'.id = n.id →
          Filter.holds s' later n' (.relation kind target none) =
            Filter.holds (Store.empty.run steps) now n (.relation kind target none) := by
  have hs : (Store.empty.run steps).Sound := empty_sound.run steps
  obtain ⟨hanswer, hkeep⟩ := runSaved_ok hrun
  have hrefreshed := refreshed_of_keepCache hs (empty_counted.run empty_sound steps) hkeep
  have hlive := isLive_of_evaluateSaved hanswer
  refine ⟨fun hsteady => ?_, hrefreshed.steadyFilter_relation_iff hs hlive now later⟩
  -- The definition is in none of the fields that have been written, and is loaded again.
  rw [evaluateSaved_of_loaded hlive hload] at hanswer
  obtain ⟨page', hpage', hids, htotal⟩ := hrefreshed.evaluate_eq hs hsteady hanswer later
  refine ⟨page', runSaved_look_iff.mpr ?_, hids, htotal⟩
  rw [evaluateSaved_of_loaded ((hrefreshed.isLive_iff hs q).mpr hlive)
    ((hrefreshed.loadQuery?_eq hs hlive).trans hload), hpage']

/-- A query for the nodes that the supertag of tasks links to, by name, is refreshed on a freshly
seeded store. -/
theorem runSaved_again_extended :
    let d : QueryDefinition :=
      ⟨[.relation .linkedFrom (some Handle.supertagTask) none], some ⟨"content", .asc⟩, 500⟩
    ∃ q page s',
      let s := Store.empty.run [⟨7, .bootstrap Seeding.supply⟩, ⟨8, .query (.save q d)⟩]
      s.loadQuery? q = .ok (some d) ∧ Edit.runSaved 9 q true s = .ok page s' ∧
        s.Steady q page.nodeIds d ∧
        ∃ page', Edit.runSaved 10 q false s' = .ok page' s' ∧ page'.nodeIds = page.nodeIds ∧
          page'.totalCount = page.totalCount := by
  intro d
  obtain ⟨summary, start, q, hstart, hq, hsaved, hholds⟩ := exists_freshlySaved 7 8
    Seeding.supply_distinct
    (show Handle.queryOpenTasks ∈ Catalogue.queries.map (·.systemId) by decide)
    (show d.isValid = true by decide +kernel) (show d.toJson.depth ≤ 126 by decide +kernel)
    (show d.ReadsBack by decide +kernel)
  rw [← run_bootstrap hstart] at hsaved hholds
  obtain ⟨page, s', hrun⟩ := hsaved.refreshed 9
  have hname : IsName Handle.supertagTask := ⟨by decide +kernel, by decide +kernel⟩
  have hcontent : IsName "content" := ⟨by decide +kernel, by decide +kernel⟩
  have hsteady : (Store.empty.run [⟨7, .bootstrap Seeding.supply⟩, ⟨8, .query (.save q d)⟩]).Steady q
      page.nodeIds d := by
    refine ⟨⟨fun t ht => ?_, trivial⟩, fun sort hsort => ?_⟩
    · -- The supertag is another node than the query.
      obtain ⟨tag, htag, rfl⟩ := Option.map_eq_some_iff.mp ht
      rintro rfl
      have htask := hsaved.sound.holds_of_findLiveId? hname (hsaved.sound.findLiveId?_of_found htag)
      have hhandle := hsaved.sound.handle_unique htask ((hholds _ _).mpr hq)
      exact absurd hhandle (by decide)
    · obtain rfl := Option.some.inj hsort
      refine ⟨by decide, fun ⟨field, hfound, hcache⟩ => ?_⟩
      exact hcache.not_holds hsaved.sound (not_or.mpr ⟨by decide, by decide⟩)
        (hsaved.sound.holds_of_findLiveId? hcontent hfound)
  exact ⟨q, page, s', hsaved.loaded, hrun, hsteady,
    (runSaved_again _ 9 10 q d page s' hsaved.loaded hrun).1 hsteady⟩

/-- The query for the nodes that link to nothing. -/
def linkingToNothing : QueryDefinition :=
  ⟨[.not [.relation .linksTo none none]], none, 500⟩

theorem Sound.mem_nodeIds_linkingToNothing (hs : s.Sound) {now : Int} {page : QueryPage}
    (h : s.evaluate now linkingToNothing = .ok page) (hfits : s.liveNodes.length ≤ 500)
    {id : NodeId} : id ∈ page.nodeIds ↔ s.IsLive id ∧ ∀ other, ¬ s.Links id other := by
  have hmatches (n : Node) : linkingToNothing.filters.all (Filter.holds s now (s.joined n)) = true ↔
      ∀ other, ¬ s.Links n.id other := by
    rw [linkingToNothing, List.all_cons, List.all_nil, Bool.and_true, Filter.holds_not,
      List.all_cons, List.all_nil, Bool.and_true, Bool.not_eq_true', Bool.eq_false_iff, ne_eq,
      hs.holds_relation_iff rfl]
    exact not_exists
  rw [hs.mem_nodeIds_iff h hfits]
  simp only [hmatches]
  constructor
  · rintro ⟨n, hn, hnothing, rfl⟩
    exact ⟨hs.isLive_of_mem_liveNodes hn, hnothing⟩
  · rintro ⟨⟨n, hfound⟩, hnothing⟩
    obtain ⟨hn, rfl⟩ := hs.node?_eq_some_iff.mp hfound
    exact ⟨n, hn, hnothing, rfl⟩

/-- The query for the nodes that link to nothing, on a freshly seeded store, is one of them until it
is refreshed: then it links to the nodes of its answer. -/
theorem not_runSaved_again :
    ∃ summary start q page s' page',
      let s := start.run [⟨8, .query (.save q linkingToNothing)⟩]
      Edit.bootstrap 7 Seeding.supply Store.empty = .ok summary start ∧
      s.loadQuery? q = .ok (some linkingToNothing) ∧ Edit.runSaved 9 q true s = .ok page s' ∧
      Edit.runSaved 9 q false s' = .ok page' s' ∧ q ∈ page.nodeIds ∧ q ∉ page'.nodeIds := by
  have hvalid : linkingToNothing.isValid = true := by decide +kernel
  obtain ⟨summary, start, q, hstart, -, hsaved, -⟩ := exists_freshlySaved 7 8
    Seeding.supply_distinct
    (show Handle.queryOpenTasks ∈ Catalogue.queries.map (·.systemId) by decide) hvalid
    (show linkingToNothing.toJson.depth ≤ 126 by decide +kernel)
    (show linkingToNothing.ReadsBack by decide +kernel)
  obtain ⟨page, s', hrun⟩ := hsaved.refreshed 9
  have hs := hsaved.sound
  have hlive := hsaved.live
  have hcounted : (start.run [⟨8, .query (.save q linkingToNothing)⟩]).Counted := by
    rw [← run_bootstrap hstart]
    exact empty_counted.run empty_sound _
  obtain ⟨hanswer, hkeep⟩ := runSaved_ok hrun
  have hrefreshed := refreshed_of_keepCache hs hcounted hkeep
  rw [evaluateSaved_of_loaded hlive hsaved.loaded] at hanswer
  obtain ⟨page', hpage'⟩ := hrefreshed.sound.exists_page 9 hvalid
  have hanswer' : s'.evaluateSaved 9 q = .ok page' :=
    (evaluateSaved_of_loaded ((hrefreshed.isLive_iff hs q).mpr hlive)
      ((hrefreshed.loadQuery?_eq hs hlive).trans hsaved.loaded)).trans hpage'
  have hfew : s'.liveNodes.length ≤ 35 := hrefreshed.length_liveNodes_eq ▸ hsaved.few
  have hfound : q ∈ page.nodeIds :=
    (hs.mem_nodeIds_linkingToNothing hanswer (Nat.le_trans hsaved.few (by decide))).mpr
      ⟨hlive, hsaved.linksNothing⟩
  refine ⟨summary, start, q, page, s', page', hstart, hsaved.loaded, hrun,
    runSaved_look_iff.mpr hanswer', hfound, fun hfound' => ?_⟩
  -- After the refresh the query links to itself.
  obtain ⟨-, hnothing⟩ := (hrefreshed.sound.mem_nodeIds_linkingToNothing hpage'
    (Nat.le_trans hfew (by decide))).mp hfound'
  exact hnothing q ((hrefreshed.links_self_iff hs q).mpr (Or.inl hfound))

end Store

end TagGraph
