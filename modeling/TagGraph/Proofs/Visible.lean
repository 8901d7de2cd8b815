import TagGraph.Command
import TagGraph.Item
import TagGraph.Proofs.Inheritance.Cycles
import TagGraph.Proofs.Query.Evaluation
import TagGraph.Query.Saved
import TagGraph.Tag

/-!
# What readings show

Whatever way a sound store is read, the nodes that it shows are live, and so are the supertags that
they are shown with (`Store.Shows`). A node that is not live is therefore hidden from every reading
(`Store.Hides`, `Store.Sound.hides_of_not_isLive`).
-/

namespace TagGraph

open Reading

/-- Leaving out the later supertags of one identifier adds none. -/
theorem distinctTags_subset (tags : List SupertagRef) : distinctTags tags ⊆ tags := by
  have hfold : ∀ kept : List SupertagRef, tags.foldl
      (fun kept t => if kept.any (·.id == t.id) then kept else kept ++ [t]) kept ⊆
        kept ++ tags := by
    induction tags with
    | nil =>
      intro kept
      rw [List.append_nil]
      exact List.Subset.refl kept
    | cons t rest ih =>
      intro kept tag htag
      have hmem := ih _ htag
      dsimp only at hmem
      rw [List.mem_append] at hmem ⊢
      by_cases hknown : kept.any (·.id == t.id) = true
      · rw [if_pos hknown] at hmem
        exact hmem.imp_right (List.mem_cons_of_mem t)
      · rw [if_neg hknown, List.mem_append, List.mem_singleton] at hmem
        rcases hmem with (hkept | rfl) | hrest
        · exact Or.inl hkept
        · exact Or.inr List.mem_cons_self
        · exact Or.inr (List.mem_cons_of_mem t hrest)
  exact hfold []

namespace Store

/-- A node as readings show it: live, with live supertags. -/
structure Shows (s : Store) (node : AssembledNode) : Prop where
  live : s.IsLive node.id
  supertags : ∀ tag ∈ node.supertags, s.IsLive tag.id

namespace Sound

variable {s : Store}

/-! ## Single nodes -/

theorem isLive_of_mem_liveNodes (hs : s.Sound) {n : Node} (h : n ∈ s.liveNodes) : s.IsLive n.id :=
  ⟨n, hs.node?_eq_some_iff.mpr ⟨h, rfl⟩⟩

theorem isLive_of_findLive? (hs : s.Sound) {name : String} {n : Node}
    (h : s.findLive? name = .ok (some n)) : s.IsLive n.id :=
  hs.isLive_of_mem_liveNodes (hs.findLive?_eq_some_iff.mp h).1

/-- A supertag that is looked up is told of the live node that it is. -/
theorem exists_node_of_mem_liveTags (hs : s.Sound) {ids : List NodeId} {tag : SupertagRef}
    (h : tag ∈ s.liveTags ids) : ∃ m ∈ s.liveNodes, tag = ⟨m.id, m.systemId, m.content⟩ := by
  obtain ⟨id, -, htag⟩ := List.mem_flatMap.mp h
  obtain ⟨found, hfound⟩ := hs.node?_succeeds id
  have href : s.supertagRef? id =
      .ok (found.map fun node => ⟨node.id, node.systemId, node.content⟩) := by
    rw [supertagRef?, hfound]
    rfl
  rw [href, found?_ok, Option.mem_toList, Option.map_eq_some_iff] at htag
  obtain ⟨node, rfl, rfl⟩ := htag
  exact ⟨node, (hs.node?_eq_some_iff.mp hfound).1, rfl⟩

/-- The supertags that a node is joined with are told of live nodes. -/
theorem exists_node_of_mem_supertags (hs : s.Sound) {n : Node} {tag : SupertagRef}
    (h : tag ∈ (s.joined n).supertags) :
    ∃ m ∈ s.liveNodes, tag = ⟨m.id, m.systemId, m.content⟩ := by
  obtain ⟨held, hheld, hmem⟩ := List.mem_flatMap.mp (distinctTags_subset _ h)
  obtain ⟨row, -, hrow⟩ := List.mem_flatMap.mp hheld
  rw [Option.mem_toList] at hrow
  unfold heldValue? at hrow
  split at hrow
  · next info value _ _ =>
    obtain rfl := Option.some.inj hrow
    dsimp only at hmem
    by_cases hsupertag : info.isSupertag = true
    · rw [if_pos hsupertag] at hmem
      exact hs.exists_node_of_mem_liveTags hmem
    · rw [if_neg hsupertag] at hmem
      cases hmem
  · cases hrow

/-- A live node is joined with live supertags. -/
theorem shows_joined (hs : s.Sound) {n : Node} (h : n ∈ s.liveNodes) : s.Shows (s.joined n) where
  live := hs.isLive_of_mem_liveNodes h
  supertags := by
    intro tag htag
    obtain ⟨m, hm, rfl⟩ := hs.exists_node_of_mem_supertags htag
    exact hs.isLive_of_mem_liveNodes hm

theorem shows_of_assemble? (hs : s.Sound) {id : NodeId} {node : AssembledNode}
    (h : s.assemble? id = .ok (some node)) : s.Shows node := by
  obtain ⟨found, hfound⟩ := hs.node?_succeeds id
  rw [hs.assemble?_eq, hfound, found?_ok] at h
  obtain ⟨n, rfl, rfl⟩ := Option.map_eq_some_iff.mp (Except.ok.inj h)
  exact hs.shows_joined (hs.node?_eq_some_iff.mp hfound).1

/-! ## Lists of nodes -/

theorem isLive_of_listNodes (hs : s.Sound) {owner : Option NodeId} {nodes : List Node}
    (h : s.listNodes owner false = .ok nodes) {n : Node} (hn : n ∈ nodes) : s.IsLive n.id := by
  have hrows : ∃ owned : List NodeRecord, owned ⊆ s.liveRecords ∧
      owned.mapM NodeRecord.read = (.ok nodes : Reading (List Node)) := by
    cases owner with
    | none => exact ⟨s.liveRecords, List.Subset.refl _, h⟩
    | some owner =>
      exact ⟨s.liveRecords.filter fun r => r.ownerId == some (.known owner),
        List.filter_subset_self _, h⟩
  obtain ⟨owned, hsubset, hread⟩ := hrows
  obtain ⟨live, rfl⟩ : ∃ live : List Node, owned = live.map Node.record :=
    hs.exists_nodes fun r hr => (mem_liveRecords.mp (hsubset hr)).1
  rw [Node.mapM_read] at hread
  obtain rfl := Except.ok.inj hread
  obtain ⟨hrecord, hlive⟩ := mem_liveRecords.mp (hsubset (List.mem_map_of_mem hn))
  exact hs.isLive_of_mem_liveNodes (hs.mem_liveNodes.mpr ⟨hrecord, by rwa [← Node.isLive_record]⟩)

theorem shows_of_assembleMany (hs : s.Sound) {ids : List NodeId} {nodes : List AssembledNode}
    (h : s.assembleMany ids = .ok nodes) {node : AssembledNode} (hnode : node ∈ nodes) :
    s.Shows node := by
  rw [hs.assembleMany_eq] at h
  obtain rfl := Except.ok.inj h
  obtain ⟨id, -, hmem⟩ := List.mem_flatMap.mp hnode
  rw [Option.mem_toList] at hmem
  exact hs.shows_of_assemble? ((hs.assemble?_eq id).trans (congrArg Except.ok hmem))

theorem shows_of_mem_joinedNodes (hs : s.Sound) {node : AssembledNode}
    (h : node ∈ s.joinedNodes) : s.Shows node := by
  obtain ⟨n, hn, rfl⟩ := List.mem_map.mp h
  exact hs.shows_joined hn

theorem shows_of_nodesBySupertag (hs : s.Sound) {supertag : String} {includeInherited : Bool}
    {nodes : List AssembledNode} (h : s.nodesBySupertag supertag includeInherited = .ok nodes)
    {node : AssembledNode} (hnode : node ∈ nodes) : s.Shows node := by
  obtain ⟨tag, -, h⟩ := Reading.bind_ok h
  cases tag with
  | none =>
    obtain rfl := Except.ok.inj h
    cases hnode
  | some tag =>
    obtain ⟨field, -, h⟩ := Reading.bind_ok h
    cases field with
    | none =>
      obtain rfl := Except.ok.inj h
      cases hnode
    | some field =>
      obtain ⟨accepted, -, h⟩ := Reading.bind_ok h
      obtain ⟨rows, -, h⟩ := Reading.bind_ok h
      exact hs.shows_of_assembleMany h hnode

/-! ## Answers to queries -/

theorem shows_of_evaluate (hs : s.Sound) {now : Int} {d : QueryDefinition} {page : QueryPage}
    (h : s.evaluate now d = .ok page) {node : AssembledNode} (hnode : node ∈ page.nodes) :
    s.Shows node := by
  obtain ⟨filters, sort, limit⟩ := d
  by_cases hvalid : (⟨filters, sort, limit⟩ : QueryDefinition).isValid = true
  · obtain ⟨arrangement, harranged, hpages⟩ := hs.evaluate_eq now filters sort
    rw [hpages limit hvalid] at h
    obtain rfl := Except.ok.inj h
    have hmatching := harranged.perm.mem_iff.mp (List.mem_of_mem_take hnode)
    exact hs.shows_of_mem_joinedNodes (List.mem_filter.mp hmatching).1
  · rw [QueryDefinition.isValid, Option.isNone_iff_eq_none] at hvalid
    obtain ⟨fault, hfault⟩ := Option.ne_none_iff_exists'.mp hvalid
    unfold evaluate at h
    rw [hfault] at h
    cases h

theorem shows_of_evaluateSaved (hs : s.Sound) {now : Int} {query : NodeId} {page : QueryPage}
    (h : s.evaluateSaved now query = .ok page) {node : AssembledNode} (hnode : node ∈ page.nodes) :
    s.Shows node := by
  obtain ⟨found, -, h⟩ := Reading.bind_ok h
  cases found with
  | none => cases h
  | some n =>
    obtain ⟨d, -, h⟩ := Reading.bind_ok h
    cases d with
    | none => cases h
    | some d => exact hs.shows_of_evaluate h hnode

end Sound

/-! ## Hidden nodes -/

end Store

/-- An assembled node is the node with an identifier, or has it as a supertag. -/
def AssembledNode.Mentions (node : AssembledNode) (id : NodeId) : Prop :=
  node.id = id ∨ id ∈ node.supertags.map (·.id)

namespace Store

/-- No reading shows a node, on its own, among others or as a supertag of another one. -/
structure Hides (s : Store) (id : NodeId) : Prop where
  byName : ∀ name n, s.findLive? name = .ok (some n) → n.id ≠ id
  assembled : s.assemble? id = .ok none
  inOthers : ∀ other node, s.assemble? other = .ok (some node) → ¬ node.Mentions id
  children : ∀ owner nodes, s.listNodes owner false = .ok nodes → id ∉ nodes.map (·.id)
  bySupertag : ∀ supertag includeInherited nodes,
    s.nodesBySupertag supertag includeInherited = .ok nodes → ∀ node ∈ nodes, ¬ node.Mentions id
  answer : ∀ now d page, s.evaluate now d = .ok page → ∀ node ∈ page.nodes, ¬ node.Mentions id
  savedAnswer : ∀ now query page, s.evaluateSaved now query = .ok page →
    ∀ node ∈ page.nodes, ¬ node.Mentions id
  items : ∀ items, s.items = .ok items → id ∉ items.map (·.id)
  tags : ∀ tags, s.tags = .ok tags → id ∉ tags.map (·.id)
  commands : ∀ commands, s.commands = .ok commands → id ∉ commands.map (·.id)

variable {s : Store}

theorem Shows.not_mentions {node : AssembledNode} (h : s.Shows node) {id : NodeId}
    (hid : ¬ s.IsLive id) : ¬ node.Mentions id := by
  rintro (rfl | hmem)
  · exact hid h.live
  · obtain ⟨tag, htag, rfl⟩ := List.mem_map.mp hmem
    exact hid (h.supertags tag htag)

namespace Sound

/-- A view of the nodes with a supertag has no node that is not live, as each entry is the view of
the node with its identifier. -/
theorem not_mem_view (hs : s.Sound) {α : Type} {view : AssembledNode → Option α} {idOf : α → NodeId}
    (hview : ∀ node entry, view node = some entry → idOf entry = node.id) {supertag : String}
    {includeInherited : Bool} {nodes : List AssembledNode}
    (h : s.nodesBySupertag supertag includeInherited = .ok nodes) {id : NodeId}
    (hid : ¬ s.IsLive id) : id ∉ (nodes.filterMap view).map idOf := by
  intro hmem
  obtain ⟨entry, hentry, rfl⟩ := List.mem_map.mp hmem
  obtain ⟨node, hnode, hsome⟩ := List.mem_filterMap.mp hentry
  exact (hs.shows_of_nodesBySupertag h hnode).not_mentions hid
    (Or.inl (hview node entry hsome).symm)

/-- Readings hide each node that is not live. -/
theorem hides_of_not_isLive (hs : s.Sound) {id : NodeId} (hid : ¬ s.IsLive id) : s.Hides id where
  byName _ _ hfound heq := hid (heq ▸ hs.isLive_of_findLive? hfound)
  assembled := by
    obtain ⟨found, hfound⟩ := hs.node?_succeeds id
    cases found with
    | none => rw [hs.assemble?_eq, hfound, found?_ok, Option.map_none]
    | some n => exact absurd ⟨n, hfound⟩ hid
  inOthers _ _ hother := (hs.shows_of_assemble? hother).not_mentions hid
  children owner nodes hlist hmem := by
    obtain ⟨n, hn, heq⟩ := List.mem_map.mp hmem
    exact hid (heq ▸ hs.isLive_of_listNodes hlist hn)
  bySupertag _ _ _ hlist _ hnode := (hs.shows_of_nodesBySupertag hlist hnode).not_mentions hid
  answer _ _ _ hpage _ hnode := (hs.shows_of_evaluate hpage hnode).not_mentions hid
  savedAnswer _ _ _ hpage _ hnode := (hs.shows_of_evaluateSaved hpage hnode).not_mentions hid
  items items hitems := by
    obtain ⟨nodes, hlist, heq⟩ := Reading.bind_ok hitems
    obtain rfl := Except.ok.inj heq
    have hview : nodes.map Item.view = nodes.filterMap (some ∘ Item.view) := by
      rw [List.filterMap_eq_map]
    rw [hview]
    refine hs.not_mem_view (fun node entry hentry => ?_) hlist hid
    rw [← Option.some.inj hentry]
    rfl
  tags tags htags := by
    obtain ⟨nodes, hlist, heq⟩ := Reading.bind_ok htags
    obtain rfl := Except.ok.inj heq
    refine hs.not_mem_view (fun node entry hentry => ?_) hlist hid
    unfold Tag.ofNode? at hentry
    split at hentry
    · rw [← Option.some.inj hentry]
    · cases hentry
  commands commands hcommands := by
    obtain ⟨nodes, hlist, heq⟩ := Reading.bind_ok hcommands
    obtain rfl := Except.ok.inj heq
    refine hs.not_mem_view (fun node entry hentry => ?_) hlist hid
    unfold Command.ofNode? at hentry
    split at hentry
    · rw [← Option.some.inj hentry]
    · cases hentry

end Sound

end Store

end TagGraph
