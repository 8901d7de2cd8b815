import TagGraph.Command
import TagGraph.Item
import TagGraph.Proofs.Seed.Effect
import TagGraph.Proofs.Tagged
import TagGraph.Tag

/-!
# Flat views of nodes

A node shows by the handles of its supertags whether it has a view as a tag, a command or an item.
The lists of all views find their nodes from the stored rows and, for items, by going down from
`supertag:item`. The lists of tags and commands are those of the nodes with such a view
(`Store.Sound.tags_eq`, `Store.Sound.commands_eq`). The list of items has more: where the built-in
kinds extend `supertag:item` (`Store.KindsExtendItem`), it consists of the nodes with such a view
and of those whose supertags of items are all declared later.
-/

namespace TagGraph

namespace Store

variable {s : Store}

namespace Sound

/-! ## Supertags by handle -/

/-- Only one live supertag has a handle, so that a node has it by the handle if it has it by the
identifier. -/
theorem systemId_eq_iff (hs : s.Sound) {supertag : NodeId} {handle : String}
    (hholds : s.Holds (.known supertag) (some handle)) {n : Node} {tag : SupertagRef}
    (htag : tag ∈ (s.joined n).supertags) : tag.systemId = some handle ↔ tag.id = supertag := by
  obtain ⟨m, hm, rfl⟩ := hs.exists_node_of_mem_supertags htag
  have hself := hs.holds_of_mem_liveNodes hm
  constructor
  · intro hhandle
    dsimp only at hhandle
    rw [hhandle] at hself
    exact StoredId.known.inj (hs.holds_unique hself hholds)
  · rintro rfl
    exact hs.handle_unique hself hholds

theorem hasSupertag_joined (hs : s.Sound) {supertag : NodeId} {handle : String}
    (hholds : s.Holds (.known supertag) (some handle)) (n : Node) :
    (s.joined n).hasSupertag handle = (s.joined n).hasSupertagId supertag := by
  rw [Bool.eq_iff_iff, AssembledNode.hasSupertag, AssembledNode.hasSupertagId, List.any_eq_true,
    List.any_eq_true]
  refine exists_congr fun tag => and_congr_right fun htag => ?_
  rw [beq_iff_eq, beq_iff_eq, hs.systemId_eq_iff hholds htag]

/-- No node has a supertag with a handle that no live node has. -/
theorem hasSupertag_joined_of_gone (hs : s.Sound) {handle : String}
    (hgone : s.nodeBySystemId? handle = .ok none) (n : Node) :
    (s.joined n).hasSupertag handle = false := by
  refine List.any_eq_false.mpr fun tag htag hhandle => ?_
  obtain ⟨m, hm, rfl⟩ := hs.exists_node_of_mem_supertags htag
  have hfound := hs.nodeBySystemId?_eq_some_iff.mpr ⟨hm, beq_iff_eq.mp hhandle⟩
  cases hgone.symm.trans hfound

/-- The nodes with a supertag itself are those that show its handle. -/
theorem nodesBySupertag_direct (hs : s.Sound) {handle : String} (hname : IsName handle) :
    s.nodesBySupertag handle false = .ok (s.joinedNodes.filter (·.hasSupertag handle)) := by
  rw [hs.nodesBySupertag_eq 0, matching]
  refine congrArg Except.ok (List.filter_congr fun node hnode => ?_)
  obtain ⟨n, -, rfl⟩ := List.mem_map.mp hnode
  rw [List.all_cons, List.all_nil, Bool.and_true]
  obtain ⟨found, hfound⟩ := hs.findLive?_succeeds handle
  cases found with
  | none =>
    rw [holds_supertag_of_gone hfound, hs.hasSupertag_joined_of_gone (hname.findLive?_eq ▸ hfound)]
  | some tag =>
    have hdirect : s.acceptedSupertags tag.id false = .ok [tag.id] := rfl
    rw [holds_supertag hfound hdirect, hs.hasSupertag_joined (hs.holds_of_found hname hfound),
      AssembledNode.hasSupertagId]
    simp only [List.contains_cons, List.contains_nil, Bool.or_false]

/-! ## Tags and commands -/

/-- A list of the nodes that a view needs gives the same views as the list of all nodes. -/
theorem filterMap_filter_hasSupertag {α : Type} {view? : AssembledNode → Option α}
    {handle : String} (h : ∀ node, node.hasSupertag handle = false → view? node = none)
    (nodes : List AssembledNode) :
    (nodes.filter (·.hasSupertag handle)).filterMap view? = nodes.filterMap view? := by
  rw [List.filterMap_filter]
  refine List.filterMap_congr fun node _ => ?_
  by_cases hhas : node.hasSupertag handle = true
  · rw [if_pos hhas]
  · rw [if_neg hhas, h node (Bool.not_eq_true _ ▸ hhas)]

/-- The tags are the views of all live nodes that have one. -/
theorem tags_eq (hs : s.Sound) : s.tags = .ok (s.joinedNodes.filterMap Tag.ofNode?) := by
  have hname : IsName Handle.supertagTag := ⟨by decide +kernel, by decide +kernel⟩
  have hview : ∀ node : AssembledNode, node.hasSupertag Handle.supertagTag = false →
      Tag.ofNode? node = none := fun node h => by rw [Tag.ofNode?, h]; rfl
  rw [tags, hs.nodesBySupertag_direct hname, ← filterMap_filter_hasSupertag hview]
  rfl

/-- The commands are the views of all live nodes that have one. -/
theorem commands_eq (hs : s.Sound) :
    s.commands = .ok (s.joinedNodes.filterMap Command.ofNode?) := by
  have hname : IsName Handle.supertagCommand := ⟨by decide +kernel, by decide +kernel⟩
  have hview : ∀ node : AssembledNode, node.hasSupertag Handle.supertagCommand = false →
      Command.ofNode? node = none := fun node h => by rw [Command.ofNode?, h]; rfl
  rw [commands, hs.nodesBySupertag_direct hname, ← filterMap_filter_hasSupertag hview]
  rfl

end Sound

/-! ## Items -/

/-- The built-in kinds of items are live, and each has a row of `field:extends` that names the live
`supertag:item`. -/
structure KindsExtendItem (s : Store) (item : NodeId) : Prop where
  root : s.Holds (.known item) (some Handle.supertagItem)
  kinds : ∀ handle ∈ [Handle.supertagTool, Handle.supertagRepo, Handle.supertagTask,
    Handle.supertagEvent], ∃ kind, s.Holds (.known kind) (some handle) ∧ s.Names kind item

/-- The catalogue leaves the built-in kinds as they are meant to be. -/
theorem HasCatalogue.kindsExtendItem (hs : s.Sound) (h : s.HasCatalogue) :
    ∃ item, s.KindsExtendItem item := by
  obtain ⟨item, hitem⟩ := h.nodes Handle.supertagItem (by decide)
  refine ⟨item.id, hs.holds_of_named hitem, fun handle hhandle => ?_⟩
  obtain ⟨t, ht, rfl, hparent⟩ : ∃ t ∈ Catalogue.supertags, t.systemId = handle ∧
      t.parent = some Handle.supertagItem := by
    revert handle
    decide
  have hmem : t.systemId ∈ Catalogue.handles := by
    exact List.mem_append_left _ (List.mem_append_right _ (List.mem_map_of_mem ht))
  obtain ⟨kind, hkind⟩ := h.nodes t.systemId hmem
  have hlive := hs.isLive_of_mem_liveNodes hkind.live
  exact ⟨kind.id, hs.holds_of_named hkind,
    hs.names_of_parent? hlive (h.parents t ht _ hparent kind item hkind hitem)⟩

/-- The nodes that carry one of some supertags. -/
def carriersIn (nodes : List AssembledNode) (accepted : List NodeId) : List AssembledNode :=
  nodes.filter fun n => n.supertags.any fun t => accepted.contains t.id

namespace Sound

variable {item : NodeId}

/-- All items are the views of the nodes with a supertag below `supertag:item`. -/
theorem items_eq (hs : s.Sound) (hitem : s.Holds (.known item) (some Handle.supertagItem))
    {below : List NodeId} (hbelow : s.descendants item = .ok below) :
    s.items = .ok ((carriersIn s.joinedNodes below).map Item.view) := by
  have hname : IsName Handle.supertagItem := ⟨by decide +kernel, by decide +kernel⟩
  obtain ⟨tag, htag, rfl, -⟩ := hs.findLive?_of_holds hname hitem
  have haccepted : s.acceptedSupertags tag.id true = .ok below := hbelow
  have hlisted : s.matching 0 [.supertag Handle.supertagItem true] =
      carriersIn s.joinedNodes below := by
    refine List.filter_congr fun node _ => ?_
    rw [List.all_cons, List.all_nil, Bool.and_true, holds_supertag htag haccepted]
  rw [items, hs.nodesBySupertag_eq 0, hlisted]
  rfl

/-- The built-in kinds of items are among the supertags below `supertag:item`. -/
theorem exists_kind_below (hs : s.Sound) (h : s.KindsExtendItem item) {below : List NodeId}
    (hbelow : s.descendants item = .ok below) {handle : String}
    (hhandle : handle ∈ Item.supertagsOfItems) :
    ∃ kind ∈ below, s.Holds (.known kind) (some handle) := by
  obtain ⟨found, hfound, hmem⟩ := hs.exists_descendants item
  obtain rfl := Except.ok.inj (hfound.symm.trans hbelow)
  rcases List.mem_cons.mp hhandle with rfl | hkind
  · exact ⟨item, (hmem item).mpr (.refl _ item), h.root⟩
  · obtain ⟨kind, hkind, hnames⟩ := h.kinds handle hkind
    exact ⟨kind, (hmem kind).mpr (.head hnames (.refl _ kind)), hkind⟩

/-- A node with the handle of a built-in supertag of items is an item. -/
theorem carries_of_builtIn (hs : s.Sound) (h : s.KindsExtendItem item) {below : List NodeId}
    (hbelow : s.descendants item = .ok below) {n : Node}
    (hview : Item.supertagsOfItems.any (s.joined n).hasSupertag = true) :
    ((s.joined n).supertags.any fun t => below.contains t.id) = true := by
  obtain ⟨handle, hhandle, hhas⟩ := List.any_eq_true.mp hview
  obtain ⟨kind, hkind, hholds⟩ := hs.exists_kind_below h hbelow hhandle
  rw [hs.hasSupertag_joined hholds, AssembledNode.hasSupertagId, List.any_eq_true] at hhas
  obtain ⟨tag, htag, hid⟩ := hhas
  refine List.any_eq_true.mpr ⟨tag, htag, List.contains_iff_mem.mpr ?_⟩
  exact beq_iff_eq.mp hid ▸ hkind

/-- Where the built-in kinds extend `supertag:item`, the items that show it by their handles are
those of the list of items that do. -/
theorem filterMap_ofNode?_eq (hs : s.Sound) (h : s.KindsExtendItem item) {below : List NodeId}
    (hbelow : s.descendants item = .ok below) :
    s.joinedNodes.filterMap Item.ofNode? =
      ((carriersIn s.joinedNodes below).filter fun n => (Item.ofNode? n).isSome).map Item.view := by
  have hview : ∀ n : AssembledNode, Item.ofNode? n =
      if (Item.ofNode? n).isSome then some (Item.view n) else none := by
    intro n
    unfold Item.ofNode?
    split <;> rfl
  -- Every node with a view as an item is in the list, so that the second filter has no effect.
  have hcarries : ∀ node ∈ s.joinedNodes, ((Item.ofNode? node).isSome &&
      node.supertags.any fun t => below.contains t.id) = (Item.ofNode? node).isSome := by
    intro node hnode
    obtain ⟨n, -, rfl⟩ := List.mem_map.mp hnode
    unfold Item.ofNode?
    split
    · next hbuiltIn => rw [hs.carries_of_builtIn h hbelow hbuiltIn, Bool.and_true]
    · rfl
  rw [carriersIn, List.filter_filter, List.filter_congr hcarries, ← List.filterMap_eq_map,
    List.filterMap_filter]
  exact List.filterMap_congr fun n _ => hview n

end Sound

/-- On every store that a run leaves, the lists of tags and commands are the views of all live
nodes, in the order of creation, that have one, and the commands of an item are those of them that
name it. Where the built-in kinds extend `supertag:item`, as a seeding leaves them, the list of items
has all views of live nodes as items, in this order, and the other nodes of it have none of the
built-in supertags of items but some other supertag below `supertag:item`. -/
theorem views_run (steps : List Step) :
    let s := Store.empty.run steps
    ∃ all, s.assembleAll = .ok all ∧
      s.tags = .ok (all.filterMap Tag.ofNode?) ∧
      s.commands = .ok (all.filterMap Command.ofNode?) ∧
      (∀ item, s.commandsOf item =
        .ok ((all.filterMap Command.ofNode?).filter (·.itemId == some item))) ∧
      (∀ now fresh summary s', Edit.bootstrap now fresh s = .ok summary s' →
        ∃ item, s'.KindsExtendItem item) ∧
      ∀ item, s.KindsExtendItem item → ∃ below, s.descendants item = .ok below ∧
        let listed := carriersIn all below
        s.items = .ok (listed.map Item.view) ∧
        all.filterMap Item.ofNode? =
          (listed.filter fun n => (Item.ofNode? n).isSome).map Item.view ∧
        (all.filterMap Item.ofNode?).Sublist (listed.map Item.view) ∧
        ∀ n ∈ listed, Item.ofNode? n = none →
          (∀ handle ∈ Item.supertagsOfItems, n.hasSupertag handle = false) ∧
          ∃ tag ∈ n.supertags, tag.id ∈ below ∧
            ∀ handle ∈ Item.supertagsOfItems, tag.systemId ≠ some handle := by
  intro s
  have hs : s.Sound := empty_sound.run steps
  refine ⟨s.joinedNodes, hs.assembleAll_eq, hs.tags_eq, hs.commands_eq, fun item => ?_,
    fun now fresh summary s' hok => ?_, fun item h => ?_⟩
  · rw [commandsOf, hs.commands_eq]
    rfl
  · obtain ⟨hs', hcatalogue, -⟩ := Edit.bootstrap_leaves hs hok
    exact hcatalogue.kindsExtendItem hs'
  · obtain ⟨below, hbelow, -⟩ := hs.exists_descendants item
    have hshown := hs.filterMap_ofNode?_eq h hbelow
    refine ⟨below, hbelow, hs.items_eq h.root hbelow, hshown, ?_, fun n hn hnone => ?_⟩
    · rw [hshown]
      exact List.filter_sublist.map _
    · have hbuiltIn : ∀ handle ∈ Item.supertagsOfItems, n.hasSupertag handle = false := by
        unfold Item.ofNode? at hnone
        split at hnone
        · cases hnone
        · next hany => simpa using hany
      obtain ⟨tag, htag, hcontains⟩ := List.any_eq_true.mp (List.mem_filter.mp hn).2
      refine ⟨hbuiltIn, tag, htag, List.contains_iff_mem.mp hcontains, fun handle hhandle heq => ?_⟩
      exact List.any_eq_false.mp (hbuiltIn handle hhandle) tag htag (beq_iff_eq.mpr heq)

/-- A task, and a note whose supertag is declared to be one of items later. -/
theorem views_run_note :
    let id (i : Nat) (h : i < 2 ^ 128) : NodeId := ⟨i, h⟩
    let create (id : NodeId) (systemId : Option String) (supertags : List String) : Step :=
      ⟨5, .graph (.createNode ⟨id, "", systemId, none, supertags⟩)⟩
    let item := id 3 (by decide)
    let declare (kind : String × NodeId) : List Step := [create kind.2 (some kind.1) [],
      ⟨5, .graph (.setProperty kind.2 Handle.fieldExtends (.node item) none)⟩]
    let kinds := [(Handle.supertagTool, id 4 (by decide)), (Handle.supertagRepo, id 5 (by decide)),
      (Handle.supertagTask, id 6 (by decide)), (Handle.supertagEvent, id 7 (by decide))]
    let s := Store.empty.run ([create (id 1 (by decide)) (some Handle.fieldSupertag) [],
      create (id 2 (by decide)) (some Handle.fieldExtends) [],
      create item (some Handle.supertagItem) []] ++ kinds.flatMap declare ++
      declare ("supertag:note", id 8 (by decide)) ++
      [create (id 9 (by decide)) none ["supertag:note"],
        create (id 10 (by decide)) none [Handle.supertagTask]])
    s.KindsExtendItem item ∧ ∃ all items, s.assembleAll = .ok all ∧ s.items = .ok items ∧
      (all.filterMap Item.ofNode?).Sublist items := by
  intro id create item declare kinds s
  have hstored : s.Holds (.known item) (some Handle.supertagItem) ∧ ∀ kind ∈ kinds,
      s.Holds (.known kind.2) (some kind.1) ∧ ∃ r ∈ s.properties, r.nodeId = .known kind.2 ∧
        s.Holds r.fieldId (some Handle.fieldExtends) ∧
        PropertyValue.parentIn? r.value = some item := by
    unfold Holds
    decide +kernel
  have hkinds : s.KindsExtendItem item := by
    refine ⟨hstored.1, fun handle hhandle => ?_⟩
    obtain ⟨kind, hkind, rfl⟩ := List.mem_map.mp (show handle ∈ kinds.map Prod.fst from hhandle)
    obtain ⟨hholds, hrow⟩ := hstored.2 kind hkind
    exact ⟨kind.2, hholds, ⟨_, hholds⟩, hrow⟩
  obtain ⟨all, hall, -, -, -, -, hitems⟩ := views_run _
  obtain ⟨below, -, hlisted, -, hsublist, -⟩ := hitems item hkinds
  exact ⟨hkinds, all, _, hall, hlisted, hsublist⟩

end Store

end TagGraph
