import TagGraph.Proofs.Field.Places
import TagGraph.Proofs.Inheritance.Depth
import TagGraph.Proofs.NodeId
import TagGraph.Proofs.Visible

/-!
# Nodes by supertag and queries by supertag

The nodes with a supertag are found from the rows of `field:supertag`, and a query finds them from
the supertags that all live nodes are assembled with. Both depend on which nodes a node refers to in
these rows (`Store.Carries`) and give the same list (`Store.Sound.nodesBySupertag_eq`). In the same
way the nodes of an owner are those that a query by owner finds (`Store.Sound.listNodes_owner`).
-/

namespace TagGraph

open Reading

/-- The nodes that a stored text refers to. -/
def PropertyValue.referencedIn (raw : String) : List NodeId :=
  ((decode? raw).map (·.referenced)).getD []

/-- The later supertags of one identifier are left out. -/
theorem ids_distinctTags (tags : List SupertagRef) :
    (distinctTags tags).map (·.id) = (tags.map (·.id)).eraseDups := by
  induction tags using List.reverseRecOn with
  | nil => rfl
  | append_singleton tags tag ih =>
    have hstep : distinctTags (tags ++ [tag]) =
        if (distinctTags tags).any (·.id == tag.id) then distinctTags tags
        else distinctTags tags ++ [tag] := by
      rw [distinctTags, List.foldl_concat]
      rfl
    have hknown : (distinctTags tags).any (·.id == tag.id) = true ↔ tag.id ∈ tags.map (·.id) := by
      rw [← List.mem_eraseDups, ← ih]
      simp
    rw [hstep, List.map_append, List.map_singleton, eraseDups_concat, ← ih]
    by_cases h : tag.id ∈ tags.map (·.id)
    · rw [if_pos (hknown.mpr h), if_pos h]
    · rw [if_neg fun hany => h (hknown.mp hany), if_neg h, List.map_append, List.map_singleton]

theorem mem_ids_distinctTags {tags : List SupertagRef} {id : NodeId} :
    id ∈ (distinctTags tags).map (·.id) ↔ id ∈ tags.map (·.id) := by
  rw [ids_distinctTags, List.mem_eraseDups]

/-- Keys of which each is repeated in a block of its own, without the repetitions. -/
theorem eraseDups_blocks {α : Type} {key : α → NodeId} {block : α → List NodeId} {l : List α}
    (hkeys : (l.map key).Nodup) (hblock : ∀ a ∈ l, ∀ id ∈ block a, id = key a) :
    (l.flatMap block).eraseDups = (l.filter fun a => !(block a).isEmpty).map key := by
  induction l with
  | nil => rfl
  | cons a l ih =>
    rw [List.map_cons, List.nodup_cons] at hkeys
    have hrest := ih hkeys.2 fun b hb => hblock b (List.mem_cons_of_mem _ hb)
    have ha := hblock a List.mem_cons_self
    rw [List.flatMap_cons, List.filter_cons]
    cases hids : block a with
    | nil => simpa using hrest
    | cons id ids =>
      rw [hids] at ha
      obtain rfl := ha id List.mem_cons_self
      -- The block is erased but for its first member, and nothing of the other blocks is.
      have hids : ids.filter (fun b => !b == key a) = [] :=
        List.filter_eq_nil_iff.mpr fun b hb => by simp [ha b (List.mem_cons_of_mem _ hb)]
      have hothers : (l.flatMap block).filter (fun b => !b == key a) = l.flatMap block := by
        refine List.filter_eq_self.mpr fun b hb => ?_
        obtain ⟨c, hc, hbc⟩ := List.mem_flatMap.mp hb
        obtain rfl := hblock c (List.mem_cons_of_mem _ hc) b hbc
        have hne : key c ≠ key a := fun heq => hkeys.1 (heq ▸ List.mem_map_of_mem hc)
        simpa using hne
      rw [List.cons_append, List.eraseDups_cons, List.filter_append, hids, hothers, List.nil_append,
        hrest]
      rfl

namespace Store

/-- A row of the live `field:supertag` of a node refers to another node, live or not. -/
def Carries (s : Store) (node tag : NodeId) : Prop :=
  ∃ r ∈ s.properties, r.nodeId = .known node ∧ s.Holds r.fieldId (some Handle.fieldSupertag) ∧
    tag ∈ PropertyValue.referencedIn r.value

theorem refersToAny_iff {accepted : List NodeId} {raw : String} :
    refersToAny accepted raw = true ↔ ∃ tag ∈ accepted, tag ∈ PropertyValue.referencedIn raw := by
  unfold refersToAny PropertyValue.referencedIn
  cases PropertyValue.decode? raw with
  | none => simp
  | some value =>
    simp only [List.any_eq_true, List.contains_iff_mem, Option.map_some, Option.getD_some]
    exact exists_congr fun tag => and_comm

namespace Sound

variable {s : Store}

/-! ## The supertags of a node -/

/-- Looking up supertags finds the live ones among them. -/
theorem ids_liveTags (hs : s.Sound) (ids : List NodeId) :
    (s.liveTags ids).map (·.id) = ids.filter (s.IsLive ·) := by
  induction ids with
  | nil => rfl
  | cons id rest ih =>
    rw [liveTags, List.flatMap_cons, List.map_append, ← liveTags, ih, List.filter_cons]
    obtain ⟨found, hfound⟩ := hs.node?_succeeds id
    rw [supertagRef?, hfound]
    cases found with
    | none =>
      have hnot : ¬ s.IsLive id := by
        rintro ⟨n, hn⟩
        cases hfound.symm.trans hn
      rw [if_neg (by simpa using hnot)]
      rfl
    | some n =>
      have hlive : s.IsLive id := ⟨n, hfound⟩
      obtain ⟨-, rfl⟩ := hs.node?_eq_some_iff.mp hfound
      rw [if_pos (by simpa using hlive)]
      rfl

theorem mem_ids_liveTags (hs : s.Sound) {ids : List NodeId} {id : NodeId} :
    id ∈ (s.liveTags ids).map (·.id) ↔ id ∈ ids ∧ s.IsLive id := by
  rw [hs.ids_liveTags, List.mem_filter, decide_eq_true_iff]

theorem rowsOf_records (hs : s.Sound) (node : NodeId) : (s.rowsOf node).map Property.record =
    inOrder (s.properties.filter (·.nodeId == .known node)) := by
  obtain ⟨l, hl⟩ : ∃ l : List Property,
      inOrder (s.properties.filter (·.nodeId == .known node)) = l.map Property.record :=
    hs.exists_rows fun r hr => (List.mem_filter.mp (mem_inOrder.mp hr)).1
  rw [rowsOf, propertiesOf, hl, Property.mapM_read]
  rfl

theorem mem_rowsOf (hs : s.Sound) {node : NodeId} {row : Property} :
    row ∈ s.rowsOf node ↔ row.record ∈ s.properties ∧ row.nodeId = node := by
  rw [← List.mem_map_of_injective Property.record_injective, hs.rowsOf_records, mem_inOrder,
    List.mem_filter, beq_iff_eq, Property.record, StoredId.known.injEq]

/-- Some rows of a node, in their order, are those that are stored. -/
theorem rowsOf_filter_records (hs : s.Sound) (node : NodeId) (meant : PropertyRecord → Bool) :
    ((s.rowsOf node).filter fun row => meant row.record).map Property.record =
      inOrder (s.properties.filter fun r => r.nodeId == .known node && meant r) := by
  obtain ⟨l, hl, hids⟩ := hs.exists_rows_nodup (·.nodeId == .known node)
  have hrows : s.rowsOf node = l.mergeSort Property.precedes := by
    refine List.map_injective_iff.mpr Property.record_injective ?_
    rw [hs.rowsOf_records, hl, inOrder_records]
  have hmeant : (s.properties.filter fun r => r.nodeId == .known node && meant r) =
      (l.filter fun row => meant row.record).map Property.record := by
    simp only [Bool.and_comm (_ == StoredId.known node)]
    rw [← List.filter_filter, hl, List.filter_map]
    rfl
  rw [hrows, hmeant, inOrder_records, mergeSort_precedes_filter hids]

/-- The rows of a node that are of a field are the rows of the field. -/
theorem rowsOf_filter (hs : s.Sound) (node field : NodeId) :
    (s.rowsOf node).filter (·.fieldId == field) = s.fieldRowsOf node field := by
  have hmeant : (fun row : Property => row.fieldId == field) =
      fun row => row.record.fieldId == .known field := by
    funext row
    exact Bool.eq_iff_iff.mpr (by simp [Property.record])
  refine List.map_injective_iff.mpr Property.record_injective ?_
  rw [hmeant, hs.rowsOf_filter_records node (·.fieldId == .known field), hs.fieldRowsOf_records]
  rfl

/-- What is known about a field says whether it is the live `field:supertag`. -/
theorem isSupertag_iff (hs : s.Sound) {field : NodeId} :
    ((found? (s.fieldInfo? field)).any (·.isSupertag)) = true ↔
      s.Holds (.known field) (some Handle.fieldSupertag) := by
  obtain ⟨found, hfound⟩ := hs.node?_succeeds field
  rw [fieldInfo?, hfound]
  cases found with
  | none =>
    refine ⟨fun h => (nomatch h), fun h => ?_⟩
    obtain ⟨n, hn⟩ := hs.isLive_iff.mpr ⟨_, h⟩
    cases hfound.symm.trans hn
  | some n =>
    obtain ⟨hmem, rfl⟩ := hs.node?_eq_some_iff.mp hfound
    have hn := hs.holds_of_mem_liveNodes hmem
    show decide (n.systemId = some Handle.fieldSupertag) = true ↔ _
    rw [decide_eq_true_iff]
    exact ⟨fun h => h ▸ hn, hs.handle_unique hn⟩

/-- A live node is joined with the live supertags that it refers to. -/
theorem mem_ids_supertags_joined (hs : s.Sound) {n : Node} {tag : NodeId} :
    tag ∈ (s.joined n).supertags.map (·.id) ↔ s.Carries n.id tag ∧ s.IsLive tag := by
  have hheld : ∀ row : Property, (∃ held ∈ (s.heldValue? row).toList,
      tag ∈ held.supertags.map (·.id)) ↔
        s.Holds (.known row.fieldId) (some Handle.fieldSupertag) ∧
          tag ∈ PropertyValue.referencedIn row.value ∧ s.IsLive tag := by
    intro row
    rw [← hs.isSupertag_iff]
    unfold heldValue? PropertyValue.referencedIn
    cases found? (s.fieldInfo? row.fieldId) with
    | none => simp
    | some info =>
      cases PropertyValue.decode? row.value with
      | none => simp
      | some value => cases h : info.isSupertag <;> simp [h, ← hs.mem_ids_liveTags]
  show tag ∈ (distinctTags _).map (·.id) ↔ _
  rw [mem_ids_distinctTags, List.flatMap_assoc, List.map_flatMap, List.mem_flatMap]
  constructor
  · rintro ⟨row, hmem, htag⟩
    rw [List.map_flatMap, List.mem_flatMap] at htag
    obtain ⟨hfield, hreferenced, hlive⟩ := (hheld row).mp htag
    obtain ⟨hstored, hnode⟩ := hs.mem_rowsOf.mp hmem
    exact ⟨⟨row.record, hstored, congrArg StoredId.known hnode, hfield, hreferenced⟩, hlive⟩
  · rintro ⟨⟨r, hr, hnode, hfield, hreferenced⟩, hlive⟩
    obtain ⟨row, rfl⟩ := hs.rows r hr
    refine ⟨row, hs.mem_rowsOf.mpr ⟨hr, StoredId.known.inj hnode⟩, ?_⟩
    rw [List.map_flatMap, List.mem_flatMap]
    exact (hheld row).mpr ⟨hfield, hreferenced, hlive⟩

/-! ## The supertags that count -/

/-- The supertags that count as a live one are live, and it is one of them. -/
theorem exists_acceptedSupertags (hs : s.Sound) {supertag : NodeId} (hlive : s.IsLive supertag)
    (includeInherited : Bool) :
    ∃ accepted, s.acceptedSupertags supertag includeInherited = .ok accepted ∧
      supertag ∈ accepted ∧ ∀ id ∈ accepted, s.IsLive id := by
  cases includeInherited with
  | false =>
    refine ⟨[supertag], rfl, List.mem_singleton_self supertag, fun id hid => ?_⟩
    rwa [List.mem_singleton.mp hid]
  | true =>
    obtain ⟨below, hbelow, hmem⟩ := hs.exists_descendants supertag
    refine ⟨below, hbelow, (hmem supertag).mpr (.refl _ supertag), fun id hid => ?_⟩
    obtain ⟨_, _, hleads⟩ := (hmem id).mp hid
    exact hs.isLive_of_leads hlive hleads

/-! ## Both ways of finding the nodes with a supertag -/

/-- The rows of a field over all live nodes, in a block for each node. -/
theorem propertiesByField_eq (hs : s.Sound) (field : NodeId) :
    s.propertiesByField field = .ok (s.liveNodes.flatMap fun n => s.fieldRowsOf n.id field) := by
  have hblocks : s.liveRecords.flatMap (fun n => inOrder (s.properties.filter fun r =>
      r.nodeId == n.id && r.fieldId == .known field)) =
        (s.liveNodes.flatMap fun n => s.fieldRowsOf n.id field).map Property.record := by
    rw [hs.liveRecords_eq, List.flatMap_map, List.map_flatMap]
    simp only [hs.fieldRowsOf_records]
    rfl
  rw [propertiesByField, hblocks, Property.mapM_read]

/-- Nodes assembled by the identifiers of live nodes are these nodes joined. -/
theorem assembleMany_ids (hs : s.Sound) {nodes : List Node} (h : nodes ⊆ s.liveNodes) :
    s.assembleMany (nodes.map (·.id)) = .ok (nodes.map s.joined) := by
  rw [hs.assembleMany_eq, List.flatMap_map]
  refine congrArg Except.ok ?_
  induction nodes with
  | nil => rfl
  | cons n rest ih =>
    obtain ⟨hn, hrest⟩ := List.cons_subset.mp h
    rw [List.flatMap_cons, ih hrest, hs.node?_eq_some_iff.mpr ⟨hn, rfl⟩]
    rfl

/-- The rows of `field:supertag` that refer to some of the live supertags show which live nodes are
joined with one of these. -/
theorem isEmpty_holders (hs : s.Sound) {field : NodeId} {accepted : List NodeId} {n : Node}
    (hfield : s.Holds (.known field) (some Handle.fieldSupertag))
    (haccepted : ∀ id ∈ accepted, s.IsLive id) :
    (!(((s.fieldRowsOf n.id field).filter fun r => refersToAny accepted r.value).map
      (·.nodeId)).isEmpty) = (s.joined n).supertags.any fun t => accepted.contains t.id := by
  have hcarries : ∀ tag, s.Carries n.id tag ↔
      ∃ row ∈ s.fieldRowsOf n.id field, tag ∈ PropertyValue.referencedIn row.value := by
    intro tag
    constructor
    · rintro ⟨r, hr, hnode, hholds, htag⟩
      obtain ⟨row, rfl⟩ := hs.rows r hr
      exact ⟨row, hs.mem_fieldRowsOf.mpr ⟨hr, StoredId.known.inj hnode,
        StoredId.known.inj (hs.holds_unique hholds hfield)⟩, htag⟩
    · rintro ⟨row, hmem, htag⟩
      obtain ⟨hr, hnode, rfl⟩ := hs.mem_fieldRowsOf.mp hmem
      exact ⟨row.record, hr, congrArg StoredId.known hnode, hfield, htag⟩
  have hany : ((s.joined n).supertags.any fun t => accepted.contains t.id) = true ↔
      ∃ tag ∈ accepted, s.Carries n.id tag := by
    rw [List.any_eq_true]
    simp only [List.contains_iff_mem]
    constructor
    · rintro ⟨t, ht, htag⟩
      exact ⟨t.id, htag, (hs.mem_ids_supertags_joined.mp (List.mem_map_of_mem ht)).1⟩
    · rintro ⟨tag, htag, hcarried⟩
      obtain ⟨t, ht, rfl⟩ := List.mem_map.mp
        (hs.mem_ids_supertags_joined.mpr ⟨hcarried, haccepted tag htag⟩)
      exact ⟨t, ht, htag⟩
  rw [Bool.eq_iff_iff, hany, Bool.not_eq_true', List.isEmpty_eq_false_iff, ne_eq,
    List.map_eq_nil_iff, List.filter_eq_nil_iff]
  push Not
  simp only [refersToAny_iff, hcarries]
  constructor
  · rintro ⟨row, hmem, tag, htag, hreferenced⟩
    exact ⟨tag, htag, row, hmem, hreferenced⟩
  · rintro ⟨tag, htag, row, hmem, hreferenced⟩
    exact ⟨row, hmem, tag, htag, hreferenced⟩

/-- Without a live `field:supertag` no node is joined with a supertag. -/
theorem supertags_joined_of_gone (hs : s.Sound)
    (h : s.nodeBySystemId? Handle.fieldSupertag = .ok none) (n : Node) :
    (s.joined n).supertags = [] := by
  refine List.eq_nil_iff_forall_not_mem.mpr fun t ht => ?_
  obtain ⟨⟨r, -, -, hholds, -⟩, -⟩ := hs.mem_ids_supertags_joined.mp (List.mem_map_of_mem ht)
  exact not_holds_of_nodeBySystemId? h _ hholds

/-- What a filter by supertag means if its name is that of a live one. -/
theorem holds_supertag {name : String} {tag : Node} {includeInherited : Bool}
    {accepted : List NodeId} (htag : s.findLive? name = .ok (some tag))
    (haccepted : s.acceptedSupertags tag.id includeInherited = .ok accepted) (now : Int)
    (n : AssembledNode) : Filter.holds s now n (.supertag name includeInherited) =
      n.supertags.any fun t => accepted.contains t.id := by
  rw [Filter.holds, acceptedBy?, htag]
  simp only [haccepted, bind, Except.bind, pure, Except.pure, found?_ok, Option.any_some]

/-- No node has a supertag under the name of none. -/
theorem holds_supertag_of_gone {name : String} (h : s.findLive? name = .ok none)
    (includeInherited : Bool) (now : Int) (n : AssembledNode) :
    Filter.holds s now n (.supertag name includeInherited) = false := by
  rw [Filter.holds, acceptedBy?, h]
  rfl

/-- The nodes found from the rows of `field:supertag` are those that a query finds. -/
theorem nodesBySupertag_eq (hs : s.Sound) (now : Int) (name : String) (includeInherited : Bool) :
    s.nodesBySupertag name includeInherited =
      .ok (s.matching now [.supertag name includeInherited]) := by
  obtain ⟨found, hfound⟩ := hs.findLive?_succeeds name
  unfold nodesBySupertag matching
  simp only [List.all_cons, List.all_nil, Bool.and_true, hfound]
  cases found with
  | none =>
    simp only [holds_supertag_of_gone hfound, List.filter_false]
    rfl
  | some tag =>
    obtain ⟨accepted, haccepted, -, hlive⟩ :=
      hs.exists_acceptedSupertags (hs.isLive_of_findLive? hfound) includeInherited
    obtain ⟨field, hfield⟩ := hs.nodeBySystemId?_succeeds Handle.fieldSupertag
    simp only [holds_supertag hfound haccepted, haccepted, hfield, bind, Except.bind, pure,
      Except.pure]
    cases field with
    | none =>
      have hnone : s.joinedNodes.filter (fun n => n.supertags.any fun t => accepted.contains t.id) =
          [] := by
        refine List.filter_eq_nil_iff.mpr fun n hn => ?_
        obtain ⟨m, -, rfl⟩ := List.mem_map.mp hn
        rw [hs.supertags_joined_of_gone hfield m]
        exact Bool.false_ne_true
      rw [hnone]
    | some field =>
      have hholds := hs.holds_of_nodeBySystemId? hfield
      -- Each live node has its rows in one block, so that it is found once, at its place.
      have hblock : ∀ n ∈ s.liveNodes, ∀ id ∈ ((s.fieldRowsOf n.id field.id).filter fun r =>
          refersToAny accepted r.value).map (·.nodeId), id = n.id := by
        intro n _ id hid
        obtain ⟨row, hrow, rfl⟩ := List.mem_map.mp hid
        exact (hs.mem_fieldRowsOf.mp (List.mem_filter.mp hrow).1).2.1
      have hholders := eraseDups_blocks hs.liveNodes_ids_nodup hblock
      simp only [hs.isEmpty_holders hholds hlive] at hholders
      simp only [hs.propertiesByField_eq, List.filter_flatMap, List.map_flatMap, hholders]
      rw [hs.assembleMany_ids (List.filter_subset_self _), joinedNodes, List.filter_map]
      rfl

/-! ## The nodes of an owner -/

/-- The nodes of an owner are those of the live nodes that name it. -/
theorem listNodes_of_owner (hs : s.Sound) (owner : NodeId) : s.listNodes (some owner) false =
    .ok (s.liveNodes.filter fun n => n.ownerId == some owner) := by
  have hrecords : s.liveRecords.filter (fun r => r.ownerId == some (.known owner)) =
      (s.liveNodes.filter fun n => n.ownerId == some owner).map Node.record := by
    rw [hs.liveRecords_eq, List.filter_map]
    refine congrArg (List.map Node.record) (List.filter_congr fun n _ => ?_)
    show (n.ownerId.map StoredId.known == some (.known owner)) = (n.ownerId == some owner)
    rw [Bool.eq_iff_iff]
    cases n.ownerId <;> simp
  show (s.liveRecords.filter fun r => r.ownerId == some (.known owner)).mapM NodeRecord.read = _
  rw [hrecords, Node.mapM_read]

/-- The nodes of a live owner are those that a query finds. -/
theorem listNodes_owner (hs : s.Sound) {owner : NodeId} {target : String}
    (htarget : s.findLiveId? target = .ok (some owner)) :
    ∃ children, s.listNodes (some owner) false = .ok children ∧ ∀ now,
      s.matching now [.relation .childOf (some target) none] = children.map s.joined := by
  refine ⟨_, hs.listNodes_of_owner owner, fun now => ?_⟩
  unfold matching joinedNodes
  rw [List.filter_map]
  refine congrArg (List.map s.joined) (List.filter_congr fun n _ => ?_)
  simp [Filter.holds, named?, htarget, relates, joined, AssembledNode.ofHeld]

/-! ## Upwards and downwards -/

theorem isLive_of_liveRecordOf? (hs : s.Sound) {id : NodeId}
    (h : (s.liveRecordOf? id).isSome = true) : s.IsLive id := by
  obtain ⟨r, hr⟩ := Option.isSome_iff_exists.mp h
  have hfound := List.find?_some hr
  rw [Bool.and_eq_true, beq_iff_eq] at hfound
  exact hs.isLive_iff.mpr ⟨r.systemId, r, List.mem_of_find?_eq_some hr, hfound.2, hfound.1, rfl⟩

/-- A search upwards from supertags comes to a target if one of them is it or has it above. -/
theorem anyReaches_eq (hs : s.Sound) (target : NodeId) (tags : List SupertagRef) :
    ∃ answer, s.anyReaches target tags = .ok answer ∧ (answer = true ↔ ∃ tag ∈ tags,
      LeadsWithin (fun c p => s.parent? c = .ok (some p)) maxDepth tag.id target) := by
  induction tags with
  | nil => exact ⟨false, rfl, by simp⟩
  | cons tag rest ih =>
    obtain ⟨above, habove, hmem⟩ := hs.exists_ancestors tag.id
    obtain ⟨answer, hanswer, hiff⟩ := ih
    rw [List.exists_mem_cons_iff, ← hmem target, ← hiff]
    unfold anyReaches
    by_cases hself : tag.id = target
    · rw [if_pos hself]
      exact ⟨true, rfl, by simp [hself]⟩
    rw [if_neg hself, habove]
    by_cases hfound : target ∈ above
    · refine ⟨true, ?_, by simp [hfound]⟩
      show (if above.contains target = true then _ else _) = _
      rw [if_pos (List.contains_iff_mem.mpr hfound)]
      rfl
    · refine ⟨answer, ?_, by simp [Ne.symm hself, hfound]⟩
      show (if above.contains target = true then _ else _) = _
      rw [if_neg (fun h => hfound (List.contains_iff_mem.mp h)), hanswer]

/-- A node is one with a supertag, as is found upwards from its supertags, if it is among the nodes
that are found downwards from that one. -/
theorem isA_eq (hs : s.Sound) (hsingle : s.SingleParents) (now : Int) {n : Node}
    (hn : n ∈ s.liveNodes) {name : String} {target : Node}
    (htarget : s.findLive? name = .ok (some target)) :
    ∃ answer, s.isA (s.joined n) name = .ok answer ∧
      (answer = true ↔ s.joined n ∈ s.matching now [.supertag name true]) := by
  obtain ⟨answer, hanswer, hiff⟩ := hs.anyReaches_eq target.id (s.joined n).supertags
  obtain ⟨below, hbelow, hmem⟩ := hs.exists_descendants target.id
  refine ⟨answer, ?_, hiff.trans ?_⟩
  · rw [isA, htarget]
    exact hanswer
  · have hfilter : Filter.holds s now (s.joined n) (.supertag name true) = true ↔
        ∃ tag ∈ (s.joined n).supertags, tag.id ∈ below := by
      have haccepted : s.acceptedSupertags target.id true = .ok below := hbelow
      rw [holds_supertag htarget haccepted, List.any_eq_true]
      simp only [List.contains_iff_mem]
    have hjoined : s.joined n ∈ s.joinedNodes := List.mem_map_of_mem hn
    rw [matching, List.mem_filter, List.all_cons, List.all_nil, Bool.and_true, hfilter,
      and_iff_right hjoined]
    refine exists_congr fun tag => and_congr_right fun htag => ?_
    have htagLive := (hs.shows_joined hn).supertags tag htag
    rw [hmem]
    exact exists_congr fun steps => and_congr_right fun _ =>
      (hs.leads_iff hsingle htagLive (hs.isLive_of_findLive? htarget)).symm

/-- A live node is found by its identifier, in any form. -/
theorem findLiveId?_of_ofString? (hs : s.Sound) {id : NodeId} (h : s.IsLive id) {name : String}
    (hname : NodeId.ofString? name = some id) : s.findLiveId? name = .ok (some id) := by
  obtain ⟨n, hn⟩ := h
  obtain ⟨-, rfl⟩ := hs.node?_eq_some_iff.mp hn
  rw [findLiveId?, findLive?]
  simp only [NodeId.trim_of_ofString? hname, hname, hn]
  rfl

theorem findLiveId?_toString (hs : s.Sound) {id : NodeId} (h : s.IsLive id) :
    s.findLiveId? id.toString = .ok (some id) :=
  hs.findLiveId?_of_ofString? h (NodeId.ofString?_toString id)

/-- A node with a supertag counts as one with it or a supertag below it. -/
theorem nodesBySupertag_sublist (hs : s.Sound) (name : String) :
    ∃ direct inherited, s.nodesBySupertag name false = .ok direct ∧
      s.nodesBySupertag name true = .ok inherited ∧ direct.Sublist inherited := by
  refine ⟨_, _, hs.nodesBySupertag_eq 0 name false, hs.nodesBySupertag_eq 0 name true, ?_⟩
  refine List.monotone_filter_right _ fun n hn => ?_
  rw [List.all_cons, List.all_nil, Bool.and_true] at hn ⊢
  obtain ⟨found, hfound⟩ := hs.findLive?_succeeds name
  cases found with
  | none =>
    rw [holds_supertag_of_gone hfound] at hn
    cases hn
  | some tag =>
    obtain ⟨accepted, haccepted, hself, -⟩ :=
      hs.exists_acceptedSupertags (hs.isLive_of_findLive? hfound) true
    have hdirect : s.acceptedSupertags tag.id false = .ok [tag.id] := rfl
    rw [holds_supertag hfound hdirect, List.any_eq_true] at hn
    rw [holds_supertag hfound haccepted, List.any_eq_true]
    obtain ⟨t, ht, htag⟩ := hn
    have hid : t.id = tag.id := List.mem_singleton.mp (List.contains_iff_mem.mp htag)
    exact ⟨t, ht, List.contains_iff_mem.mpr (hid ▸ hself)⟩

/-- A query with one valid filter and without an order finds the nodes that match. -/
theorem evaluate_single (hs : s.Sound) (now : Int) {f : Filter} (hf : f.fault? = none)
    {limit : UInt64} (hlimit : limit ≠ 0) : s.evaluate now ⟨[f], none, limit⟩ =
      .ok ⟨(s.matching now [f]).take limit.toNat, (s.matching now [f]).length⟩ := by
  obtain ⟨arrangement, harranged, hpages⟩ := hs.evaluate_eq now [f] none
  obtain rfl : arrangement = s.matching now [f] := harranged
  refine hpages limit ?_
  simp [QueryDefinition.isValid, QueryDefinition.fault?, Filter.firstFault?, hlimit, hf]

/-- A query for the children of a live node finds the nodes that it owns. -/
theorem evaluate_childOf (hs : s.Sound) {owner : NodeId} (howner : s.IsLive owner) :
    ∃ children, s.listNodes (some owner) false = .ok children ∧ ∀ now limit, limit ≠ 0 →
      ∃ page, s.evaluate now ⟨[.relation .childOf (some owner.toString) none], none, limit⟩ =
          .ok page ∧ page.totalCount = children.length ∧
        (page.totalCount ≤ limit.toNat → page.nodeIds = children.map (·.id)) := by
  have hfault : (Filter.relation .childOf (some owner.toString) none).fault? = none := by
    rw [Filter.fault?, HandleSlot.optionalFault?, Option.bind_some, HandleSlot.fault?,
      NodeId.isBlankText_toString]
    rfl
  obtain ⟨children, hchildren, hmatching⟩ := hs.listNodes_owner (hs.findLiveId?_toString howner)
  refine ⟨children, hchildren, fun now limit hlimit =>
    ⟨_, hs.evaluate_single now hfault hlimit, ?_, fun htotal => ?_⟩⟩
  · rw [hmatching now, List.length_map]
  · rw [QueryPage.nodeIds, List.take_of_length_le htotal, hmatching now, List.map_map]
    exact List.map_congr_left fun n _ => s.joined_id n

end Sound

/-- On every store that a run leaves, looking up a supertag and asking for it in a query give the
same list of different nodes, of which those with the supertag itself are some. In the same way
the nodes of a live owner are those that a query for its children gives. -/
theorem nodesBySupertag_run (steps : List Step) (name : String)
    (hname : Text.isBlankText name = false) :
    let s := Store.empty.run steps
    (∀ includeInherited, ∃ nodes, s.nodesBySupertag name includeInherited = .ok nodes ∧
      (nodes.map (·.id)).Nodup ∧ ∀ now limit, limit ≠ 0 →
        ∃ page, s.evaluate now ⟨[.supertag name includeInherited], none, limit⟩ = .ok page ∧
          page.totalCount = nodes.length ∧
          (page.totalCount ≤ limit.toNat → page.nodes = nodes)) ∧
    (∃ direct inherited, s.nodesBySupertag name false = .ok direct ∧
      s.nodesBySupertag name true = .ok inherited ∧ direct.Sublist inherited) ∧
    ∀ owner, s.IsLive owner → ∃ children, s.listNodes (some owner) false = .ok children ∧
      ∀ now limit, limit ≠ 0 →
        ∃ page, s.evaluate now ⟨[.relation .childOf (some owner.toString) none], none, limit⟩ =
            .ok page ∧ page.totalCount = children.length ∧
          (page.totalCount ≤ limit.toNat → page.nodeIds = children.map (·.id)) := by
  intro s
  have hs : s.Sound := empty_sound.run steps
  refine ⟨fun includeInherited => ?_, hs.nodesBySupertag_sublist name,
    fun owner howner => hs.evaluate_childOf howner⟩
  have hfault : (Filter.supertag name includeInherited).fault? = none := by
    rw [Filter.fault?, HandleSlot.fault?, hname]
    rfl
  refine ⟨_, hs.nodesBySupertag_eq 0 name includeInherited,
    hs.joinedNodes_ids_nodup.sublist (List.filter_sublist.map _), fun now limit hlimit => ?_⟩
  have htime : s.matching now [.supertag name includeInherited] =
      s.matching 0 [.supertag name includeInherited] :=
    Except.ok.inj ((hs.nodesBySupertag_eq now name includeInherited).symm.trans
      (hs.nodesBySupertag_eq 0 name includeInherited))
  rw [← htime]
  exact ⟨_, hs.evaluate_single now hfault hlimit, rfl, List.take_of_length_le⟩

/-- A supertag that one node carries. -/
theorem nodesBySupertag_run_carried :
    let create (id : Nat) (h : id < 2 ^ 128) (systemId : String) (supertags : List String) : Step :=
      ⟨5, .graph (.createNode ⟨⟨id, h⟩, systemId, some systemId, none, supertags⟩)⟩
    let steps := [create 1 (by decide) "field:supertag" [], create 2 (by decide) "supertag:food" [],
      create 3 (by decide) "shop:milk" ["supertag:food"]]
    Text.isBlankText "supertag:food" = false ∧
    ∃ nodes, (Store.empty.run steps).nodesBySupertag "supertag:food" true = .ok nodes ∧
      (nodes.map (·.id)).Nodup ∧ ∃ page, (Store.empty.run steps).evaluate 7
        ⟨[.supertag "supertag:food" true], none, 1⟩ = .ok page ∧
          page.totalCount = nodes.length := by
  intro create steps
  have hname : Text.isBlankText "supertag:food" = false := by decide
  obtain ⟨hlookup, -, -⟩ := nodesBySupertag_run steps "supertag:food" hname
  obtain ⟨nodes, hnodes, hnodup, hevaluate⟩ := hlookup true
  obtain ⟨page, hpage, htotal, -⟩ := hevaluate 7 1 (by decide)
  exact ⟨hname, nodes, hnodes, hnodup, page, hpage, htotal⟩

/-- If no live node has two rows of `field:extends`, climbing from the supertags of a live node
comes to a live supertag exactly if the node is found by going down from that one. Both ways follow
at most `maxDepth` steps, and these are the same ones. -/
theorem isA_run (steps : List Step) (hsingle : (Store.empty.run steps).SingleParents) :
    let s := Store.empty.run steps
    (∀ id name target, s.IsLive id → s.findLive? name = .ok (some target) →
      ∃ node nodes answer, s.assemble? id = .ok (some node) ∧
        s.nodesBySupertag name true = .ok nodes ∧ s.isA node name = .ok answer ∧
        (answer = true ↔ id ∈ nodes.map (·.id))) ∧
    ∀ supertag target, s.IsLive supertag → s.IsLive target →
      ∃ above below, s.ancestors supertag = .ok above ∧ s.descendants target = .ok below ∧
        (supertag ∈ below ↔ target = supertag ∨ target ∈ above) ∧
        (supertag ∈ below ↔ LeadsWithin (fun child parent => s.parent? child = .ok (some parent))
          maxDepth supertag target) := by
  intro s
  have hs : s.Sound := empty_sound.run steps
  refine ⟨fun id name target hid htarget => ?_, fun supertag target hsupertag htarget => ?_⟩
  · obtain ⟨n, hn⟩ := hid
    obtain ⟨hmem, rfl⟩ := hs.node?_eq_some_iff.mp hn
    obtain ⟨answer, hanswer, hiff⟩ := hs.isA_eq hsingle 0 hmem htarget
    refine ⟨s.joined n, _, answer, ?_, hs.nodesBySupertag_eq 0 name true, hanswer, hiff.trans ?_⟩
    · rw [hs.assemble?_eq, hn]
      rfl
    -- Live nodes are told apart by their identifiers.
    · refine ⟨List.mem_map_of_mem, fun hfound => ?_⟩
      obtain ⟨node, hnode, hid⟩ := List.mem_map.mp hfound
      have hjoined : s.joined n ∈ s.joinedNodes := List.mem_map_of_mem hmem
      rwa [← List.inj_on_of_nodup_map hs.joinedNodes_ids_nodup (List.mem_filter.mp hnode).1 hjoined
        hid]
  · obtain ⟨above, habove, hup⟩ := hs.exists_ancestors supertag
    obtain ⟨below, hbelow, hdown⟩ := hs.exists_descendants target
    have hreach : supertag ∈ below ↔
        LeadsWithin (fun c p => s.parent? c = .ok (some p)) maxDepth supertag target :=
      (hdown supertag).trans <| exists_congr fun _ => and_congr_right fun _ =>
        hs.leads_iff hsingle hsupertag htarget
    exact ⟨above, below, habove, hbelow, hreach.trans (hup target).symm, hreach⟩

/-- A supertag that extends another one. -/
theorem isA_run_extending :
    let id (i : Nat) (h : i < 2 ^ 128) : NodeId := ⟨i, h⟩
    let create (id : NodeId) (systemId : String) : Step :=
      ⟨5, .graph (.createNode ⟨id, systemId, some systemId, none, []⟩)⟩
    let food := id 2 (by decide)
    let milk := id 3 (by decide)
    let steps := [create (id 1 (by decide)) Handle.fieldExtends, create food "supertag:food",
      create milk "supertag:milk",
      ⟨6, .graph (.setProperty milk Handle.fieldExtends (.node food) none)⟩]
    let s := Store.empty.run steps
    s.SingleParents ∧ s.IsLive milk ∧ s.IsLive food ∧
    ∃ above below, s.ancestors milk = .ok above ∧ s.descendants food = .ok below ∧
      (milk ∈ below ↔ food = milk ∨ food ∈ above) := by
  intro id create food milk steps s
  have hs : s.Sound := empty_sound.run steps
  have hsingle : s.SingleParents := singleParents_of_length_le (by decide +kernel)
  have hmilk : s.IsLive milk := hs.isLive_of_liveRecordOf? (by decide +kernel)
  have hfood : s.IsLive food := hs.isLive_of_liveRecordOf? (by decide +kernel)
  obtain ⟨-, hreach⟩ := isA_run steps hsingle
  obtain ⟨above, below, habove, hbelow, hiff, -⟩ := hreach milk food hmilk hfood
  exact ⟨hsingle, hmilk, hfood, above, below, habove, hbelow, hiff⟩

end Store

end TagGraph
