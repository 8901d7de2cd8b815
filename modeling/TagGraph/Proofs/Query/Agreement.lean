import TagGraph.Proofs.Field.Frame
import TagGraph.Proofs.Query.Splitting

/-!
# Stores that agree beside some rows

Two stores may show the same but for the rows of one node in some fields, and for the times at which
nodes were last changed (`Store.AgreesBeside`). Then names stand for the same, supertags are
inherited in the same way, nodes have the same values under all other fields, and they stand in the
same relations as long as these do not read the rows. Nodes with the same keys are put in the same
order.
-/

namespace TagGraph

open Reading

/-- A node without the time of its last change. -/
def Node.undated (n : Node) : Node :=
  { n with updatedAt := 0 }

theorem Node.of_undated {n n' : Node} (h : n'.undated = n.undated) : n'.id = n.id ∧
    n'.content = n.content ∧ n'.ownerId = n.ownerId ∧ n'.createdAt = n.createdAt := by
  simp only [undated, Node.mk.injEq] at h
  exact ⟨h.1, h.2.1, h.2.2.2.2.1, h.2.2.2.2.2.1⟩

/-- Lists have the same images exactly if their elements have, pair by pair. -/
theorem map_eq_map_iff_forall₂ {α β γ : Type} {f : α → γ} {g : β → γ} {l : List α} {l' : List β} :
    l'.map g = l.map f ↔ List.Forall₂ (fun a b => g b = f a) l l' := by
  rw [eq_comm, ← List.forall₂_eq_eq_eq, List.forall₂_map_left_iff, List.forall₂_map_right_iff]
  simp only [eq_comm]

/-! ## Order -/

/-- A node of which nothing but the identifier is told. -/
def AssembledNode.bare (id : NodeId) : AssembledNode :=
  ⟨id, "", none, none, 0, 0, [], [], [], []⟩

/-- A ranked node of which nothing is told but what its order goes by, and its identifier. -/
def RankedNode.bare (r : RankedNode) : RankedNode :=
  { r with node := .bare r.node.id }

/-- Nodes with the same keys, at the same places, are put in the same order. -/
theorem RankedNode.ids_sort {direction : SortDirection} {l l' : List RankedNode}
    (h : l'.map bare = l.map bare) :
    ((sort direction l').map (·.node)).map (·.id) =
      ((sort direction l).map (·.node)).map (·.id) := by
  have hbare (l : List RankedNode) : ((sort direction l).map (·.node)).map (·.id) =
      (sort direction (l.map bare)).map (·.node.id) := by
    -- The order never looks at what is left out.
    have hsort : (sort direction l).map bare = sort direction (l.map bare) :=
      List.map_mergeSort fun _ _ _ _ => rfl
    rw [← hsort, List.map_map, List.map_map]
    rfl
  rw [hbare, hbare, h]

namespace Store

variable {s s' : Store}

theorem ranked_map_bare (s : Store) (field : String) (nodes : List AssembledNode) :
    (s.ranked field nodes).map RankedNode.bare =
      (nodes.map fun n => (s.sortKeyOf field n, n.id)).mapIdx
        fun place n => ⟨n.1, place, .bare n.2⟩ := by
  refine List.ext_getElem (by simp [ranked]) fun i h₁ h₂ => ?_
  simp [ranked, RankedNode.bare]

/-- Nodes with the same identifiers and keys are arranged in the same order. -/
theorem Arranged.ids_eq {sort : Option QuerySort}
    {nodes nodes' arrangement arrangement' : List AssembledNode}
    (h : s.Arranged sort nodes arrangement) (h' : s'.Arranged sort nodes' arrangement')
    (hids : nodes'.map (·.id) = nodes.map (·.id))
    (hkeys : ∀ o ∈ sort, nodes'.map (fun n => (s'.sortKeyOf o.field n, n.id)) =
      nodes.map fun n => (s.sortKeyOf o.field n, n.id)) :
    arrangement'.map (·.id) = arrangement.map (·.id) := by
  cases sort with
  | none =>
    obtain rfl : arrangement = nodes := h
    obtain rfl : arrangement' = nodes' := h'
    exact hids
  | some o =>
    rw [h.eq_sort, h'.eq_sort]
    apply RankedNode.ids_sort
    rw [ranked_map_bare, ranked_map_bare, hkeys o rfl]

/-! ## References -/

/-- What values that are read from texts refer to is what the texts refer to. -/
theorem mem_referenced_of_texts {raws : List String} {id : NodeId} :
    id ∈ (raws.filterMap PropertyValue.decode?).flatMap (·.referenced) ↔
      ∃ raw ∈ raws, id ∈ PropertyValue.referencedIn raw := by
  simp only [List.mem_flatMap, List.mem_filterMap, PropertyValue.referencedIn]
  constructor
  · rintro ⟨value, ⟨raw, hraw, hdecode⟩, hid⟩
    exact ⟨raw, hraw, by rwa [hdecode]⟩
  · rintro ⟨raw, hraw, hid⟩
    cases hdecode : PropertyValue.decode? raw with
    | none =>
      rw [hdecode] at hid
      cases hid
    | some value => exact ⟨value, ⟨raw, hraw, hdecode⟩, by rwa [hdecode] at hid⟩

/-- A node refers to another one in one of some live fields. -/
def Refers (s : Store) (fields : NodeId → Prop) (node id : NodeId) : Prop :=
  ∃ field, fields field ∧ s.IsLive field ∧
    ∃ raw ∈ s.texts node field, id ∈ PropertyValue.referencedIn raw

/-- The references in a field count: in the wanted field alone, or in any but `field:supertag`. -/
def Counts (s : Store) (wanted : Option NodeId) (field : NodeId) : Prop :=
  match wanted with
  | some wanted => field = wanted
  | none => ¬ s.Holds (.known field) (some Handle.fieldSupertag)

/-- A node refers to another one in any field but `field:supertag`. -/
def Links (s : Store) (node id : NodeId) : Prop :=
  s.Refers (s.Counts none) node id

/-- Whether a node stands in a relation to a target, or to any node, given who refers to whom. -/
def Related (s : Store) (refers : NodeId → NodeId → Prop) (n : Node) (kind : RelationKind)
    (target : Option NodeId) : Prop :=
  match kind, target with
  | .childOf, some target | .ownedBy, some target => n.ownerId = some target
  | .childOf, none | .ownedBy, none => n.ownerId ≠ none
  | .linksTo, some target => refers n.id target
  | .linksTo, none => ∃ id, refers n.id id
  | .linkedFrom, some target => s.IsLive target ∧ refers target n.id
  | .linkedFrom, none => ∃ m, s.IsLive m ∧ refers m n.id

namespace Sound

theorem countsReferences_iff (hs : s.Sound) {wanted : Option NodeId} {field : NodeId} :
    countsReferences wanted (found? s.supertagFieldId?) field = true ↔ s.Counts wanted field := by
  cases wanted with
  | some wanted => exact beq_iff_eq
  | none =>
    obtain ⟨found, hfound⟩ := hs.nodeBySystemId?_succeeds Handle.fieldSupertag
    rw [supertagFieldId?, hfound]
    cases found with
    | none => exact iff_of_true rfl (not_holds_of_nodeBySystemId? hfound _)
    | some n =>
      have hn := hs.holds_of_nodeBySystemId? hfound
      show (some field != some n.id) = true ↔ ¬ s.Holds (.known field) (some Handle.fieldSupertag)
      rw [bne_iff_ne, ne_eq, Option.some.injEq]
      refine not_congr ⟨fun heq => heq ▸ hn, fun hholds => ?_⟩
      exact StoredId.known.inj (hs.holds_unique hholds hn)

theorem findLiveId?_of_found (hs : s.Sound) {name : String} {id : NodeId}
    (h : found? (s.findLiveId? name) = some id) : s.findLiveId? name = .ok (some id) := by
  rw [(hs.findLiveId?_succeeds name).eq_ok_found, h]

theorem holds_of_findLiveId? (hs : s.Sound) {handle : String} (hname : IsName handle) {id : NodeId}
    (h : s.findLiveId? handle = .ok (some id)) : s.Holds (.known id) (some handle) := by
  obtain ⟨found, hfound, h⟩ := Reading.bind_ok (r := s.findLive? handle) h
  obtain ⟨n, rfl, rfl⟩ := Option.map_eq_some_iff.mp (Except.ok.inj h)
  exact hs.holds_of_found hname hfound

/-- A node has under a live field the values of its texts, and under any other one none. -/
theorem valuesByFieldId_eq_texts (hs : s.Sound) (n : Node) (field : NodeId) :
    (s.joined n).valuesByFieldId field =
      if s.IsLive field then (s.texts n.id field).filterMap PropertyValue.decode? else [] := by
  rw [hs.valuesByFieldId_eq, ← hs.fieldRowsOf_values, List.filterMap_map]
  rfl

/-- The values under a field refer to what the texts of the field refer to, if the field is live. -/
theorem mem_referenced_iff (hs : s.Sound) {n : Node} {field id : NodeId} :
    id ∈ ((s.joined n).valuesByFieldId field).flatMap (·.referenced) ↔
      s.IsLive field ∧ ∃ raw ∈ s.texts n.id field, id ∈ PropertyValue.referencedIn raw := by
  rw [hs.valuesByFieldId_eq_texts]
  by_cases hlive : s.IsLive field
  · rw [if_pos hlive, and_iff_right hlive]
    exact mem_referenced_of_texts
  · rw [if_neg hlive]
    exact iff_of_false List.not_mem_nil fun h => hlive h.1

theorem mem_referencesOf_iff (hs : s.Sound) {n : Node} {wanted : Option NodeId} {id : NodeId} :
    id ∈ s.referencesOf (s.joined n) wanted ↔ s.Refers (s.Counts wanted) n.id id := by
  rw [referencesOf, mem_references_joined]
  simp only [PropertyValue.flatten_referenced, hs.countsReferences_iff, hs.mem_referenced_iff,
    Refers]

/-- What relations mean depends on the owners of nodes, and on who refers to whom. -/
theorem relates_joined_iff (hs : s.Sound) (n : Node) (kind : RelationKind)
    (target field : Option NodeId) : s.relates (s.joined n) kind target field = true ↔
      s.Related (s.Refers (s.Counts field)) n kind target := by
  -- Children and owned nodes are told by the owner alone.
  have howner : s.relates (s.joined n) .childOf target field = true ↔
      s.Related (s.Refers (s.Counts field)) n .childOf target := by
    cases target with
    | some target => exact beq_iff_eq
    | none => exact Option.isSome_iff_ne_none
  cases kind with
  | childOf => exact howner
  | ownedBy => cases target <;> exact howner
  | linksTo =>
    cases target with
    | some target => exact List.contains_iff_mem.trans hs.mem_referencesOf_iff
    | none =>
      show (!(s.referencesOf (s.joined n) field).isEmpty) = true ↔ _
      rw [Bool.not_eq_true', List.isEmpty_eq_false_iff_exists_mem]
      exact exists_congr fun id => hs.mem_referencesOf_iff
  | linkedFrom =>
    cases target with
    | some target =>
      obtain ⟨found, hfound⟩ := hs.node?_succeeds target
      have hassembled : found? (s.assemble? target) = found.map s.joined := by
        rw [hs.assemble?_eq, hfound, found?_ok, found?_ok]
      show ((found? (s.assemble? target)).any fun source =>
        (s.referencesOf source field).contains n.id) = true ↔ s.IsLive target ∧ _
      rw [hassembled]
      cases found with
      | none =>
        refine iff_of_false Bool.false_ne_true fun h => ?_
        obtain ⟨m, hm⟩ := h.1
        cases hfound.symm.trans hm
      | some m =>
        obtain ⟨-, rfl⟩ := hs.node?_eq_some_iff.mp hfound
        rw [and_iff_right (show s.IsLive m.id from ⟨m, hfound⟩)]
        exact List.contains_iff_mem.trans hs.mem_referencesOf_iff
    | none =>
      show (s.joinedNodes.any fun source => (s.referencesOf source field).contains n.id) = true ↔
        ∃ m, s.IsLive m ∧ _
      rw [joinedNodes, List.any_map, List.any_eq_true]
      constructor
      · rintro ⟨m, hm, hmem⟩
        exact ⟨m.id, hs.isLive_of_mem_liveNodes hm,
          hs.mem_referencesOf_iff.mp (List.contains_iff_mem.mp hmem)⟩
      · rintro ⟨_, ⟨m, hfound⟩, hrefers⟩
        obtain ⟨hm, rfl⟩ := hs.node?_eq_some_iff.mp hfound
        exact ⟨m, hm, List.contains_iff_mem.mpr (hs.mem_referencesOf_iff.mpr hrefers)⟩

/-- A filter for a relation without a field holds of the nodes that stand in it. -/
theorem holds_relation_iff (hs : s.Sound) {name : Option String} {target : Option NodeId}
    (h : s.named? name = some target) (now : Int) (n : Node) (kind : RelationKind) :
    Filter.holds s now (s.joined n) (.relation kind name none) = true ↔
      s.Related s.Links n kind target := by
  rw [Filter.holds, h, Option.any_some, named?, Option.any_some]
  exact hs.relates_joined_iff n kind target none

/-- A node carries the supertags that its rows of `field:supertag` refer to. -/
theorem carries_iff (hs : s.Sound) {node tag : NodeId} : s.Carries node tag ↔
    s.Refers (fun field => s.Holds (.known field) (some Handle.fieldSupertag)) node tag := by
  simp only [Refers, mem_texts]
  constructor
  · rintro ⟨r, hr, hnode, hfield, htag⟩
    obtain ⟨row, rfl⟩ := hs.rows r hr
    exact ⟨row.fieldId, hfield, hs.isLive_iff.mpr ⟨_, hfield⟩, _,
      ⟨row.record, hr, hnode, rfl, rfl⟩, htag⟩
  · rintro ⟨field, hfield, -, _, ⟨r, hr, hnode, hfieldId, rfl⟩, htag⟩
    exact ⟨r, hr, hnode, hfieldId ▸ hfield, htag⟩

/-- The supertags that count as one: those below it, or it alone. -/
theorem mem_acceptedSupertags (hs : s.Sound) (supertag : NodeId) (includeInherited : Bool) :
    ∃ accepted, s.acceptedSupertags supertag includeInherited = .ok accepted ∧
      ∀ id, id ∈ accepted ↔ if includeInherited then
        LeadsWithin (fun p c => s.Names c p) maxDepth supertag id else id = supertag := by
  cases includeInherited with
  | false => exact ⟨[supertag], rfl, fun id => by simp⟩
  | true =>
    obtain ⟨below, hbelow, hmem⟩ := hs.exists_descendants supertag
    exact ⟨below, hbelow, fun id => by simpa using hmem id⟩

end Sound

/-! ## Times of change -/

/-- Where the times of change have moved on, the live nodes are the same but for these times. -/
theorem Sound.undated_liveNodes (hs : s.Sound) (hs' : s'.Sound) {node : NodeId}
    (h : List.Forall₂ (NodeRecord.MovesOn node) s.nodes s'.nodes) :
    s'.liveNodes.map Node.undated = s.liveNodes.map Node.undated := by
  obtain ⟨all, hall, hlive⟩ := hs.liveNodes_eq
  obtain ⟨all', hall', hlive'⟩ := hs'.liveNodes_eq
  have hsame : all'.map Node.undated = all.map Node.undated := by
    rw [hall, hall', List.forall₂_map_left_iff, List.forall₂_map_right_iff] at h
    refine map_eq_map_iff_forall₂.mpr (h.imp fun a b hab => ?_)
    rcases hab with heq | ⟨n, time, ha, -, -, hb⟩
    · rw [Node.record_injective heq]
    · rw [Node.record_injective ha, Node.record_injective hb]
      rfl
  -- Neither the order of creation nor deletion depends on the times of change.
  have hundated (l : List Node) : ((l.mergeSort fun a b => decide
      (a.createdAt ≤ b.createdAt)).filter (·.isActive)).map Node.undated =
        ((l.map Node.undated).mergeSort fun a b => decide
          (a.createdAt ≤ b.createdAt)).filter (·.isActive) := by
    have hsort : (l.mergeSort fun a b => decide (a.createdAt ≤ b.createdAt)).map Node.undated =
        (l.map Node.undated).mergeSort fun a b => decide (a.createdAt ≤ b.createdAt) :=
      List.map_mergeSort fun _ _ _ _ => rfl
    rw [← hsort, List.filter_map]
    rfl
  rw [hlive, hlive', hundated, hundated, hsame]

/-! ## Agreement -/

/-- A live node has one of some handles. -/
def HasOneOf (s : Store) (handles : String → Prop) (id : NodeId) : Prop :=
  ∃ handle, handles handle ∧ s.Holds (.known id) (some handle)

theorem HasOneOf.not_holds {handles : String → Prop} {id : NodeId} (h : s.HasOneOf handles id)
    (hs : s.Sound) {handle : String} (hhandle : ¬ handles handle) :
    ¬ s.Holds (.known id) (some handle) := by
  obtain ⟨other, hother, hid⟩ := h
  intro hholds
  obtain rfl := Option.some.inj (hs.handle_unique hid hholds)
  exact hhandle hother

/-- A store shows what another one shows, but for the rows of a node in some fields and for times of
change. -/
structure AgreesBeside (q : NodeId) (hidden : NodeId → Prop) (s s' : Store) : Prop where
  sound : s'.Sound
  holds : ∀ id handle, s'.Holds id handle ↔ s.Holds id handle
  nodes : s'.liveNodes.map Node.undated = s.liveNodes.map Node.undated
  texts : ∀ n f, ¬ (n = q ∧ hidden f) → s'.texts n f = s.texts n f

namespace AgreesBeside

variable {q : NodeId} {hidden hidden' : NodeId → Prop} {t : Store}

theorem refl (hs : s.Sound) : AgreesBeside q hidden s s :=
  ⟨hs, fun _ _ => Iff.rfl, rfl, fun _ _ _ => rfl⟩

theorem trans (h : AgreesBeside q hidden s t) (h' : AgreesBeside q hidden t s') :
    AgreesBeside q hidden s s' where
  sound := h'.sound
  holds id handle := (h'.holds id handle).trans (h.holds id handle)
  nodes := h'.nodes.trans h.nodes
  texts n f hne := (h'.texts n f hne).trans (h.texts n f hne)

theorem mono (h : AgreesBeside q hidden s s') (hle : ∀ f, hidden f → hidden' f) :
    AgreesBeside q hidden' s s' :=
  { h with texts := fun n f hne => h.texts n f fun hat => hne ⟨hat.1, hle f hat.2⟩ }

/-- An edit of a field leaves everything beside the rows of the field. -/
theorem of_editsField {α : Type} {e : Edit α} {field : String} {values : List PropertyValue}
    (he : Edit.EditsField e s q field values) (hsound : Edit.Respects (Natively Changes) e)
    (hs : s.Sound) (hname : IsName field) :
    AgreesBeside q (fun f => s.Holds (.known f) (some field)) s (e.after s) := by
  have hs' := hs.after hsound
  have hnodes : List.Forall₂ (NodeRecord.MovesOn q) s.nodes (e.after s).nodes := by
    have hbeside := fun f (hf : s.findLive? field = .ok (some f)) => (he.beside hs hf).nodes
    rcases he with hsame | ⟨fieldNode, hadmits, -⟩
    · rw [hsame]
      exact List.forall₂_same.mpr fun _ _ => Or.inl rfl
    · exact hbeside fieldNode hadmits.found
  exact ⟨hs', fun _ _ => he.holds_iff hs, hs.undated_liveNodes hs' hnodes,
    fun n f hne => he.texts_apart hs hname fun hn hf => hne ⟨hn, hf⟩⟩

variable (h : AgreesBeside q hidden s s') (hs : s.Sound)

include h hs

/-! ### What names stand for -/

theorem isLive_iff (id : NodeId) : s'.IsLive id ↔ s.IsLive id :=
  hs.isLive_congr h.sound h.holds

theorem findLiveId?_eq (name : String) : s'.findLiveId? name = s.findLiveId? name := by
  -- What one store finds the other one does, and this goes both ways.
  have hfind : ∀ {a b : Store}, a.Sound → b.Sound → (∀ id handle, b.Holds id handle ↔
      a.Holds id handle) → ∀ id, a.findLiveId? name = .ok (some id) →
        b.findLiveId? name = .ok (some id) := by
    intro a b ha hb hholds id hid
    obtain ⟨found, hfound, hid⟩ := Reading.bind_ok (r := a.findLive? name) hid
    cases found with
    | none => cases hid
    | some n =>
      obtain rfl := Option.some.inj (Except.ok.inj hid)
      obtain ⟨n', hfound', hid'⟩ := ha.findLive?_of_same hb hholds hfound
      rw [findLiveId?, hfound']
      exact congrArg (fun id => Except.ok (some id)) hid'
  exact (h.sound.findLiveId?_succeeds name).eq_of_found (hs.findLiveId?_succeeds name) fun id =>
    ⟨hfind h.sound hs (fun id handle => (h.holds id handle).symm) id,
      hfind hs h.sound h.holds id⟩

theorem named?_eq (name : Option String) : s'.named? name = s.named? name := by
  cases name with
  | none => rfl
  | some name => rw [named?, named?, h.findLiveId?_eq hs]

theorem hasField_iff {field : String} (hname : IsName field) :
    s'.HasField field ↔ s.HasField field := by
  rw [Store.hasField_iff h.sound hname, Store.hasField_iff hs hname]
  simp only [h.holds]

theorem textsIn_eq {field : String} (hname : IsName field)
    (hfield : ∀ f, hidden f → ¬ s.Holds (.known f) (some field)) (node : NodeId) :
    s'.textsIn node field = s.textsIn node field := by
  by_cases hhas : s.HasField field
  · obtain ⟨f, hf⟩ := (Store.hasField_iff hs hname).mp hhas
    rw [textsIn_of_holds hs hname hf, textsIn_of_holds h.sound hname ((h.holds _ _).mpr hf),
      h.texts node f fun hat => hfield f hat.2 hf]
  · rw [textsIn_of_not_hasField hhas,
      textsIn_of_not_hasField fun hhas' => hhas ((h.hasField_iff hs hname).mp hhas')]

/-! ### Supertags -/

theorem refers_iff {fields : NodeId → Prop} {node : NodeId}
    (hfields : node = q → ∀ f, fields f → ¬ hidden f) (id : NodeId) :
    s'.Refers fields node id ↔ s.Refers fields node id := by
  refine exists_congr fun field => and_congr_right fun hfield => ?_
  rw [h.isLive_iff hs, h.texts node field fun hat => hfields hat.1 field hfield hat.2]

/-- The node of the hidden rows refers to what these do, and to what it did otherwise. -/
theorem refers_self_iff (fields : NodeId → Prop) (id : NodeId) : s'.Refers fields q id ↔
    s'.Refers (fun field => fields field ∧ hidden field) q id ∨
      s.Refers (fun field => fields field ∧ ¬ hidden field) q id := by
  rw [← h.refers_iff hs (fun _ _ hf => hf.2)]
  constructor
  · rintro ⟨field, hfield, hrest⟩
    by_cases hhidden : hidden field
    · exact Or.inl ⟨field, ⟨hfield, hhidden⟩, hrest⟩
    · exact Or.inr ⟨field, ⟨hfield, hhidden⟩, hrest⟩
  · rintro (⟨field, hfield, hrest⟩ | ⟨field, hfield, hrest⟩)
    · exact ⟨field, hfield.1, hrest⟩
    · exact ⟨field, hfield.1, hrest⟩

theorem carries_iff (hsupertag : ∀ f, hidden f → ¬ s.Holds (.known f) (some Handle.fieldSupertag))
    (node tag : NodeId) : s'.Carries node tag ↔ s.Carries node tag := by
  rw [h.sound.carries_iff, hs.carries_iff]
  simp only [h.holds]
  exact h.refers_iff hs (fun _ f hf hhidden => hsupertag f hhidden hf) tag

theorem names_eq (hextends : ∀ f, hidden f → ¬ s.Holds (.known f) (some Handle.fieldExtends)) :
    s'.Names = s.Names := by
  funext child parent
  by_cases hfield : ∃ field, s.Holds (.known field) (some Handle.fieldExtends)
  · obtain ⟨field, hfield⟩ := hfield
    have hfield' := (h.holds _ _).mpr hfield
    have htexts : s'.texts child field = s.texts child field :=
      h.texts child field fun hat => hextends field hat.2 hfield
    by_cases hlive : s.IsLive child
    · have hlive' := (h.isLive_iff hs child).mpr hlive
      rw [hs.names_iff hfield hlive, h.sound.names_iff hfield' hlive', htexts]
    · refine propext (iff_of_false (fun hnames => ?_) fun hnames => ?_)
      · exact hlive ((h.isLive_iff hs child).mp (h.sound.isLive_iff.mpr hnames.1))
      · exact hlive (hs.isLive_iff.mpr hnames.1)
  · -- Without the field nobody names a parent.
    have hnone : ∀ {a : Store}, a.Sound → (∀ id handle, a.Holds id handle ↔ s.Holds id handle) →
        ¬ a.Names child parent := by
      rintro a ha hholds ⟨-, r, hr, -, hextends, -⟩
      obtain ⟨row, rfl⟩ := ha.rows r hr
      exact hfield ⟨row.fieldId, (hholds _ _).mp hextends⟩
    exact propext (iff_of_false (hnone h.sound h.holds) (hnone hs fun _ _ => Iff.rfl))

/-- A filter by supertag holds of the same nodes. -/
theorem holds_supertag
    (hsupertag : ∀ f, hidden f → ¬ s.Holds (.known f) (some Handle.fieldSupertag))
    (hextends : ∀ f, hidden f → ¬ s.Holds (.known f) (some Handle.fieldExtends)) {n n' : Node}
    (hid : n'.id = n.id) (now later : Int) (name : String) (includeInherited : Bool) :
    Filter.holds s' later (s'.joined n') (.supertag name includeInherited) =
      Filter.holds s now (s.joined n) (.supertag name includeInherited) := by
  have hname := h.findLiveId?_eq hs name
  obtain ⟨found, hfound⟩ := hs.findLive?_succeeds name
  obtain ⟨found', hfound'⟩ := h.sound.findLive?_succeeds name
  rw [findLiveId?, findLiveId?, hfound, hfound'] at hname
  have hfounds : found'.map (·.id) = found.map (·.id) := Except.ok.inj hname
  cases found with
  | none =>
    obtain rfl : found' = none := by simpa using hfounds
    rw [Sound.holds_supertag_of_gone hfound, Sound.holds_supertag_of_gone hfound']
  | some tag =>
    obtain ⟨tag', rfl, htag⟩ := Option.map_eq_some_iff.mp hfounds
    obtain ⟨accepted, haccepted, hmem⟩ := hs.mem_acceptedSupertags tag.id includeInherited
    obtain ⟨accepted', haccepted', hmem'⟩ :=
      h.sound.mem_acceptedSupertags tag'.id includeInherited
    rw [Sound.holds_supertag hfound haccepted, Sound.holds_supertag hfound' haccepted']
    -- The supertags that a node shows are those that it carries and that are live.
    have hany : ∀ {a : Store} {m : Node} {ids : List NodeId}, a.Sound →
        (((a.joined m).supertags.any fun t => ids.contains t.id) = true ↔
          ∃ id, (a.Carries m.id id ∧ a.IsLive id) ∧ id ∈ ids) := by
      intro a m ids ha
      simp only [← ha.mem_ids_supertags_joined, List.any_eq_true, List.contains_iff_mem,
        List.mem_map]
      constructor
      · rintro ⟨t, ht, hids⟩
        exact ⟨t.id, ⟨t, ht, rfl⟩, hids⟩
      · rintro ⟨_, ⟨t, ht, rfl⟩, hids⟩
        exact ⟨t, ht, hids⟩
    rw [Bool.eq_iff_iff, hany h.sound, hany hs]
    simp only [hmem, hmem', htag, hid, h.names_eq hs hextends, h.carries_iff hs hsupertag,
      h.isLive_iff hs]

/-! ### Values -/

/-- A node has the same values under a field whose rows agree. -/
theorem valuesByFieldId_eq {n n' : Node} (hid : n'.id = n.id) {field : NodeId}
    (hfield : ¬ hidden field) :
    (s'.joined n').valuesByFieldId field = (s.joined n).valuesByFieldId field := by
  rw [h.sound.valuesByFieldId_eq_texts, hs.valuesByFieldId_eq_texts, hid,
    h.texts n.id field fun hat => hfield hat.2]
  simp only [h.isLive_iff hs]

/-! ### Relations -/

omit hs in
theorem counts_eq (wanted : Option NodeId) : s'.Counts wanted = s.Counts wanted := by
  cases wanted with
  | some wanted => rfl
  | none => exact funext fun field => propext (not_congr (h.holds _ _))

/-- The references in a field whose rows agree are the same. -/
theorem refers_some_iff {wanted : NodeId} (hwanted : ¬ hidden wanted) (node id : NodeId) :
    s'.Refers (s'.Counts (some wanted)) node id ↔ s.Refers (s.Counts (some wanted)) node id :=
  h.refers_iff hs (fun _ f hf => (show f = wanted from hf) ▸ hwanted) id

theorem related_iff {refers refers' : NodeId → NodeId → Prop}
    (hrefers : ∀ m id, refers' m id ↔ refers m id) {n n' : Node} (hsame : n'.undated = n.undated)
    (kind : RelationKind) (target : Option NodeId) :
    s'.Related refers' n' kind target ↔ s.Related refers n kind target := by
  obtain ⟨hid, -, howner, -⟩ := Node.of_undated hsame
  unfold Related
  simp only [hid, howner, hrefers, h.isLive_iff hs]

/-! ### Answers -/

omit hs in
/-- Live nodes are paired with themselves, up to their times of change. -/
theorem forall₂_liveNodes :
    List.Forall₂ (fun n n' => n ∈ s.liveNodes ∧ n'.undated = n.undated)
      s.liveNodes s'.liveNodes :=
  (List.forall₂_and_left (p := (· ∈ s.liveNodes)) _ _).mpr
    ⟨fun _ hn => hn, map_eq_map_iff_forall₂.mp h.nodes⟩

omit hs in
theorem length_liveNodes_eq : s'.liveNodes.length = s.liveNodes.length := by
  simpa using congrArg List.length h.nodes

omit hs in
/-- The same node is the same in both stores, up to its time of change. -/
theorem undated_of_id {n n' : Node} (hn : n ∈ s.liveNodes) (hn' : n' ∈ s'.liveNodes)
    (hid : n'.id = n.id) : n'.undated = n.undated := by
  obtain ⟨m, hm, hsame⟩ := List.mem_map.mp (h.nodes ▸ List.mem_map_of_mem hn)
  have hfound := h.sound.node?_eq_some_iff.mpr ⟨hm, (Node.of_undated hsame).1⟩
  have hfound' := h.sound.node?_eq_some_iff.mpr ⟨hn', hid⟩
  obtain rfl := Option.some.inj (Except.ok.inj (hfound.symm.trans hfound'))
  exact hsame

/-- A query that means the same for each live node, and orders nodes by the same keys, finds the
same nodes in the same order. -/
theorem evaluate_eq {now later : Int} {d : QueryDefinition} {page : QueryPage}
    (hpage : s.evaluate now d = .ok page)
    (hholds : ∀ n ∈ s.liveNodes, ∀ n', n'.undated = n.undated →
      d.filters.all (Filter.holds s' later (s'.joined n')) =
        d.filters.all (Filter.holds s now (s.joined n)))
    (hkeys : ∀ sort ∈ d.sort, ∀ n n', n'.undated = n.undated →
      s'.sortKeyOf sort.field (s'.joined n') = s.sortKeyOf sort.field (s.joined n)) :
    ∃ page', s'.evaluate later d = .ok page' ∧ page'.nodeIds = page.nodeIds ∧
      page'.totalCount = page.totalCount := by
  obtain ⟨filters, sort, limit⟩ := d
  have hvalid := isValid_of_evaluate hpage
  obtain ⟨arrangement, harranged, hpages⟩ := hs.evaluate_eq now filters sort
  obtain ⟨arrangement', harranged', hpages'⟩ := h.sound.evaluate_eq later filters sort
  obtain rfl := Except.ok.inj ((hpages limit hvalid).symm.trans hpage)
  -- The nodes that match are paired, since each pair matches or does not.
  let keeps (a : Store) (time : Int) (n : Node) : Bool :=
    filters.all (Filter.holds a time (a.joined n))
  have hmatching (a : Store) (time : Int) :
      a.matching time filters = (a.liveNodes.filter (keeps a time)).map a.joined := by
    rw [matching, joinedNodes, List.filter_map]
    rfl
  have hpairs := List.rel_filter (p := keeps s now) (q := keeps s' later)
    (fun n n' hn => Bool.eq_iff_iff.mp (hholds n hn.1 n' hn.2).symm) h.forall₂_liveNodes
  have hsame {β : Type} {f g : AssembledNode → β}
      (hfg : ∀ n n', n'.undated = n.undated → g (s'.joined n') = f (s.joined n)) :
      (s'.matching later filters).map g = (s.matching now filters).map f := by
    rw [hmatching, hmatching, List.map_map, List.map_map]
    exact map_eq_map_iff_forall₂.mpr (hpairs.imp fun n n' hn => hfg n n' hn.2)
  have hids : (s'.matching later filters).map (·.id) = (s.matching now filters).map (·.id) :=
    hsame fun _ _ heq => (Node.of_undated heq).1
  have harrangement := harranged.ids_eq harranged' hids fun o ho => hsame fun n n' heq =>
    Prod.ext (hkeys o ho n n' heq) (Node.of_undated heq).1
  refine ⟨_, hpages' limit hvalid, ?_, by simpa using congrArg List.length hids⟩
  rw [QueryPage.nodeIds, QueryPage.nodeIds, List.map_take, List.map_take, harrangement]

end AgreesBeside

end Store

end TagGraph
