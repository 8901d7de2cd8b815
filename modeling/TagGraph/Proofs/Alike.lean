import TagGraph.Proofs.Tagged

/-!
# Readings see the living alone

Two stores are alike if they have the same live nodes in the order of creation and the rows of these
say the same (`Store.Alike`). Tombstones and their rows may be any, and so may the numbers, places
and times of rows. Whatever is read, the answers of stores that are alike are equal
(`Store.AnswersAlike`, `Store.answersAlike_run`).

The look-ups of single nodes and rows come first, then what is put together from them.
-/

namespace TagGraph

open Reading

/-- What a row says: its field and its text. -/
def Property.said (p : Property) : NodeId × String :=
  (p.fieldId, p.value)

/-- Look-ups that find the same nodes give the same answer. -/
theorem Reading.Succeeds.eq_of_found {α : Type} {r r' : Reading (Option α)} (hr : Succeeds r)
    (hr' : Succeeds r') (h : ∀ a, r = .ok (some a) ↔ r' = .ok (some a)) : r = r' := by
  obtain ⟨found, rfl⟩ := hr
  obtain ⟨found', rfl⟩ := hr'
  refine congrArg Except.ok (Option.ext fun a => ?_)
  simpa using h a

namespace Store

variable {s s' : Store}

/-- The live nodes of two stores are the same, in the same order of creation, and their rows say the
same in the same order. -/
structure Alike (s s' : Store) : Prop where
  nodes : s'.liveNodes = s.liveNodes
  rows : ∀ n ∈ s.liveNodes,
    (s'.rowsOf n.id).map Property.said = (s.rowsOf n.id).map Property.said

/-! ## The rows of a field among those of a node -/

/-- The texts of a field of a node are those that the rows of the node say of it. -/
theorem Sound.texts_eq_said (hs : s.Sound) (node field : NodeId) : s.texts node field =
    (((s.rowsOf node).map Property.said).filter (·.1 == field)).map (·.2) := by
  rw [← hs.fieldRowsOf_values, ← hs.rowsOf_filter, List.filter_map, List.map_map]
  rfl

/-! ## The same live nodes -/

namespace Sound

variable (hs : s.Sound) (hs' : s'.Sound) (hnodes : s'.liveNodes = s.liveNodes)
include hs hs' hnodes

theorem node?_congr (id : NodeId) : s'.node? id = s.node? id :=
  (hs'.node?_succeeds id).eq_of_found (hs.node?_succeeds id) fun n => by
    rw [hs'.node?_eq_some_iff, hs.node?_eq_some_iff, hnodes]

theorem nodeBySystemId?_congr (handle : String) :
    s'.nodeBySystemId? handle = s.nodeBySystemId? handle :=
  (hs'.nodeBySystemId?_succeeds handle).eq_of_found (hs.nodeBySystemId?_succeeds handle) fun n => by
    rw [hs'.nodeBySystemId?_eq_some_iff, hs.nodeBySystemId?_eq_some_iff, hnodes]

/-- A name is looked up alike, be it an identifier or a handle. -/
theorem findLive?_congr (name : String) : s'.findLive? name = s.findLive? name := by
  unfold findLive?
  simp only [hs.node?_congr hs' hnodes, hs.nodeBySystemId?_congr hs' hnodes]

theorem findLiveId?_congr (name : String) : s'.findLiveId? name = s.findLiveId? name := by
  rw [findLiveId?, findLiveId?, hs.findLive?_congr hs' hnodes]

/-- The same identifiers are those of live nodes. -/
theorem isLive_iff_of_liveNodes (id : NodeId) : s'.IsLive id ↔ s.IsLive id := by
  unfold IsLive
  rw [hs.node?_congr hs' hnodes]

theorem fieldInfo?_congr (field : NodeId) : s'.fieldInfo? field = s.fieldInfo? field := by
  rw [fieldInfo?, fieldInfo?, hs.node?_congr hs' hnodes]

/-- Supertags are shown alike, those that are gone left out. -/
theorem liveTags_congr (ids : List NodeId) : s'.liveTags ids = s.liveTags ids := by
  unfold liveTags supertagRef?
  simp only [hs.node?_congr hs' hnodes]

/-- A row shows the same value of the same field. -/
theorem heldValue?_congr (row : Property) : s'.heldValue? row = s.heldValue? row := by
  unfold heldValue?
  simp only [hs.fieldInfo?_congr hs' hnodes, hs.liveTags_congr hs' hnodes]

theorem referencesOf_congr (n : AssembledNode) (field : Option NodeId) :
    s'.referencesOf n field = s.referencesOf n field := by
  unfold referencesOf supertagFieldId?
  rw [hs.nodeBySystemId?_congr hs' hnodes]

/-! ### The same texts of the field of inheritance -/

variable (htexts : ∀ field, s.Holds (.known field) (some Handle.fieldExtends) →
  ∀ n ∈ s.liveNodes, s'.texts n.id field = s.texts n.id field)
include htexts

/-- The steps of inheritance depend on what the live nodes say that they extend. -/
theorem extensions_congr : s'.extensions = s.extensions := by
  obtain ⟨found, hfound⟩ := hs.nodeBySystemId?_succeeds Handle.fieldExtends
  have hfound' := (hs.nodeBySystemId?_congr hs' hnodes _).trans hfound
  rw [extensions, extensions, hfound, hfound']
  cases found with
  | none => rfl
  | some field =>
    -- Node by node, the steps depend on the texts in the rows.
    let step (child : NodeId) (raw : String) : Option Extension :=
      ((PropertyValue.decode? raw).bind (·.asNodeId?)).map fun parent => ⟨parent, child⟩
    have hblock : ∀ {t : Store}, t.Sound → ∀ n : Node,
        (t.fieldRowsOf n.id field.id).filterMap (fun row =>
          ((PropertyValue.decode? row.value).bind (·.asNodeId?)).map fun parent =>
            (⟨parent, row.nodeId⟩ : Extension)) =
          (t.texts n.id field.id).filterMap (step n.id) := by
      intro t ht n
      rw [← ht.fieldRowsOf_values, List.filterMap_map]
      refine List.filterMap_congr fun row hrow => ?_
      rw [(ht.mem_fieldRowsOf.mp hrow).2.1]
      rfl
    simp only [hs'.propertiesByField_eq, hs.propertiesByField_eq, bind, Except.bind, pure,
      Except.pure, List.filterMap_flatMap, hblock hs', hblock hs, hnodes]
    refine congrArg Except.ok (List.flatMap_congr fun n hn => ?_)
    rw [htexts field.id (hs.holds_of_nodeBySystemId? hfound) n hn]

/-- The same supertags count for one that is given by name. -/
theorem acceptedBy?_congr (supertag : String) (includeInherited : Bool) :
    s'.acceptedBy? supertag includeInherited = s.acceptedBy? supertag includeInherited := by
  unfold acceptedBy? acceptedSupertags descendants
  simp only [hs.findLive?_congr hs' hnodes, hs.extensions_congr hs' hnodes htexts]

end Sound

namespace Alike

variable (h : s.Alike s') (hs : s.Sound) (hs' : s'.Sound)

include h hs hs'

/-! ## Single nodes -/

/-- The same nodes are listed, all of them or those with an owner. -/
theorem listNodes_eq (owner : Option NodeId) :
    s'.listNodes owner false = s.listNodes owner false := by
  cases owner with
  | none => rw [hs'.listNodes_live, hs.listNodes_live, h.nodes]
  | some owner => rw [hs'.listNodes_of_owner, hs.listNodes_of_owner, h.nodes]

/-! ## Rows -/

/-- A live node has the same texts in each field. -/
theorem texts_eq {node : NodeId} (hlive : s.IsLive node) (field : NodeId) :
    s'.texts node field = s.texts node field := by
  obtain ⟨n, hn⟩ := hlive
  obtain ⟨hmem, rfl⟩ := hs.node?_eq_some_iff.mp hn
  rw [hs'.texts_eq_said, hs.texts_eq_said, h.rows n hmem]

/-- A field of a node has the same values, and a node that is not live has none. -/
theorem values_eq (node : NodeId) (field : String) :
    s'.values node field = s.values node field := by
  obtain ⟨found, hfound⟩ := hs.node?_succeeds node
  obtain ⟨fieldNode, hfield⟩ := hs.findLive?_succeeds field
  have hfound' := (hs.node?_congr hs' h.nodes node).trans hfound
  have hfield' := (hs.findLive?_congr hs' h.nodes field).trans hfield
  cases found with
  | none => simp [values, hfound, hfound', bind, Except.bind]
  | some n =>
    cases fieldNode with
    | none => simp [values, hfound, hfound', hfield, hfield', bind, Except.bind]
    | some fieldNode =>
      rw [hs.values_eq ⟨n, hfound⟩ hfield, hs'.values_eq ⟨n, hfound'⟩ hfield',
        h.texts_eq hs hs' ⟨n, hfound⟩]

theorem value?_eq (node : NodeId) (field : String) :
    s'.value? node field = s.value? node field := by
  rw [value?, value?, h.values_eq hs hs']

/-! ## Assembled nodes -/

/-- A live node is joined with the same values and supertags. -/
theorem joined_eq {n : Node} (hn : n ∈ s.liveNodes) : s'.joined n = s.joined n := by
  -- What a row is held for depends on what it says.
  let held (said : NodeId × String) : List HeldValue :=
    (s.heldValue? ⟨0, n.id, said.1, said.2, 0, 0, 0⟩).toList
  have hsaid : ∀ rows : List Property,
      (rows.flatMap fun row => (s.heldValue? row).toList) =
        (rows.map Property.said).flatMap held := fun rows => by
    rw [List.flatMap_map]
    rfl
  rw [joined, joined]
  simp only [hs.heldValue?_congr hs' h.nodes, hsaid, h.rows n hn]

/-- So all live nodes are assembled alike. -/
theorem joinedNodes_eq : s'.joinedNodes = s.joinedNodes := by
  rw [joinedNodes, joinedNodes, h.nodes]
  exact List.map_congr_left fun n hn => h.joined_eq hs hs' hn

theorem assemble?_eq (id : NodeId) : s'.assemble? id = s.assemble? id := by
  obtain ⟨found, hfound⟩ := hs.node?_succeeds id
  rw [hs'.assemble?_eq, hs.assemble?_eq, hs.node?_congr hs' h.nodes, hfound, found?_ok]
  cases found with
  | none => rw [Option.map_none, Option.map_none]
  | some n =>
    have hn := (hs.node?_eq_some_iff.mp hfound).1
    rw [Option.map_some, Option.map_some, h.joined_eq hs hs' hn]

theorem assembleAll_eq : s'.assembleAll = s.assembleAll := by
  rw [hs'.assembleAll_eq, hs.assembleAll_eq, h.joinedNodes_eq hs hs']

/-! ## Inheritance -/

/-- A live supertag has the same parent. -/
theorem parent?_eq {supertag : NodeId} (hlive : s.IsLive supertag) :
    s'.parent? supertag = s.parent? supertag := by
  obtain ⟨found, hfound⟩ := hs.nodeBySystemId?_succeeds Handle.fieldExtends
  have hfound' := (hs.nodeBySystemId?_congr hs' h.nodes _).trans hfound
  cases found with
  | none => simp [parent?, hfound, hfound', bind, Except.bind]
  | some field =>
    exact hs.parent?_congr hs' (hs.holds_of_nodeBySystemId? hfound)
      (hs'.holds_of_nodeBySystemId? hfound') (h.texts_eq hs hs' hlive field.id)
      (hs.isLive_iff_of_liveNodes hs' h.nodes)

/-- The chain above a live supertag is the same: only live ones follow. -/
theorem ancestorsFrom_eq : ∀ (steps : Nat) (visited : List NodeId) {current : NodeId},
    s.IsLive current →
      s'.ancestorsFrom steps visited current = s.ancestorsFrom steps visited current
  | 0, _, _, _ => rfl
  | steps + 1, visited, current, hlive => by
    obtain ⟨found, hfound⟩ := hs.parent?_succeeds current
    rw [ancestorsFrom, ancestorsFrom, h.parent?_eq hs hs' hlive, hfound]
    cases found with
    | none => rfl
    | some parent =>
      have hrest := ancestorsFrom_eq steps (parent :: visited) (isLive_of_parent? hfound)
      dsimp only [bind, Except.bind]
      rw [hrest]

/-- A node is shown to be of the same kinds. -/
theorem isA_eq {node : AssembledNode} (hnode : s.Shows node) (supertag : String) :
    s'.isA node supertag = s.isA node supertag := by
  have hreach : ∀ (target : NodeId) (tags : List SupertagRef), (∀ tag ∈ tags, s.IsLive tag.id) →
      s'.anyReaches target tags = s.anyReaches target tags := by
    intro target tags htags
    induction tags with
    | nil => rfl
    | cons tag rest ih =>
      obtain ⟨hlive, hrest⟩ := List.forall_mem_cons.mp htags
      rw [anyReaches, anyReaches, ancestors, ancestors, h.ancestorsFrom_eq hs hs' _ _ hlive,
        ih hrest]
  unfold isA
  simp only [hs.findLive?_congr hs' h.nodes, hreach _ _ hnode.supertags]

/-! ## Queries -/

/-- A node is related to the same nodes. -/
theorem relates_eq (n : AssembledNode) (kind : RelationKind) (target field : Option NodeId) :
    s'.relates n kind target field = s.relates n kind target field := by
  unfold relates
  simp only [hs.referencesOf_congr hs' h.nodes, h.assemble?_eq hs hs', h.joinedNodes_eq hs hs']

/-- A filter means the same. -/
theorem holds_eq (now : Int) (n : AssembledNode) (f : Filter) :
    f.holds s' now n = f.holds s now n := by
  have htexts : ∀ field, s.Holds (.known field) (some Handle.fieldExtends) →
      ∀ n ∈ s.liveNodes, s'.texts n.id field = s.texts n.id field :=
    fun field _ n hn => h.texts_eq hs hs' (hs.isLive_of_mem_liveNodes hn) field
  have hsame : Filter.ReadsAlike s s' n n :=
    { accepted := funext fun supertag => funext (hs.acceptedBy?_congr hs' h.nodes htexts supertag)
      found := funext (hs.findLiveId?_congr hs' h.nodes)
      related := by
        funext kind target field
        exact h.relates_eq hs hs' n kind target field
      content := rfl
      times := ⟨rfl, rfl⟩
      supertags := rfl
      values := fun _ => rfl
      isEmpty := fun _ => rfl }
  exact Filter.holds_congr hsame now f

/-- The same nodes satisfy filters. -/
theorem matching_eq (now : Int) (filters : List Filter) :
    s'.matching now filters = s.matching now filters := by
  have hall : ∀ n, filters.all (Filter.holds s' now n) = filters.all (Filter.holds s now n) :=
    fun n => congrArg filters.all (funext (h.holds_eq hs hs' now n))
  rw [matching, matching, h.joinedNodes_eq hs hs']
  exact List.filter_congr fun n _ => hall n

/-- Nodes are arranged in the same ways. -/
theorem arranged_iff (sort : Option QuerySort) (nodes arrangement : List AssembledNode) :
    s'.Arranged sort nodes arrangement ↔ s.Arranged sort nodes arrangement := by
  have hkey : s'.sortKeyOf = s.sortKeyOf := by
    funext field n
    unfold sortKeyOf
    rw [hs.findLiveId?_congr hs' h.nodes]
  unfold Arranged ranked
  rw [hkey]

/-- A query has the same answer. -/
theorem evaluate_eq (now : Int) (d : QueryDefinition) : s'.evaluate now d = s.evaluate now d := by
  obtain ⟨filters, sort, limit⟩ := d
  by_cases hvalid : (⟨filters, sort, limit⟩ : QueryDefinition).isValid = true
  · obtain ⟨arrangement, harranged, hpages⟩ := hs.evaluate_eq now filters sort
    obtain ⟨arrangement', harranged', hpages'⟩ := hs'.evaluate_eq now filters sort
    rw [h.matching_eq hs hs', h.arranged_iff hs hs'] at harranged'
    rw [hpages limit hvalid, hpages' limit hvalid, h.matching_eq hs hs',
      harranged.unique harranged']
  · rw [QueryDefinition.isValid, Option.isNone_iff_eq_none] at hvalid
    obtain ⟨fault, hfault⟩ := Option.ne_none_iff_exists'.mp hvalid
    rw [evaluate, evaluate, hfault]
    rfl

theorem nodesBySupertag_eq (supertag : String) (includeInherited : Bool) :
    s'.nodesBySupertag supertag includeInherited = s.nodesBySupertag supertag includeInherited := by
  rw [hs'.nodesBySupertag_eq 0, hs.nodesBySupertag_eq 0, h.matching_eq hs hs']

/-! ## Saved queries -/

theorem loadQuery?_eq (node : NodeId) : s'.loadQuery? node = s.loadQuery? node := by
  rw [loadQuery?, loadQuery?, h.value?_eq hs hs']

/-- So has a saved query, as the same definition is loaded. -/
theorem evaluateSaved_eq (now : Int) (node : NodeId) :
    s'.evaluateSaved now node = s.evaluateSaved now node := by
  unfold evaluateSaved
  simp only [hs.node?_congr hs' h.nodes, h.loadQuery?_eq hs hs', h.evaluate_eq hs hs']

theorem cachedResult?_eq (node : NodeId) : s'.cachedResult? node = s.cachedResult? node := by
  rw [cachedResult?, cachedResult?, h.value?_eq hs hs', h.values_eq hs hs']

end Alike

/-- Answering a saved query without keeping the answer gives what evaluating it gives. -/
theorem outcome_runSaved_false (s : Store) (now : Int) (node : NodeId) :
    (Edit.runSaved now node false).outcome s = s.evaluateSaved now node := by
  unfold Edit.outcome
  cases hpage : s.evaluateSaved now node with
  | ok page =>
    have hrun : Edit.runSaved now node false s = .ok page s :=
      Edit.bind_of_ok (Edit.ask_of_ok (·.evaluateSaved now node) hpage)
    rw [hrun]
  | error err =>
    have hask : Edit.ask (·.evaluateSaved now node) s = .error err s := by rw [Edit.ask, hpage]
    have hrun : Edit.runSaved now node false s = .error err s := Edit.bind_of_error hask
    rw [hrun]

/-- Whatever is read, with whatever arguments and at whatever time, two stores give one answer. An
assembled node is asked for its supertags in the store that has assembled it. -/
structure AnswersAlike (s s' : Store) : Prop where
  byName : ∀ name, s'.findLive? name = s.findLive? name
  assembled : ∀ id, s'.assemble? id = s.assemble? id
  all : s'.assembleAll = s.assembleAll
  values : ∀ node field, s'.values node field = s.values node field
  children : ∀ owner, s'.listNodes owner false = s.listNodes owner false
  bySupertag : ∀ supertag includeInherited,
    s'.nodesBySupertag supertag includeInherited = s.nodesBySupertag supertag includeInherited
  isA : ∀ id node, s.assemble? id = .ok (some node) →
    ∀ supertag, s'.isA node supertag = s.isA node supertag
  answer : ∀ now d, s'.evaluate now d = s.evaluate now d
  savedAnswer : ∀ now node,
    (Edit.runSaved now node false).outcome s' = (Edit.runSaved now node false).outcome s
  definition : ∀ node, s'.loadQuery? node = s.loadQuery? node
  cached : ∀ node, s'.cachedResult? node = s.cachedResult? node
  items : s'.items = s.items
  tags : s'.tags = s.tags
  commands : s'.commands = s.commands
  commandsOf : ∀ item, s'.commandsOf item = s.commandsOf item

/-- Two stores that runs have left give one answer to whatever is read if they have the same live
nodes in the order of creation and these have the same values in the order of their rows. What has
been deleted, and the rows of deleted nodes, have no influence on what is read. -/
theorem answersAlike_run (steps steps' : List Step)
    (h : (Store.empty.run steps).Alike (Store.empty.run steps')) :
    (Store.empty.run steps).AnswersAlike (Store.empty.run steps') := by
  have hs : (Store.empty.run steps).Sound := empty_sound.run steps
  have hs' : (Store.empty.run steps').Sound := empty_sound.run steps'
  have hcommands : (Store.empty.run steps').commands = (Store.empty.run steps).commands := by
    rw [commands, commands, h.nodesBySupertag_eq hs hs']
  exact {
    byName := hs.findLive?_congr hs' h.nodes
    assembled := h.assemble?_eq hs hs'
    all := h.assembleAll_eq hs hs'
    values := h.values_eq hs hs'
    children := h.listNodes_eq hs hs'
    bySupertag := h.nodesBySupertag_eq hs hs'
    isA := fun _ _ hnode => h.isA_eq hs hs' (hs.shows_of_assemble? hnode)
    answer := h.evaluate_eq hs hs'
    savedAnswer := fun now node => by
      rw [outcome_runSaved_false, outcome_runSaved_false, h.evaluateSaved_eq hs hs']
    definition := h.loadQuery?_eq hs hs'
    cached := h.cachedResult?_eq hs hs'
    items := by rw [items, items, h.nodesBySupertag_eq hs hs']
    tags := by rw [tags, tags, h.nodesBySupertag_eq hs hs']
    commands := hcommands
    commandsOf := fun item => by rw [commandsOf, commandsOf, hcommands] }

/-- The rows of nodes and fields stand in the order in which they are read. -/
structure Ordered (s : Store) : Prop where
  nodes : s.nodes.Pairwise fun a b => a.createdAt.precedes b.createdAt = true
  rows : s.properties.Pairwise fun a b => rowPrecedes a b = true

theorem Ordered.liveRecords_eq (h : s.Ordered) : s.liveRecords = s.nodes.filter (·.isLive) := by
  rw [liveRecords, recordsByCreation, List.mergeSort_of_pairwise h.nodes]

/-- In an ordered store the rows of a node stand in the order in which they are read. -/
theorem Ordered.rowsOf_records (h : s.Ordered) (hs : s.Sound) (node : NodeId) :
    (s.rowsOf node).map Property.record = s.properties.filter (·.nodeId == .known node) := by
  rw [hs.rowsOf_records, inOrder, List.mergeSort_of_pairwise (h.rows.filter _)]

/-- What a row says, as it is stored. -/
def storedSaid (said : NodeId × String) : StoredId × String :=
  (.known said.1, said.2)

theorem storedSaid_injective : Function.Injective storedSaid := by
  intro a b hab
  obtain ⟨hfield, hvalue⟩ := Prod.mk.inj hab
  exact Prod.ext (StoredId.known.inj hfield) hvalue

theorem Ordered.storedSaid_rowsOf (h : s.Ordered) (hs : s.Sound) (node : NodeId) :
    ((s.rowsOf node).map Property.said).map storedSaid =
      (s.properties.filter (·.nodeId == .known node)).map fun p => (p.fieldId, p.value) := by
  rw [← h.rowsOf_records hs, List.map_map, List.map_map]
  rfl

/-- Stores whose rows stand in order are alike if the same is stored of what is live. -/
theorem Ordered.alike (h : s.Ordered) (h' : s'.Ordered) (hs : s.Sound) (hs' : s'.Sound)
    (hnodes : s'.nodes.filter (·.isLive) = s.nodes.filter (·.isLive))
    (hrows : ∀ r ∈ s.nodes.filter (·.isLive),
      (s'.properties.filter (·.nodeId == r.id)).map (fun p => (p.fieldId, p.value)) =
        (s.properties.filter (·.nodeId == r.id)).map fun p => (p.fieldId, p.value)) :
    s.Alike s' := by
  refine ⟨by rw [liveNodes, liveNodes, h.liveRecords_eq, h'.liveRecords_eq, hnodes],
    fun n hn => ?_⟩
  obtain ⟨hrecord, hactive⟩ := hs.mem_liveNodes.mp hn
  have hstored := hrows n.record
    (List.mem_filter.mpr ⟨hrecord, by rw [Node.isLive_record, hactive]⟩)
  refine List.map_injective_iff.mpr storedSaid_injective ?_
  rw [h.storedSaid_rowsOf hs, h'.storedSaid_rowsOf hs']
  exact hstored

/-- A supertag that has been deleted, with a node that carried it, leaves no trace in any answer,
though the rows of what is still there have got other numbers. -/
theorem answersAlike_run_deleted :
    let id (i : Nat) (h : i < 2 ^ 128) : NodeId := ⟨i, h⟩
    let create (id : NodeId) (systemId : String) (supertags : List String) : Step :=
      ⟨5, .graph (.createNode ⟨id, systemId, some systemId, none, supertags⟩)⟩
    let field := create (id 1 (by decide)) Handle.fieldSupertag []
    let food := create (id 2 (by decide)) "supertag:food" []
    let milk := create (id 3 (by decide)) "shop:milk" ["supertag:food"]
    let deleted := [create (id 4 (by decide)) "supertag:old" [],
      create (id 5 (by decide)) "shop:bread" ["supertag:old"],
      ⟨6, .graph (.deleteNode (id 5 (by decide)))⟩, ⟨6, .graph (.deleteNode (id 4 (by decide)))⟩]
    let s := Store.empty.run [field, food, milk]
    let s' := Store.empty.run ([field, food] ++ deleted ++ [milk])
    s.Alike s' ∧ s'.properties ≠ s.properties ∧ s.AnswersAlike s' := by
  intro id create field food milk deleted s s'
  have hordered : s.Ordered := ⟨by decide +kernel, by decide +kernel⟩
  have hordered' : s'.Ordered := ⟨by decide +kernel, by decide +kernel⟩
  have halike : s.Alike s' := hordered.alike hordered' (empty_sound.run _) (empty_sound.run _)
    (by decide +kernel) (by decide +kernel)
  exact ⟨halike, by decide +kernel, answersAlike_run _ _ halike⟩

end Store

end TagGraph
