import Mathlib.Data.List.Pairwise
import TagGraph.Proofs.Operation.Parts
import TagGraph.Proofs.Property.Codec
import TagGraph.Proofs.Store.Readable

/-!
# Which supertag extends which

* `Store.Extends`: the steps between live supertags, those that are followed downwards;
* `Store.Acyclic`: no supertag comes back to itself by such steps;
* `Store.Names`: the same steps in terms of stored rows, whether their targets are live or not. A
  cycle of one kind is a cycle of the other (`Store.Sound.acyclic_iff`);
* `Store.StepsDown`: these steps from the parent's side, in a store that may hold any rows.

An edit of one field of a node keeps the steps from all other nodes (`Store.WithinField`), and all
edits but those of `field:extends` make no new steps (`Store.NoNewSteps`).
-/

namespace TagGraph

/-- The node that a stored text names as a parent: as a reference, or by its written identifier. -/
def PropertyValue.parentIn? (raw : String) : Option NodeId :=
  (decode? raw).bind (·.asNodeId?)

namespace Store

/-- There is a live node with the identifier. -/
def IsLive (s : Store) (id : NodeId) : Prop :=
  ∃ n, s.node? id = .ok (some n)

instance (s : Store) (id : NodeId) : Decidable (s.IsLive id) :=
  match h : s.node? id with
  | .ok (some n) => isTrue ⟨n, h⟩
  | .ok none => isFalse fun ⟨_, hn⟩ => nomatch h.symm.trans hn
  | .error _ => isFalse fun ⟨_, hn⟩ => nomatch h.symm.trans hn

/-- A live node extends a live node that one of its rows of `field:extends` names. -/
def Extends (s : Store) (child parent : NodeId) : Prop :=
  s.IsLive child ∧ s.IsLive parent ∧ ∃ steps, s.extensions = .ok steps ∧ ⟨parent, child⟩ ∈ steps

/-- No node extends itself, directly or through others. -/
def Acyclic (s : Store) : Prop :=
  ∀ node, ¬ Relation.TransGen s.Extends node node

/-- A live node has the identifier and the handle. -/
def Holds (s : Store) (id : StoredId) (handle : Option String) : Prop :=
  ∃ r ∈ s.nodes, r.isLive = true ∧ r.id = id ∧ r.systemId = handle

/-- A row of the live `field:extends` of a live node names another node, live or not. -/
def Names (s : Store) (child parent : NodeId) : Prop :=
  (∃ handle, s.Holds (.known child) handle) ∧
  ∃ r ∈ s.properties, r.nodeId = .known child ∧
    s.Holds r.fieldId (some Handle.fieldExtends) ∧ PropertyValue.parentIn? r.value = some parent

/-- A row of the node that `field:extends` is looked up as names the parent, and its own node is the
child, of which there is a live row. -/
def StepsDown (s : Store) (parent child : NodeId) : Prop :=
  ∃ field, s.nodeBySystemId? Handle.fieldExtends = .ok (some field) ∧
    ∃ r ∈ s.properties, r.fieldId = .known field.id ∧
      (∃ n ∈ s.nodes, n.isLive = true ∧ n.id = r.nodeId) ∧
        r.nodeId.read .propertyNode = .ok child ∧ PropertyValue.parentIn? r.value = some parent

end Store

/-! ## Written parents -/

namespace PropertyValue

/-- A row for a value names a parent only if the value does. -/
theorem MayWrite.parent {values : List PropertyValue} {raw : String} {parent : NodeId}
    (h : MayWrite values raw) (hparent : parentIn? raw = some parent) :
    ∃ value ∈ values, value.asNodeId? = some parent ∨ parent ∈ value.referenced := by
  have hdecoded : ∀ value : PropertyValue, value.encode? = some raw →
      value.asNodeId? = some parent := by
    intro value hencoded
    obtain ⟨read, hread, hparent⟩ := Option.bind_eq_some_iff.mp hparent
    rwa [eq_reread_of_encode? hencoded hread, asNodeId?_reread] at hparent
  obtain ⟨value, hvalue, hencoded | ⟨reference, hreference, hencoded⟩⟩ := h
  · exact ⟨value, hvalue, Or.inl (hdecoded value hencoded)⟩
  · obtain rfl := Option.some.inj (hdecoded _ hencoded)
    exact ⟨value, hvalue, Or.inr hreference⟩

end PropertyValue

namespace Store

variable {s s' : Store}

/-- The steps that are followed downwards are those of the rows. -/
theorem mem_extensions_iff {steps : List Extension} (h : s.extensions = .ok steps)
    {child parent : NodeId} : ⟨parent, child⟩ ∈ steps ↔ s.StepsDown parent child := by
  unfold StepsDown
  obtain ⟨found, hfound, h⟩ := Reading.bind_ok h
  simp only [hfound, Except.ok.injEq]
  cases found with
  | none =>
    obtain rfl := Except.ok.inj h
    simp
  | some field =>
    obtain ⟨rows, hrows, h⟩ := Reading.bind_ok h
    obtain rfl := Except.ok.inj h
    have hstep : ∀ row : Property, (((PropertyValue.decode? row.value).bind (·.asNodeId?)).map
        fun named => (⟨named, row.nodeId⟩ : Extension)) = some ⟨parent, child⟩ ↔
          row.nodeId = child ∧ PropertyValue.parentIn? row.value = some parent := by
      intro row
      rw [Option.map_eq_some_iff]
      constructor
      · rintro ⟨named, hnamed, heq⟩
        obtain ⟨rfl, rfl⟩ := Extension.mk.inj heq
        exact ⟨rfl, hnamed⟩
      · rintro ⟨rfl, hnamed⟩
        exact ⟨parent, hnamed, rfl⟩
    simp only [Option.some.injEq, exists_eq_left', List.mem_filterMap, hstep,
      Reading.mem_of_mapM hrows, mem_rowsByField]
    constructor
    · rintro ⟨row, ⟨r, ⟨hr, hfield, hlive⟩, hread⟩, rfl, hparent⟩
      obtain ⟨hnode, hvalue⟩ := PropertyRecord.of_read hread
      exact ⟨r, hr, hfield, hlive, hnode, hvalue ▸ hparent⟩
    -- All rows have been read, so this one has.
    · rintro ⟨r, hr, hfield, hlive, hnode, hparent⟩
      obtain ⟨row, hread⟩ := Reading.ok_of_mapM hrows (mem_rowsByField.mpr ⟨hr, hfield, hlive⟩)
      obtain ⟨hnode', hvalue⟩ := PropertyRecord.of_read hread
      exact ⟨row, ⟨r, ⟨hr, hfield, hlive⟩, hread⟩, Except.ok.inj (hnode'.symm.trans hnode),
        hvalue.symm ▸ hparent⟩

/-! ## Live nodes by identifier and handle -/

namespace Sound

/-- No two live nodes have one handle. -/
theorem holds_unique (hs : s.Sound) {id id' : StoredId} {handle : String}
    (h : s.Holds id (some handle)) (h' : s.Holds id' (some handle)) : id = id' := by
  obtain ⟨r, hr, hlive, rfl, hhandle⟩ := h
  obtain ⟨r', hr', hlive', rfl, hhandle'⟩ := h'
  by_contra hne
  have hpairwise := List.pairwise_filterMap.mp hs.handles
  have hmem : r ∈ s.nodes.filter (·.isLive) := List.mem_filter.mpr ⟨hr, hlive⟩
  have hmem' : r' ∈ s.nodes.filter (·.isLive) := List.mem_filter.mpr ⟨hr', hlive'⟩
  have hsymm : Std.Symm fun a b : NodeRecord =>
      ∀ h, a.systemId = some h → ∀ h', b.systemId = some h' → h ≠ h' :=
    ⟨fun _ _ hab h hh h' hh' => (hab h' hh' h hh).symm⟩
  exact hpairwise.forall hmem hmem' (fun heq => hne (congrArg _ heq)) handle hhandle handle
    hhandle' rfl

/-- A live node has one handle at most. -/
theorem handle_unique (hs : s.Sound) {id : StoredId} {handle handle' : Option String}
    (h : s.Holds id handle) (h' : s.Holds id handle') : handle = handle' := by
  obtain ⟨r, hr, -, rfl, rfl⟩ := h
  obtain ⟨r', hr', -, hid, rfl⟩ := h'
  rw [hs.record_unique hr' hr hid]

theorem isLive_iff (hs : s.Sound) {id : NodeId} :
    s.IsLive id ↔ ∃ handle, s.Holds (.known id) handle := by
  constructor
  · rintro ⟨n, hn⟩
    obtain ⟨hmem, rfl⟩ := hs.node?_eq_some_iff.mp hn
    obtain ⟨hrecord, hactive⟩ := hs.mem_liveNodes.mp hmem
    exact ⟨n.systemId, n.record, hrecord, by rw [Node.isLive_record, hactive], rfl, rfl⟩
  · rintro ⟨handle, r, hr, hlive, hid, -⟩
    obtain ⟨n, rfl⟩ := hs.record_of_mem hr
    refine ⟨n, hs.node?_eq_some_iff.mpr ⟨hs.mem_liveNodes.mpr ⟨hr, ?_⟩, ?_⟩⟩
    · rw [← Node.isLive_record, hlive]
    · exact StoredId.known.inj hid

/-- The node that a handle is looked up as has it. -/
theorem holds_of_nodeBySystemId? (hs : s.Sound) {handle : String} {n : Node}
    (h : s.nodeBySystemId? handle = .ok (some n)) : s.Holds (.known n.id) (some handle) := by
  unfold nodeBySystemId? at h
  rcases hs.find?_nodes fun r => r.systemId == some handle && r.isLive with hfind | ⟨m, hfind⟩
  · rw [hfind] at h
    cases h
  · have hmem := List.mem_of_find?_eq_some hfind
    have hm := List.find?_some hfind
    rw [Bool.and_eq_true, beq_iff_eq] at hm
    rw [hfind, readRecord?, Node.read_record] at h
    obtain rfl := Option.some.inj (Except.ok.inj h)
    exact ⟨m.record, hmem, hm.2, rfl, hm.1⟩

theorem not_holds_of_nodeBySystemId? {handle : String}
    (h : s.nodeBySystemId? handle = .ok none) (id : StoredId) : ¬ s.Holds id (some handle) := by
  rintro ⟨r, hr, hlive, -, hhandle⟩
  unfold nodeBySystemId? at h
  cases hfind : s.nodes.find? fun r => r.systemId == some handle && r.isLive with
  | none => exact List.find?_eq_none.mp hfind r hr (by simp [hlive, hhandle])
  | some found =>
    rw [hfind, readRecord?] at h
    cases hread : found.read with
    | error err => rw [hread] at h; cases h
    | ok n => rw [hread] at h; cases h

/-- The steps down of a sound store are those that its rows name. -/
theorem stepsDown_iff (hs : s.Sound) {child parent : NodeId} :
    s.StepsDown parent child ↔ s.Names child parent := by
  constructor
  · rintro ⟨field, hfield, r, hr, hfieldId, ⟨n, hn, hlive, hid⟩, hread, hparent⟩
    obtain ⟨row, rfl⟩ := hs.rows r hr
    obtain rfl := Except.ok.inj hread
    exact ⟨⟨n.systemId, n, hn, hlive, hid, rfl⟩, row.record, hr, rfl,
      hfieldId ▸ hs.holds_of_nodeBySystemId? hfield, hparent⟩
  · rintro ⟨⟨handle, n, hn, hlive, hid, -⟩, r, hr, hnode, hholds, hparent⟩
    obtain ⟨found, hfound⟩ := hs.nodeBySystemId?_succeeds Handle.fieldExtends
    cases found with
    | none => exact absurd hholds (not_holds_of_nodeBySystemId? hfound _)
    -- Only one live node has the handle, so the row is one of the field that was found.
    | some field =>
      exact ⟨field, hfound, r, hr, hs.holds_unique hholds (hs.holds_of_nodeBySystemId? hfound),
        ⟨n, hn, hlive, hid.trans hnode.symm⟩, by rw [hnode, StoredId.read_known], hparent⟩

theorem mem_extensions (hs : s.Sound) {steps : List Extension} (h : s.extensions = .ok steps)
    {child parent : NodeId} : ⟨parent, child⟩ ∈ steps ↔ s.Names child parent := by
  rw [mem_extensions_iff h, hs.stepsDown_iff]

theorem extends_iff (hs : s.Sound) {child parent : NodeId} :
    s.Extends child parent ↔ s.Names child parent ∧ s.IsLive parent := by
  obtain ⟨steps, hsteps⟩ := hs.extensions_succeeds
  constructor
  · rintro ⟨-, hparent, steps', hsteps', hmem⟩
    exact ⟨(hs.mem_extensions hsteps').mp hmem, hparent⟩
  · rintro ⟨hnames, hparent⟩
    exact ⟨hs.isLive_iff.mpr hnames.1, hparent, steps, hsteps,
      (hs.mem_extensions hsteps).mpr hnames⟩

/-- Whoever names a parent is live, so that only the last target may be missing. -/
theorem reflTransGen_extends (hs : s.Sound) {a b : NodeId}
    (h : Relation.ReflTransGen s.Names a b) (hb : s.IsLive b) :
    Relation.ReflTransGen s.Extends a b := by
  induction h with
  | refl => exact .refl
  | tail _ hstep ih => exact (ih (hs.isLive_iff.mpr hstep.1)).tail (hs.extends_iff.mpr ⟨hstep, hb⟩)

/-- Cycles of live nodes are cycles of named parents. -/
theorem acyclic_iff (hs : s.Sound) : s.Acyclic ↔ ∀ node, ¬ Relation.TransGen s.Names node node := by
  have hcycle : ∀ node, Relation.TransGen s.Extends node node ↔
      Relation.TransGen s.Names node node := by
    intro node
    constructor
    · have hsteps : s.Extends ≤ s.Names := fun _ _ hstep => (hs.extends_iff.mp hstep).1
      exact Relation.TransGen.mono hsteps node node
    · intro h
      -- On a cycle every node names a parent, so all of them are live.
      obtain ⟨next, hstep, hrest⟩ := Relation.TransGen.head'_iff.mp h
      have hlive : s.IsLive node := hs.isLive_iff.mpr hstep.1
      have hback := hs.reflTransGen_extends hrest hlive
      have hnext : s.IsLive next := by
        rcases Relation.ReflTransGen.cases_head hback with rfl | ⟨_, hfirst, _⟩
        · exact hlive
        · exact hfirst.1
      exact Relation.TransGen.head' (hs.extends_iff.mpr ⟨hstep, hnext⟩) hback
  exact forall_congr' fun node => not_congr (hcycle node)

end Sound

/-! ## Steps after a change -/

/-- With fewer live nodes and rows there are fewer steps. -/
theorem Names.of_subset (hholds : ∀ id handle, s'.Holds id handle → s.Holds id handle)
    (hrows : ∀ r ∈ s'.properties, r ∈ s.properties) {child parent : NodeId}
    (h : s'.Names child parent) : s.Names child parent := by
  obtain ⟨⟨handle, hchild⟩, r, hr, hnode, hfield, hparent⟩ := h
  exact ⟨⟨handle, hholds _ _ hchild⟩, r, hrows r hr, hnode, hholds _ _ hfield, hparent⟩

/-- A change of a node that brings none back to life. -/
theorem holds_of_updateNode {change : NodeRecord → NodeRecord} (h : NodeRecord.Amends change)
    (hlive : ∀ r, (change r).isLive = true → r.isLive = true) {node : NodeId} {id : StoredId}
    {handle : Option String} (hholds : (s.updateNode node change).Holds id handle) :
    s.Holds id handle := by
  obtain ⟨r, hr, hrlive, rfl, rfl⟩ := hholds
  obtain ⟨old, hold, hamended⟩ := exists_of_mem_updateNode h hr
  refine ⟨old, hold, ?_, hamended.id.symm, hamended.systemId.symm⟩
  rcases hamended.eq with rfl | rfl
  · exact hrlive
  · exact hlive old hrlive

/-- A change of a node that buries none. -/
theorem holds_updateNode {change : NodeRecord → NodeRecord} (h : NodeRecord.Amends change)
    (hlive : ∀ r, r.isLive = true → (change r).isLive = true) (node : NodeId) {id : StoredId}
    {handle : Option String} (hholds : s.Holds id handle) :
    (s.updateNode node change).Holds id handle := by
  obtain ⟨old, hold, holdlive, rfl, rfl⟩ := hholds
  obtain ⟨r, hr, hamended⟩ := exists_mem_updateNode h node hold
  refine ⟨r, hr, ?_, hamended.id, hamended.systemId⟩
  rcases hamended.eq with rfl | rfl
  · exact holdlive
  · exact hlive old holdlive

/-! ## Edits of one field -/

/-- The live nodes with their handles are the same, and so are the rows but for those of a field of
a node; the new ones among these have certain texts. -/
structure WithinField (node field : NodeId) (texts : String → Prop) (s s' : Store) : Prop where
  holds : ∀ id handle, s'.Holds id handle ↔ s.Holds id handle
  kept : ∀ r ∈ s.properties, (r.nodeId = .known node ∧ r.fieldId = .known field) ∨ r ∈ s'.properties
  new : ∀ r ∈ s'.properties, r ∈ s.properties ∨
    r.nodeId = .known node ∧ r.fieldId = .known field ∧ texts r.value

namespace WithinField

variable {node field : NodeId} {texts : String → Prop}

theorem composes : Composes (WithinField node field texts) where
  refl s := ⟨fun _ _ => Iff.rfl, fun _ hr => Or.inr hr, fun _ hr => Or.inl hr⟩
  trans hab hbc := by
    refine ⟨fun id handle => (hbc.holds id handle).trans (hab.holds id handle), fun r hr => ?_,
      fun r hr => ?_⟩
    · rcases hab.kept r hr with hat | hb
      · exact Or.inl hat
      · exact hbc.kept r hb
    · rcases hbc.new r hr with hb | hnew
      · exact hab.new r hb
      · exact Or.inr hnew

/-- The edits of the field keep within it. -/
theorem rowLaw (node field : NodeId) (texts : String → Prop) :
    RowLaw (Natively (WithinField node field texts)) (fun n f => n = node ∧ f = field) texts where
  toComposes := composes.natively
  touchNode now {id} _ := by
    refine Edit.touchNode_respects now id fun s => ⟨fun i handle => ?_,
      fun _ hr => Or.inr hr, fun _ hr => Or.inl hr⟩
    exact ⟨holds_of_updateNode (NodeRecord.touch_amends now) fun _ h => h,
      holds_updateNode (NodeRecord.touch_amends now) (fun _ h => h) id⟩
  insertProperty := by
    rintro now _ _ ⟨rfl, rfl⟩ raw htext order
    refine Edit.insertProperty_respects composes now _ _ raw (fun s number place _ _ _ => ?_) order
    refine ⟨fun _ _ => Iff.rfl, fun r hr => Or.inr (List.mem_append_left _ hr), fun r hr => ?_⟩
    rcases List.mem_append.mp hr with hr | hr
    · exact Or.inl hr
    · obtain rfl := List.mem_singleton.mp hr
      exact Or.inr ⟨rfl, rfl, htext⟩
  deleteFieldProperties := by
    rintro n f ⟨rfl, rfl⟩
    refine Edit.deleteFieldProperties_respects n f fun s => ⟨fun _ _ => Iff.rfl, fun r hr => ?_,
      fun r hr => Or.inl (List.mem_filter.mp hr).1⟩
    by_cases hat : r.nodeId = .known n ∧ r.fieldId = .known f
    · exact Or.inl hat
    · refine Or.inr (List.mem_filter.mpr ⟨hr, ?_⟩)
      rw [Bool.not_eq_true', Bool.and_eq_false_iff, beq_eq_false_iff_ne, beq_eq_false_iff_ne]
      exact not_and_or.mp hat

/-- Other nodes keep their steps. -/
theorem names_keep (h : WithinField node field texts s s') {child parent : NodeId}
    (hne : child ≠ node) (hnames : s.Names child parent) : s'.Names child parent := by
  obtain ⟨⟨handle, hchild⟩, r, hr, hnode, hfield, hparent⟩ := hnames
  refine ⟨⟨handle, (h.holds _ _).mpr hchild⟩, r, ?_, hnode, (h.holds _ _).mpr hfield, hparent⟩
  rcases h.kept r hr with ⟨hat, -⟩ | hr'
  · exact absurd (StoredId.known.inj (hnode.symm.trans hat)) hne
  · exact hr'

/-- A new step is one of the node, and its field is the live `field:extends`. -/
theorem names_new (h : WithinField node field texts s s') {child parent : NodeId}
    (hnames : s'.Names child parent) : s.Names child parent ∨
      child = node ∧ s.Holds (.known field) (some Handle.fieldExtends) ∧
        ∃ raw, texts raw ∧ PropertyValue.parentIn? raw = some parent := by
  obtain ⟨⟨handle, hchild⟩, r, hr, hnode, hfield, hparent⟩ := hnames
  rw [h.holds] at hchild hfield
  rcases h.new r hr with hold | ⟨hnode', hfield', htext⟩
  · exact Or.inl ⟨⟨handle, hchild⟩, r, hold, hnode, hfield, hparent⟩
  · refine Or.inr ⟨StoredId.known.inj (hnode.symm.trans hnode'), ?_, r.value, htext, hparent⟩
    rwa [hfield'] at hfield

end WithinField

/-! ## Edits that make no steps -/

/-- A node that is there, live or not, and is not `field:extends`. -/
def Apart (s : Store) (field : NodeId) : Prop :=
  ∃ r ∈ s.nodes, r.id = .known field ∧ r.systemId ≠ some Handle.fieldExtends

/-- Over sound stores no step comes up, as long as certain fields are not `field:extends`. -/
def NoNewSteps (fields : NodeId → Prop) (s s' : Store) : Prop :=
  s.Sound → (∀ field, fields field → s.Apart field) →
    s'.Sound ∧ (∀ field, fields field → s'.Apart field) ∧
      ∀ child parent, s'.Names child parent → s.Names child parent

/-- What a node is by handle, it stays. -/
theorem Change.apart (h : Change s s') {field : NodeId} (hapart : s.Apart field) :
    s'.Apart field := by
  have hupdate : ∀ {change : NodeRecord → NodeRecord}, NodeRecord.Amends change →
      ∀ id, (s.updateNode id change).Apart field := by
    intro change hchange id
    obtain ⟨old, hold, hid, hhandle⟩ := hapart
    obtain ⟨r, hr, hamended⟩ := exists_mem_updateNode hchange id hold
    exact ⟨r, hr, hamended.id.trans hid, by rwa [hamended.systemId]⟩
  cases h with
  | addNode now n _ _ =>
    obtain ⟨r, hr, hr'⟩ := hapart
    exact ⟨r, List.mem_append_left _ hr, hr'⟩
  | setContent now id content => exact hupdate (NodeRecord.setContent_amends now content) id
  | touch now id => exact hupdate (NodeRecord.touch_amends now) id
  | bury now id => exact hupdate (NodeRecord.bury_amends now) id
  | addRow now number node field raw order _ _ _ => exact hapart
  | removeRows node field => exact hapart

namespace NoNewSteps

variable {fields : NodeId → Prop}

theorem composes : Composes (NoNewSteps fields) where
  refl s hs hfields := ⟨hs, hfields, fun _ _ h => h⟩
  trans hab hbc hs hfields := by
    obtain ⟨hs', hfields', hnames⟩ := hab hs hfields
    obtain ⟨hs'', hfields'', hnames'⟩ := hbc hs' hfields'
    exact ⟨hs'', hfields'', fun child parent h => hnames child parent (hnames' child parent h)⟩

/-- An elementary change makes no step if none comes up. -/
theorem of_change (h : Change s s') (hnames : s.Sound → (∀ field, fields field → s.Apart field) →
    ∀ child parent, s'.Names child parent → s.Names child parent) : NoNewSteps fields s s' :=
  fun hs hfields => ⟨h.sound hs, fun field hfield => h.apart (hfields field hfield),
    hnames hs hfields⟩

/-- A new node has no rows, and none has it as its field. -/
theorem addNode (now : Int) (n : NewNode) (hvalid : n.fault? = none)
    (hfree : Edit.conflict? s (Edit.newRecord now n) = none) :
    NoNewSteps fields s { s with nodes := s.nodes ++ [Edit.newRecord now n] } := by
  refine of_change (.addNode now n hvalid hfree) fun hs _ child parent hnames => ?_
  obtain ⟨⟨handle, m, hm, hlive, hid, hhandle⟩, r, hr, hnode, ⟨f, hf, hflive, hfid, hfhandle⟩,
    hparent⟩ := hnames
  have hold : ∀ {m : NodeRecord} {id : StoredId}, m ∈ s.nodes ++ [Edit.newRecord now n] →
      m.id = id → (∃ k ∈ s.nodes, k.id = id) → m ∈ s.nodes := by
    -- The new node has an identifier of its own, and rows name only nodes that were there before.
    rintro m _ hm rfl ⟨k, hk, hkid⟩
    rcases List.mem_append.mp hm with hm | hm
    · exact hm
    · obtain rfl := List.mem_singleton.mp hm
      have hall := (hs.addNode (Edit.newRecord_sound now hvalid) hfree).record_unique
        (List.mem_append_left _ hk) (List.mem_append_right _ (List.mem_singleton_self _)) hkid
      exact hall ▸ hk
  obtain ⟨hgnode, hgfield⟩ := hs.grounded r hr
  refine ⟨⟨handle, m, hold hm hid (hnode ▸ hgnode), hlive, hid, hhandle⟩, r, hr, hnode,
    ⟨f, hold hf hfid hgfield, hflive, hfid, hfhandle⟩, hparent⟩

theorem updateNode {id : NodeId} {change : NodeRecord → NodeRecord}
    (h : Change s (s.updateNode id change)) (hchange : NodeRecord.Amends change)
    (hlive : ∀ r, (change r).isLive = true → r.isLive = true) :
    NoNewSteps fields s (s.updateNode id change) :=
  of_change h fun _ _ _ _ =>
    Names.of_subset (fun _ _ => holds_of_updateNode hchange hlive) fun _ hr => hr

theorem insertNode (now : Int) (n : NewNode) :
    Edit.Respects (Natively (NoNewSteps fields)) (Edit.insertNode now n) :=
  Edit.insertNode_respects composes now n fun _ => addNode now n

theorem insertSystemNode (now : Int) (id : NodeId) (systemId content : String) :
    Edit.Respects (Natively (NoNewSteps fields)) (Edit.insertSystemNode now id systemId content) :=
  Edit.insertSystemNode_respects composes now id systemId content fun _ => addNode now _

theorem updateContent (now : Int) (id : NodeId) (content : String) :
    Edit.Respects (Natively (NoNewSteps fields)) (Edit.updateContent now id content) :=
  Edit.updateContent_respects now id content fun _ =>
    updateNode (.setContent now id content) (NodeRecord.setContent_amends now content) fun _ h => h

theorem deleteNode (now : Int) (id : NodeId) :
    Edit.Respects (Natively (NoNewSteps fields)) (Edit.deleteNode now id) :=
  Edit.deleteNode_respects now id fun _ =>
    updateNode (.bury now id) (NodeRecord.bury_amends now) fun r h => by
      simp [NodeRecord.isLive, Cell.isNull] at h

/-- Rows of other fields make no steps. -/
theorem rowLaw : RowLaw (Natively (NoNewSteps fields)) (fun _ f => fields f) fun _ => True where
  toComposes := composes.natively
  touchNode now {id} _ := Edit.touchNode_respects now id fun _ =>
    updateNode (.touch now id) (NodeRecord.touch_amends now) fun _ h => h
  insertProperty now node field hfield raw _ order := by
    refine Edit.insertProperty_respects composes now node field raw
      (fun s number place hn hf hnext => ?_) order
    refine of_change (.addRow now number node field raw place hn hf hnext) ?_
    rintro hs hfields child parent ⟨hchild, r, hr, hnode, hholds, hparent⟩
    refine ⟨hchild, r, ?_, hnode, hholds, hparent⟩
    rcases List.mem_append.mp hr with hr | hr
    · exact hr
    · -- The row of another field cannot be one of `field:extends`.
      obtain rfl := List.mem_singleton.mp hr
      obtain ⟨other, hother, hid, hne⟩ := hfields field hfield
      obtain ⟨f, hf, -, hfid, hhandle⟩ := hholds
      obtain rfl := hs.record_unique hf hother (hfid.trans hid.symm)
      exact absurd hhandle hne
  deleteFieldProperties {node field} _ := by
    refine Edit.deleteFieldProperties_respects node field fun s => ?_
    have hrows : ∀ r ∈ (s.removeRows node field).properties, r ∈ s.properties :=
      fun _ hr => (List.mem_filter.mp hr).1
    exact of_change (.removeRows node field) fun _ _ _ _ =>
      @Names.of_subset s (s.removeRows node field) (fun _ _ h => h) hrows _ _

end NoNewSteps

end Store

end TagGraph
