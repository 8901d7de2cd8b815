import TagGraph.Proofs.Inheritance.Guard
import TagGraph.Proofs.Lookup

/-!
# How an edit closes a cycle

Only a write to `field:extends` can close a cycle, and only through a step that the guard overlooks:
the guard looks at the references among the values, but not at identifiers that are written as text,
and it follows the first parent of each supertag for a limited number of steps, while a supertag may
have several parents. `Store.ClosesCycle` says so of an edit. A store without cycles has none after
an edit if and only if the edit closes none (`Store.Sound.acyclic_after_iff`).
-/

namespace TagGraph

/-! ## Cycles through one node -/

section

variable {α : Type} {R R' : α → α → Prop} {node : α}

/-- A path to a node, cut where it first comes there, uses no step from the node. -/
theorem reflTransGen_until (h : ∀ a b, a ≠ node → R' a b → R a b) {a : α}
    (hpath : Relation.ReflTransGen R' a node) : Relation.ReflTransGen R a node := by
  induction hpath using Relation.ReflTransGen.head_induction_on with
  | refl => exact .refl
  | @head a b hstep _ ih =>
    by_cases ha : a = node
    · rw [ha]
    · exact .head (h a b ha hstep) ih

/-- A path goes along the old steps alone, or through the node from which there are new ones. -/
theorem transGen_or_through (h : ∀ a b, a ≠ node → R' a b → R a b) {a b : α}
    (hpath : Relation.TransGen R' a b) :
    Relation.TransGen R a b ∨ Relation.ReflTransGen R' a node ∧ Relation.TransGen R' node b := by
  induction hpath with
  | single hstep =>
    by_cases ha : a = node
    · exact Or.inr ⟨ha ▸ .refl, ha ▸ .single hstep⟩
    · exact Or.inl (.single (h _ _ ha hstep))
  | @tail b c hpath hstep ih =>
    by_cases hb : b = node
    · exact Or.inr ⟨hb ▸ hpath.to_reflTransGen, hb ▸ .single hstep⟩
    · rcases ih with ih | ⟨hto, hfrom⟩
      · exact Or.inl (ih.tail (h _ _ hb hstep))
      · exact Or.inr ⟨hto, hfrom.tail hstep⟩

/-- If the steps from one node alone are new, a new cycle leads from it over a new step to where the
old steps lead back. -/
theorem exists_step_of_cycle (h : ∀ a b, a ≠ node → R' a b → R a b)
    (hacyclic : ∀ a, ¬ Relation.TransGen R a a) {a : α} (hcycle : Relation.TransGen R' a a) :
    ∃ next, R' node next ∧ Relation.ReflTransGen R next node := by
  rcases transGen_or_through h hcycle with hold | ⟨hto, hfrom⟩
  · exact absurd hold (hacyclic a)
  · obtain ⟨next, hstep, hback⟩ := Relation.TransGen.head'_iff.mp hfrom
    exact ⟨next, hstep, reflTransGen_until h (hback.trans hto)⟩

end

/-! ## Closing a cycle -/

/-- The node, the field and the values of a write of values. -/
def GraphEdit.written? : GraphEdit → Option (NodeId × String × List PropertyValue)
  | .setProperty node field value _ => some (node, field, [value])
  | .setPropertyValues node field values => some (node, field, values)
  | _ => none

namespace Store

/-- The edit writes values to the live `field:extends` of a node. -/
def WritesParents (s : Store) (e : GraphEdit) (child : NodeId) (values : List PropertyValue) :
    Prop :=
  ∃ field fieldNode, e.written? = some (child, field, values) ∧
    s.findLive? field = .ok (some fieldNode) ∧ fieldNode.systemId = some Handle.fieldExtends

/-- The guard lets a parent pass: the values name it as text alone, or the chain of first parents
above it comes to its end before the child. -/
def Overlooks (s : Store) (child parent : NodeId) (values : List PropertyValue) : Prop :=
  (∀ value ∈ values, parent ∉ value.referenced) ∨
    child ≠ parent ∧ ∃ above, s.ancestors parent = .ok above ∧ child ∉ above

/-- An edit closes a cycle: it writes a parent that the guard overlooks to a child, and above that
parent there stands the child already. -/
structure ClosesCycle (s : Store) (now : Int) (e : GraphEdit) (child parent : NodeId) : Prop where
  overlooked : ∃ values, s.WritesParents e child values ∧
    (∃ value ∈ values, value.asNodeId? = some parent ∨ parent ∈ value.referenced) ∧
    s.Overlooks child parent values
  written : ((e.edit now).after s).Extends child parent
  above : Relation.ReflTransGen s.Extends parent child

variable {s : Store}

/-! ## The steps after an edit -/

/-- A parent that the guard admits as a reference is another node, and the chain above it does not
come to the child. -/
theorem overlooks_of_admits {child parent : NodeId} {field : String}
    {values : List PropertyValue} {fieldNode : Node} (h : s.Admits child field values fieldNode)
    (hextends : fieldNode.systemId = some Handle.fieldExtends) :
    s.Overlooks child parent values := by
  by_cases hseen : ∃ value ∈ values, parent ∈ value.referenced
  · refine Or.inr ?_
    exact wouldCreateCycle_eq_false_iff.mp
      (h.guarded hextends parent (List.mem_flatMap.mpr hseen))
  · exact Or.inl fun value hvalue hmem => hseen ⟨value, hvalue, hmem⟩

end Store

namespace Edit

open Store

variable {α β : Type} {s : Store}

/-- After the edit nobody names a parent that was not named before. -/
def MakesNoStep (e : Edit α) (s : Store) : Prop :=
  ∀ child parent, (e.after s).Names child parent → s.Names child parent

theorem MakesNoStep.reads_bind {e : Edit α} {f : α → Edit β} (he : Reads e)
    (hf : ∀ a, e s = .ok a s → MakesNoStep (f a) s) : MakesNoStep (e >>= f) s := by
  unfold MakesNoStep
  rcases he.after_bind f s with h | ⟨a, ha, h⟩
  · rw [h]
    exact fun _ _ hnames => hnames
  · rw [h]
    exact hf a ha

theorem MakesNoStep.discarded {e : Edit α} (he : MakesNoStep e s) :
    MakesNoStep (discard e) s := by
  unfold MakesNoStep
  rw [after_discard]
  exact he

/-- What makes no steps over sound stores makes none here. -/
theorem MakesNoStep.of_respects (hs : s.Sound) {fields : NodeId → Prop}
    (hfields : ∀ field, fields field → s.Apart field) {e : Edit α}
    (he : Respects (Natively (NoNewSteps fields)) e) : MakesNoStep e s :=
  ((he s hs.native).2 hs hfields).2.2

/-- The same, of an edit that adds no rows. -/
theorem MakesNoStep.of_noNewSteps (hs : s.Sound) {e : Edit α}
    (he : Respects (Natively (NoNewSteps fun _ => False)) e) : MakesNoStep e s :=
  .of_respects hs (fun _ hfield => hfield.elim) he

section

variable {e : Edit α} {node : NodeId} {field : String} {values : List PropertyValue}

/-- An edit of one field makes no step, or its field is `field:extends`. -/
theorem EditsField.names (he : EditsField e s node field values) (hs : s.Sound) :
    MakesNoStep e s ∨ ∃ fieldNode, s.Admits node field values fieldNode ∧
      fieldNode.systemId = some Handle.fieldExtends ∧
      WithinField node fieldNode.id (PropertyValue.MayWrite values) s (e.after s) := by
  rcases he with hsame | ⟨fieldNode, hadmits, hrows⟩
  · exact Or.inl fun _ _ h => hsame ▸ h
  · have hwithin := (hrows _ (WithinField.rowLaw node fieldNode.id _) hs.native).2
    by_cases hextends : fieldNode.systemId = some Handle.fieldExtends
    · exact Or.inr ⟨fieldNode, hadmits, hextends, hwithin⟩
    · refine Or.inl fun child parent h => ?_
      rcases hwithin.names_new h with hold | ⟨-, hfield, -⟩
      · exact hold
      · exact absurd (hs.handle_unique (hs.holds_of_findLive? hadmits.found) hfield) hextends

/-- An edit of a field that is named by another handle makes no step. -/
theorem EditsField.makesNoStep (he : EditsField e s node field values) (hs : s.Sound)
    (htrim : Text.trim field = field) (hid : NodeId.ofString? field = none)
    (hne : field ≠ Handle.fieldExtends) : MakesNoStep e s := by
  rcases he.names hs with hnames | ⟨fieldNode, hadmits, hextends, -⟩
  · exact hnames
  · rw [systemId_of_findLive? htrim hid hadmits.found] at hextends
    exact absurd (Option.some.inj hextends) hne

/-- `field:supertag` is not `field:extends`. -/
theorem EditsField.supertag_makesNoStep
    (he : EditsField e s node Handle.fieldSupertag values) (hs : s.Sound) : MakesNoStep e s :=
  he.makesNoStep hs (by decide +kernel) (by decide +kernel) (by decide)

/-- An edit that writes no values makes no step. -/
theorem EditsField.nil_makesNoStep (he : EditsField e s node field []) (hs : s.Sound) :
    MakesNoStep e s := by
  rcases he.names hs with hnames | ⟨fieldNode, -, -, hwithin⟩
  · exact hnames
  · intro child parent h
    rcases hwithin.names_new h with hold | ⟨-, -, raw, ⟨value, hvalue, -⟩, -⟩
    · exact hold
    · cases hvalue

end

/-- A new node extends nothing: its rows are those of `field:supertag`. -/
theorem createNode_makesNoStep (now : Int) (n : NewNode) (hs : s.Sound) :
    MakesNoStep (createNode now n) s := by
  have hapart : ∀ field, s.Holds (.known field) (some Handle.fieldSupertag) → s.Apart field := by
    rintro field ⟨r, hr, -, hid, hhandle⟩
    refine ⟨r, hr, hid, ?_⟩
    rw [hhandle]
    decide
  have hlaw : RowLaw _ (fun _ field => s.Holds (.known field) (some Handle.fieldSupertag)) _ :=
    NoNewSteps.rowLaw
  have hsteps := createNode_rel hlaw hs now n (NoNewSteps.insertNode now n)
    fun field supertag raw hfield _ => ⟨hfield, trivial⟩
  exact ((hsteps hs.native).2 hs hapart).2.2

end Edit

/-- A write of values edits one field. -/
theorem GraphEdit.editsField {e : GraphEdit} {node : NodeId} {field : String}
    {values : List PropertyValue} (h : e.written? = some (node, field, values)) (now : Int)
    (s : Store) : Edit.EditsField (e.edit now) s node field values := by
  cases e with
  | setProperty node field value order =>
    cases h
    exact Edit.setProperty_editsField now node field value order s
  | setPropertyValues node field values =>
    cases h
    exact Edit.setPropertyValues_editsField now node field values s
  | _ => cases h

/-- An edit of the graph that writes no values makes no step. -/
theorem GraphEdit.makesNoStep {e : GraphEdit} (h : e.written? = none) (now : Int) {s : Store}
    (hs : s.Sound) : Edit.MakesNoStep (e.edit now) s := by
  cases e with
  | createNode n => exact (Edit.createNode_makesNoStep now n hs).discarded
  | updateContent id content =>
    exact .of_noNewSteps hs (Store.NoNewSteps.updateContent now id content)
  | deleteNode id => exact .of_noNewSteps hs (Store.NoNewSteps.deleteNode now id)
  | setProperty node field value order => cases h
  | setPropertyValues node field values => cases h
  | removeProperty node field =>
    exact ((Edit.removeProperty_editsField now node field s).nil_makesNoStep hs).discarded
  | addSupertag node supertag =>
    refine (Edit.MakesNoStep.reads_bind (Edit.requireSupertag_reads supertag) ?_).discarded
    exact fun found _ =>
      (Edit.attachSupertag_editsField now node found.id s).supertag_makesNoStep hs
  | attachSupertag node supertag =>
    exact ((Edit.attachSupertag_editsField now node supertag s).supertag_makesNoStep hs).discarded
  | setSupertags node supertags =>
    refine Edit.MakesNoStep.reads_bind (Edit.requireSupertags_reads supertags) fun ids _ => ?_
    exact (Edit.setPropertyValues_editsField now node _ _ s).supertag_makesNoStep hs

namespace Store

variable {s : Store}

/-- An edit leaves the store sound. -/
theorem Sound.after_graphEdit (hs : s.Sound) (now : Int) (e : GraphEdit) :
    ((e.edit now).after s).Sound :=
  hs.run [⟨now, .graph e⟩]

/-- A cycle that an edit closes is there afterwards. -/
theorem ClosesCycle.not_acyclic (hs : s.Sound) {now : Int} {e : GraphEdit} {child parent : NodeId}
    (h : s.ClosesCycle now e child parent) : ¬ ((e.edit now).after s).Acyclic := by
  have hs' := hs.after_graphEdit now e
  obtain ⟨values, ⟨field, fieldNode, hwritten, -⟩, -⟩ := h.overlooked
  -- The steps from other nodes are still there, up to where they come to the child.
  have hkeep : ∀ a b, a ≠ child → s.Names a b → ((e.edit now).after s).Names a b := by
    intro a b hne hnames
    rcases GraphEdit.editsField hwritten now s with hsame | ⟨fieldNode, -, hrows⟩
    · rwa [hsame]
    · exact (hrows _ (WithinField.rowLaw child fieldNode.id _) hs.native).2.names_keep hne hnames
  have hsteps : s.Extends ≤ s.Names := fun _ _ hstep => (hs.extends_iff.mp hstep).1
  have hback := reflTransGen_until hkeep (Relation.ReflTransGen.mono hsteps _ _ h.above)
  rw [hs'.acyclic_iff]
  exact fun hacyclic =>
    hacyclic child (Relation.TransGen.head' (hs'.extends_iff.mp h.written).1 hback)

/-- A cycle that comes up with an edit has been closed by it. -/
theorem Sound.exists_closesCycle (hs : s.Sound) (hacyclic : s.Acyclic) {now : Int} {e : GraphEdit}
    (h : ¬ ((e.edit now).after s).Acyclic) : ∃ child parent, s.ClosesCycle now e child parent := by
  have hs' := hs.after_graphEdit now e
  rw [hs.acyclic_iff] at hacyclic
  rw [hs'.acyclic_iff, not_forall_not] at h
  obtain ⟨start, hcycle⟩ := h
  -- An edit that makes no step makes no cycle, so this one writes values.
  have hnew : ¬ Edit.MakesNoStep (e.edit now) s := by
    intro hnames
    have hle : ((e.edit now).after s).Names ≤ s.Names := fun _ _ => hnames _ _
    exact hacyclic start (Relation.TransGen.mono hle start start hcycle)
  cases hwritten : e.written? with
  | none => exact absurd (GraphEdit.makesNoStep hwritten now hs) hnew
  | some write =>
    obtain ⟨child, field, values⟩ := write
    rcases (GraphEdit.editsField hwritten now s).names hs with hnone |
      ⟨fieldNode, hadmits, hextends, hwithin⟩
    · exact absurd hnone hnew
    -- The new steps lead from the child, and one of them goes to a parent from which the old steps
    -- lead back to it.
    have hold : ∀ a b, a ≠ child → ((e.edit now).after s).Names a b → s.Names a b := by
      intro a b hne hnames
      rcases hwithin.names_new hnames with h | ⟨heq, -⟩
      · exact h
      · exact absurd heq hne
    obtain ⟨parent, hstep, hback⟩ := exists_step_of_cycle hold hacyclic hcycle
    rcases hwithin.names_new hstep with holdStep | ⟨-, -, raw, hraw, hparent⟩
    · exact absurd (Relation.TransGen.head' holdStep hback) (hacyclic child)
    have hlive : s.IsLive child := hadmits.live
    have habove := hs.reflTransGen_extends hback hlive
    -- The parent is live, as it is the child itself or names a parent of its own.
    have hparentLive : ((e.edit now).after s).IsLive parent := by
      rw [hs'.isLive_iff]
      rcases Relation.ReflTransGen.cases_head hback with rfl | ⟨next, hnext, -⟩
      · exact hstep.1
      · obtain ⟨handle, hholds⟩ := hnext.1
        exact ⟨handle, (hwithin.holds _ _).mpr hholds⟩
    exact ⟨child, parent, ⟨values, ⟨field, fieldNode, hwritten, hadmits.found, hextends⟩,
      hraw.parent hparent, overlooks_of_admits hadmits hextends⟩,
      hs'.extends_iff.mpr ⟨hstep, hparentLive⟩, habove⟩

/-- A store without cycles has none after an edit if and only if the edit closes none. -/
theorem Sound.acyclic_after_iff (hs : s.Sound) (hacyclic : s.Acyclic) (now : Int) (e : GraphEdit) :
    ((e.edit now).after s).Acyclic ↔ ∀ child parent, ¬ s.ClosesCycle now e child parent := by
  constructor
  · exact fun h child parent hcloses => hcloses.not_acyclic hs h
  · intro h
    by_contra hcycle
    obtain ⟨child, parent, hcloses⟩ := hs.exists_closesCycle hacyclic hcycle
    exact h child parent hcloses

end Store

end TagGraph
