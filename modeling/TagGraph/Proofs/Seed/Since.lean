import TagGraph.Proofs.Inheritance.Depth
import TagGraph.Proofs.Field.Room
import TagGraph.Proofs.Seed.Effect

/-!
# Since the start of a seeding

The steps of a seeding leave what later ones look at as it was at the start (`Seeding.Since`): the
type of `field:fieldType` until it is declared, and the parents of all supertags but those to which
they have given one. Whether the guard lets a parent through therefore depends on the start alone
(`Seeding.Since.guard_of_allows`, `Seeding.Since.allows_of_guard`).
-/

namespace TagGraph

/-! ## What a seeding asks for -/

namespace Store

/-- What a step of the seeding asks of the store in which the seeding starts: a declaration, that
the type of `field:fieldType` admits texts, and a parent, that it is no node below the supertag. -/
def Allows (s : Store) : SeedStep → Prop
  | .declare _ _ => ∀ typeField, s.Holds (.known typeField) (some Handle.fieldFieldType) →
    ∃ type ∈ [none, some FieldType.text, some FieldType.json],
      s.fieldType? typeField = .ok type
  | .inherit supertag parent => ∀ child above, s.Holds (.known child) (some supertag) →
    s.Holds (.known above) (some parent) → s.wouldCreateCycle child above = .ok false
  | _ => True

/-- The first identifiers for new nodes are different ones, no node has them, live or not, and no
row names them. -/
structure Unused (s : Store) (fresh : Nat → NodeId) (count : Nat) : Prop where
  distinct : ∀ i < count, ∀ j < count, fresh i = fresh j → i = j
  unheld : ∀ i < count, StoredId.known (fresh i) ∉ s.nodes.map (·.id)
  unnamed : ∀ i < count, ∀ r ∈ s.properties, PropertyValue.parentIn? r.value ≠ some (fresh i)

end Store

namespace SeedStep

/-- The field of a node that a step writes. -/
def written? : SeedStep → Option (String × String)
  | .assign node _ => some (node, Handle.fieldSupertag)
  | step => step.target?

theorem mem_declared {steps : List SeedStep} {field : String} {type : FieldType}
    (h : .declare field type ∈ steps) : (field, type) ∈ steps.filterMap (·.declared?) :=
  List.mem_filterMap.mpr ⟨_, h, rfl⟩

theorem eq_declare_of_written? {step : SeedStep} {node : String}
    (h : step.written? = some (node, Handle.fieldFieldType)) :
    ∃ type, step = .declare node type := by
  cases step with
  | create => cases h
  | declare field type =>
    obtain ⟨rfl, -⟩ := Prod.mk.inj (Option.some.inj h)
    exact ⟨type, rfl⟩
  | assign | inherit | save => exact absurd (Prod.mk.inj (Option.some.inj h)).2 (by decide)

theorem eq_inherit_of_written? {step : SeedStep} {node : String}
    (h : step.written? = some (node, Handle.fieldExtends)) :
    ∃ parent, step = .inherit node parent := by
  cases step with
  | create => cases h
  | inherit supertag parent =>
    obtain ⟨rfl, -⟩ := Prod.mk.inj (Option.some.inj h)
    exact ⟨parent, rfl⟩
  | declare | assign | save => exact absurd (Prod.mk.inj (Option.some.inj h)).2 (by decide)

end SeedStep

namespace Store

variable {s : Store}

namespace Sound

/-! ## New nodes -/

theorem nodeBySystemId?_of_gone (hs : s.Sound) {handle : String}
    (h : ∀ id, ¬ s.Holds id (some handle)) : s.nodeBySystemId? handle = .ok none := by
  obtain ⟨found, hfound⟩ := hs.nodeBySystemId?_succeeds handle
  cases found with
  | none => exact hfound
  | some n => exact absurd (hs.holds_of_nodeBySystemId? hfound) (h _)

theorem mem_ids_of_holds {id : StoredId} {handle : Option String} (h : s.Holds id handle) :
    id ∈ s.nodes.map (·.id) := by
  obtain ⟨r, hr, -, hid, -⟩ := h
  exact List.mem_map.mpr ⟨r, hr, hid⟩

/-- A node that has not been inserted has no parent. -/
theorem parent?_of_new (hs : s.Sound) {id : NodeId}
    (hnew : StoredId.known id ∉ s.nodes.map (·.id)) : s.parent? id = .ok none := by
  obtain ⟨field, hfield⟩ := hs.nodeBySystemId?_succeeds Handle.fieldExtends
  cases field with
  | none => rw [parent?, hfield]; rfl
  | some field =>
    exact hs.parent?_of_texts_nil (hs.holds_of_nodeBySystemId? hfield) (hs.texts_of_new hnew _)

/-- The guard lets any other node extend one that has not been inserted, and lets one that has not
been inserted extend any other. -/
theorem wouldCreateCycle_of_new (hs : s.Sound) {child above : NodeId} (hne : child ≠ above)
    (hnew : StoredId.known child ∉ s.nodes.map (·.id) ∨
      StoredId.known above ∉ s.nodes.map (·.id)) :
    s.wouldCreateCycle child above = .ok false := by
  obtain ⟨chain, hchain, -⟩ := hs.exists_ancestors above
  refine wouldCreateCycle_eq_false_iff.mpr ⟨hne, chain, hchain, fun hmem => ?_⟩
  rcases hnew with hnew | hnew
  · exact hs.not_isLive_of_new hnew (isLive_of_mem_ancestorsFrom hchain child hmem)
  · have hend := ancestorsFrom_top (hs.parent?_of_new hnew) maxDepth [above]
    obtain rfl := Except.ok.inj (hend.symm.trans hchain)
    cases hmem

end Sound

end Store

namespace Edit

open Store

variable {s : Store}

/-- An edit of one field adds and removes no nodes. -/
theorem EditsField.ids_eq {α : Type} {e : Edit α} {node : NodeId} {field : String}
    {values : List PropertyValue} (he : EditsField e s node field values) (hs : s.Sound) :
    (e.after s).nodes.map (·.id) = s.nodes.map (·.id) := by
  rcases he with hsame | ⟨fieldNode, -, hrows⟩
  · rw [hsame]
  · have hkept := congrArg (List.map (·.id)) (hrows _ keepsNodes_rowLaw hs.native).2
    rwa [List.map_map, List.map_map] at hkept

end Edit

/-! ## What the steps so far have left -/

namespace Seeding

open Store

variable {start : Store} {fresh : Nat → NodeId} {earlier : List SeedStep} {step : SeedStep}
  {left : Nat} {state : SeedState}

namespace Reached

/-- The node and the type of a field that has been declared. -/
theorem exists_declared (h : Reached earlier state) {field : String}
    {type : FieldType} (hmem : (field, type) ∈ earlier.filterMap (·.declared?)) :
    ∃ f, state.store.Holds (.known f) (some field) ∧
      state.store.fieldType? f = .ok (some type) := by
  obtain ⟨step, hstep, hdeclares⟩ := List.mem_filterMap.mp hmem
  cases step with
  | declare f t =>
    cases hdeclares
    obtain ⟨-, -, n, -, hn, -⟩ := h.done _ hstep
    exact ⟨n, hn, h.sound.fieldType?_of_hasDone h.done hmem hn⟩
  | _ => cases hdeclares

theorem exists_created (h : Reached earlier state) {handle : String}
    (hmem : handle ∈ earlier.filterMap (·.created?)) :
    ∃ id, state.store.Holds (.known id) (some handle) := by
  obtain ⟨id, hid⟩ := h.exists_id? hmem
  exact ⟨id, h.holds_of_id? hid⟩

end Reached

/-- A seeding that has come through some steps since its start: all live nodes still are, and
further ones are new; the texts are the same but in the fields that the steps have written; and
there is room for further rows. -/
structure Since (start : Store) (fresh : Nat → NodeId) (earlier : List SeedStep) (left : Nat)
    (state : SeedState) : Prop extends Reached earlier state where
  drawn : state.context.drawn = (earlier.filterMap (·.created?)).length
  held : ∀ id handle, start.Holds id handle → state.store.Holds id handle
  live : ∀ id handle, state.store.Holds id handle →
    start.Holds id handle ∨ id ∉ start.nodes.map (·.id)
  added : ∀ id ∈ state.store.nodes.map (·.id), id ∈ start.nodes.map (·.id) ∨
    ∃ i < state.context.drawn, id = .known (fresh i)
  texts : ∀ n f, (∀ step ∈ earlier, ∀ node field, step.written? = some (node, field) →
      state.store.Holds (.known n) (some node) → ¬ state.store.Holds (.known f) (some field)) →
    state.store.texts n f = start.texts n f
  counted : 0 ≤ state.store.lastRowId
  room : state.store.Roomy left

theorem since_empty (hs : start.Sound) (hcounted : 0 ≤ start.lastRowId) (hroom : start.Roomy left) :
    Since start fresh [] left ⟨start, .empty⟩ where
  toReached := reached_empty hs
  drawn := rfl
  held _ _ h := h
  live _ _ h := Or.inl h
  added _ h := Or.inl h
  texts _ _ _ := rfl
  counted := hcounted
  room := hroom

namespace Since

/-- A handle that a new node has is one that no node has had at the start. -/
theorem gone_of_new (h : Since start fresh earlier left state) {id : NodeId} {handle : String}
    (hid : state.store.Holds (.known id) (some handle))
    (hnew : StoredId.known id ∉ start.nodes.map (·.id)) (other : StoredId) :
    ¬ start.Holds other (some handle) := by
  intro hother
  rw [h.sound.holds_unique hid (h.held _ _ hother)] at hnew
  exact hnew (Sound.mem_ids_of_holds hother)

/-- The types of `field:fieldType` itself are those of the start until they are declared. -/
theorem fieldType?_eq (h : Since start fresh earlier left state) (hs : start.Sound)
    (hnone : ∀ type, .declare Handle.fieldFieldType type ∉ earlier) {f : NodeId}
    (hf : state.store.Holds (.known f) (some Handle.fieldFieldType)) :
    state.store.fieldType? f = start.fieldType? f := by
  have htexts : state.store.texts f f = start.texts f f := by
    refine h.texts f f fun step hstep node field hwritten hnode hfield => ?_
    obtain rfl := Option.some.inj (h.sound.handle_unique hnode hf)
    obtain rfl := Option.some.inj (h.sound.handle_unique hfield hf)
    obtain ⟨type, rfl⟩ := SeedStep.eq_declare_of_written? hwritten
    exact hnone type hstep
  rw [h.sound.fieldType?_eq hf, htexts]
  rcases h.live _ _ hf with hold | hnew
  · rw [hs.fieldType?_eq hold]
  · rw [hs.texts_of_new hnew, fieldType?, hs.nodeBySystemId?_of_gone (h.gone_of_new hf hnew)]
    rfl

/-- The parents of nodes are those of the start unless a step has written them. -/
theorem parent?_eq (h : Since start fresh earlier left state) (hs : start.Sound) {count : Nat}
    (hunused : start.Unused fresh count) (hdrawn : state.context.drawn ≤ count) {n : NodeId}
    (hn : ∀ supertag parent, .inherit supertag parent ∈ earlier →
      ¬ state.store.Holds (.known n) (some supertag)) :
    state.store.parent? n = start.parent? n := by
  have htexts : ∀ f, state.store.Holds (.known f) (some Handle.fieldExtends) →
      state.store.texts n f = start.texts n f := by
    refine fun f hf => h.texts n f fun step hstep node field hwritten hnode hfield => ?_
    obtain rfl := Option.some.inj (h.sound.handle_unique hfield hf)
    obtain ⟨parent, rfl⟩ := SeedStep.eq_inherit_of_written? hwritten
    exact hn _ parent hstep hnode
  have hnone : (∀ id, ¬ start.Holds id (some Handle.fieldExtends)) →
      start.parent? n = .ok none := by
    intro hgone
    rw [parent?, hs.nodeBySystemId?_of_gone hgone]
    rfl
  obtain ⟨found, hfound⟩ := h.sound.nodeBySystemId?_succeeds Handle.fieldExtends
  cases found with
  | none =>
    rw [hnone fun id hid => Sound.not_holds_of_nodeBySystemId? hfound id (h.held _ _ hid), parent?,
      hfound]
    rfl
  | some field =>
    have hfield := h.sound.holds_of_nodeBySystemId? hfound
    rcases h.live _ _ hfield with hold | hnew
    · obtain ⟨above, habove, hiff⟩ := h.sound.exists_parent? hfield n
      obtain ⟨above', habove', hiff'⟩ := hs.exists_parent? hold n
      rw [habove, habove']
      refine congrArg Except.ok (Option.ext fun parent => ?_)
      rw [hiff, hiff', htexts field.id hfield]
      refine and_congr_right fun hnamed => ?_
      rw [h.sound.isLive_iff, hs.isLive_iff]
      refine ⟨?_, Exists.imp fun handle => h.held _ handle⟩
      rintro ⟨handle, hparent⟩
      rcases h.live _ _ hparent with hparent | hnew
      · exact ⟨handle, hparent⟩
      -- The rows of the start name none of the nodes that are new.
      · obtain ⟨i, hi, heq⟩ := (h.added _ (Sound.mem_ids_of_holds hparent)).resolve_left hnew
        obtain rfl := StoredId.known.inj heq
        obtain ⟨raw, hraw, hnames⟩ := List.exists_of_findSome?_eq_some hnamed
        obtain ⟨r, hr, -, -, rfl⟩ := mem_texts.mp hraw
        exact absurd hnames (hunused.unnamed i (by omega) r hr)
    · rw [hnone (h.gone_of_new hfield hnew)]
      refine h.sound.parent?_of_texts_nil hfield ?_
      rw [htexts field.id hfield, hs.texts_of_new_field hnew]

/-- What the guard has let through since the start it still does, so that no supertag to which a
step has given a parent stands above that one. -/
theorem not_mem_chain (h : Since start fresh earlier left state) {supertag parent : String}
    (hmem : .inherit supertag parent ∈ earlier) {n item : NodeId}
    (hitem : state.store.Holds (.known item) (some Handle.supertagItem))
    (hn : state.store.Holds (.known n) (some supertag)) :
    state.store.wouldCreateCycle n item = .ok false := by
  obtain rfl : parent = Handle.supertagItem := beq_iff_eq.mp (h.rooted _ hmem)
  obtain ⟨child, above, raw, hchild, habove, -, -, hguard⟩ := h.done _ hmem
  obtain rfl := StoredId.known.inj (h.sound.holds_unique hn hchild)
  obtain rfl := StoredId.known.inj (h.sound.holds_unique hitem habove)
  exact hguard

/-- A parent that the start allows, as its guard sees the nodes that are there now. -/
theorem allows_start (h : Since start fresh earlier left state) (hs : start.Sound)
    {supertag parent : String} (hallows : start.Allows (.inherit supertag parent))
    {child above : NodeId} (hne : child ≠ above)
    (hchild : state.store.Holds (.known child) (some supertag))
    (habove : state.store.Holds (.known above) (some parent)) :
    start.wouldCreateCycle child above = .ok false := by
  rcases h.live _ _ hchild with hchild | hnew
  · rcases h.live _ _ habove with habove | hnew
    · exact hallows child above hchild habove
    · exact hs.wouldCreateCycle_of_new hne (Or.inr hnew)
  · exact hs.wouldCreateCycle_of_new hne (Or.inl hnew)

/-- The guard lets a parent through if the start allows it and has allowed those before it. -/
theorem guard_of_allows (h : Since start fresh earlier left state) (hs : start.Sound) {count : Nat}
    (hunused : start.Unused fresh count) (hdrawn : state.context.drawn ≤ count)
    (hallows : ∀ step ∈ earlier, start.Allows step) {supertag : String}
    (hthis : start.Allows (.inherit supertag Handle.supertagItem)) {child item : NodeId}
    (hne : child ≠ item) (hchild : state.store.Holds (.known child) (some supertag))
    (hitem : state.store.Holds (.known item) (some Handle.supertagItem)) :
    state.store.wouldCreateCycle child item = .ok false := by
  refine wouldCreateCycle_of_alike (h.allows_start hs hthis hne hchild hitem)
    fun above habove n hn => Or.inl (h.parent?_eq hs hunused hdrawn
      fun other parent hother hheld => ?_)
  obtain ⟨hnotItem, -⟩ := wouldCreateCycle_eq_false_iff.mp (h.not_mem_chain hother hitem hheld)
  obtain rfl : parent = Handle.supertagItem := beq_iff_eq.mp (h.rooted _ hother)
  obtain ⟨-, above', habove', hnot⟩ := wouldCreateCycle_eq_false_iff.mp
    (h.allows_start hs (hallows _ hother) hnotItem hheld hitem)
  obtain rfl := Except.ok.inj (habove.symm.trans habove')
  exact hn.elim hnotItem hnot

/-- What the guard lets through the start allows. -/
theorem allows_of_guard (h : Since start fresh earlier left state) (hs : start.Sound) {count : Nat}
    (hunused : start.Unused fresh count) (hdrawn : state.context.drawn ≤ count)
    {child item : NodeId} (hitem : state.store.Holds (.known item) (some Handle.supertagItem))
    (hguard : state.store.wouldCreateCycle child item = .ok false) :
    start.wouldCreateCycle child item = .ok false := by
  refine wouldCreateCycle_of_alike hguard fun above habove n hn =>
    Or.inl (h.parent?_eq hs hunused hdrawn fun other parent hother hheld => ?_).symm
  obtain ⟨hnotItem, above', habove', hnot⟩ :=
    wouldCreateCycle_eq_false_iff.mp (h.not_mem_chain hother hitem hheld)
  obtain rfl := Except.ok.inj (habove.symm.trans habove')
  exact hn.elim hnotItem hnot

/-! ## One step further -/

/-- An edit of one field as a further step. -/
theorem of_edit (h : Since start fresh earlier (left + 1) state) {α : Type} {e : Edit α} {a : α}
    {s' : Store} {n : NodeId} {node field : String} {values : List PropertyValue}
    (hok : e state.store = .ok a s') (hspends : Spends state.store s')
    (he : Edit.EditsField e state.store n field values) (hname : IsName field)
    (hn : state.store.Holds (.known n) (some node)) (hwritten : step.written? = some (node, field))
    (hcreated : step.created? = none)
    (hreached : Reached (earlier ++ [step]) { state with store := s' }) :
    Since start fresh (earlier ++ [step]) left { state with store := s' } := by
  obtain rfl := Edit.after_of_ok hok
  have hholds : ∀ id handle, (e.after state.store).Holds id handle ↔ state.store.Holds id handle :=
    fun _ _ => he.holds_iff h.sound
  constructor
  case toReached => exact hreached
  case drawn => simpa [hcreated] using h.drawn
  case held => exact fun id handle hid => (hholds id handle).mpr (h.held id handle hid)
  case live => exact fun id handle hid => h.live id handle ((hholds id handle).mp hid)
  case added =>
    intro id hid
    rw [he.ids_eq h.sound] at hid
    exact h.added id hid
  case texts =>
    intro m f hapart
    refine (he.texts_apart h.sound hname ?_).trans (h.texts m f ?_)
    · rintro rfl hf
      exact hapart step (by simp) node field hwritten ((hholds _ _).mpr hn) ((hholds _ _).mpr hf)
    · intro other hother w g hw hm hg
      exact hapart other (by simp [hother]) w g hw ((hholds _ _).mpr hm) ((hholds _ _).mpr hg)
  case counted => exact Int.le_trans h.counted hspends.numbers.1
  case room => exact h.room.spend h.counted hspends

end Since

end Seeding

end TagGraph
