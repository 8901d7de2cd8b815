import TagGraph.Store.Basic

/-!
# Rows as this library writes them

A row that this library has written holds known identifiers and whole numbers, so it means a node or
a row of a field and can be read. `Node.record` and `Property.record` are those rows.
-/

namespace TagGraph

namespace Cell

/-- A time or nothing as a cell. -/
def ofWhole? : Option Int → Cell
  | some i => .integer i
  | none => .null

@[simp] theorem readWhole?_ofWhole? (i : Option Int) : (ofWhole? i).readWhole? = .ok i := by
  cases i <;> rfl

@[simp] theorem isNull_ofWhole? (i : Option Int) : (ofWhole? i).isNull = i.isNone := by
  cases i <;> rfl

/-- Whole numbers stand in their order. -/
theorem precedes_integer (i j : Int) : (integer i).precedes (integer j) = decide (i ≤ j) := by
  show (compare i j != .gt) = decide (i ≤ j)
  rw [Bool.eq_iff_iff, bne_iff_ne, decide_eq_true_iff, Int.compare_ne_gt]

/-- The greater of two whole numbers as a cell. -/
theorem max_integer (i j : Int) : (integer i).max (integer j) = integer (Max.max i j) := by
  rw [Cell.max, precedes_integer]
  by_cases h : j ≤ i
  · rw [Int.max_eq_left h]
    simp [h]
  · rw [Int.max_eq_right (by omega)]
    simp [h]

end Cell

/-- What a look-up with a second part gives, both parts give. -/
theorem Reading.bind_ok {α β : Type} {r : Except StoreError α} {f : α → Except StoreError β} {b : β}
    (h : r >>= f = .ok b) : ∃ a, r = .ok a ∧ f a = .ok b := by
  cases r with
  | error err => cases h
  | ok a => exact ⟨a, rfl, h⟩

/-- A row that can be read means a node with its identifier and its handle. -/
theorem NodeRecord.of_read {r : NodeRecord} {n : Node} (h : r.read = .ok n) :
    r.id.read .nodeId = .ok n.id ∧ n.systemId = r.systemId := by
  have hrest : ∀ owner : Option NodeId, (do
      let id ← r.id.read .nodeId
      let createdAt ← r.createdAt.readWhole
      let updatedAt ← r.updatedAt.readWhole
      let deletedAt ← r.deletedAt.readWhole?
      return {
        id, ownerId := owner, createdAt, updatedAt, deletedAt
        content := r.content
        contentPlain := r.contentPlain
        systemId := r.systemId } : Except StoreError Node) = .ok n →
          r.id.read .nodeId = .ok n.id ∧ n.systemId = r.systemId := by
    intro owner h
    obtain ⟨id, hid, h⟩ := Reading.bind_ok h
    obtain ⟨createdAt, -, h⟩ := Reading.bind_ok h
    obtain ⟨updatedAt, -, h⟩ := Reading.bind_ok h
    obtain ⟨deletedAt, -, h⟩ := Reading.bind_ok h
    cases h
    exact ⟨hid, rfl⟩
  unfold NodeRecord.read at h
  cases howner : r.ownerId with
  | none =>
    simp only [howner] at h
    exact hrest none h
  | some stored =>
    simp only [howner] at h
    obtain ⟨owner, -, h⟩ := Reading.bind_ok h
    exact hrest owner h

/-- A stored row that can be read means a row with its text, whose identifiers are those that it
writes. -/
theorem PropertyRecord.of_read {r : PropertyRecord} {p : Property} (h : r.read = .ok p) :
    r.nodeId.read .propertyNode = .ok p.nodeId ∧ p.value = r.value := by
  unfold PropertyRecord.read at h
  obtain ⟨id, -, h⟩ := Reading.bind_ok h
  obtain ⟨nodeId, hnode, h⟩ := Reading.bind_ok h
  obtain ⟨fieldId, -, h⟩ := Reading.bind_ok h
  obtain ⟨order, -, h⟩ := Reading.bind_ok h
  obtain ⟨createdAt, -, h⟩ := Reading.bind_ok h
  obtain ⟨updatedAt, -, h⟩ := Reading.bind_ok h
  cases h
  exact ⟨hnode, rfl⟩

/-- The row of a node. -/
def Node.record (n : Node) : NodeRecord where
  id := .known n.id
  content := n.content
  contentPlain := n.contentPlain
  systemId := n.systemId
  ownerId := n.ownerId.map .known
  createdAt := .integer n.createdAt
  updatedAt := .integer n.updatedAt
  deletedAt := .ofWhole? n.deletedAt

/-- The stored row of a row of a field. -/
def Property.record (p : Property) : PropertyRecord where
  id := .integer p.id
  nodeId := .known p.nodeId
  fieldId := .known p.fieldId
  value := p.value
  order := .integer p.order
  createdAt := .integer p.createdAt
  updatedAt := .integer p.updatedAt

@[simp] theorem Node.read_record (n : Node) : n.record.read = .ok n := by
  obtain ⟨id, content, contentPlain, systemId, ownerId, createdAt, updatedAt, deletedAt⟩ := n
  cases ownerId <;> cases deletedAt <;> rfl

/-- A node is known from what is stored of it. -/
theorem Node.record_injective : Function.Injective Node.record := by
  intro m n h
  have hread := congrArg NodeRecord.read h
  rw [read_record, read_record] at hread
  exact Except.ok.inj hread

@[simp] theorem Node.isLive_record (n : Node) : n.record.isLive = n.isActive :=
  Cell.isNull_ofWhole? n.deletedAt

@[simp] theorem Property.read_record (p : Property) : p.record.read = .ok p := rfl

end TagGraph
