import TagGraph.Proofs.Memo
import TagGraph.Proofs.Store.Readable

/-!
# Assembling nodes one by one

What a node is assembled to depends on the store and the node alone (`Store.joined`), not on the
fields and supertags that are remembered from other nodes. All live nodes assembled in one reading
are the nodes assembled each on its own (`Store.Sound.assembleAll_eq`, `Store.Sound.assemble?_eq`).
-/

namespace TagGraph

open Reading

namespace Store

/-! ## The join without memory -/

/-- The live supertags among nodes, each looked up on its own. -/
def liveTags (s : Store) (ids : List NodeId) : List SupertagRef :=
  ids.flatMap fun id => (found? (s.supertagRef? id)).toList

/-- The held value of a row, unless its field is gone or it holds none. -/
def heldValue? (s : Store) (row : Property) : Option HeldValue :=
  match found? (s.fieldInfo? row.fieldId), PropertyValue.decode? row.value with
  | some info, some value =>
    some ⟨row.fieldId, info, value, if info.isSupertag then s.liveTags value.referenced else []⟩
  | _, _ => none

/-- The rows of a node. -/
def rowsOf (s : Store) (node : NodeId) : List Property :=
  found? (some <$> s.propertiesOf node) |>.getD []

/-- A node joined with the values that it holds. -/
def joined (s : Store) (node : Node) : AssembledNode :=
  .ofHeld node ((s.rowsOf node.id).flatMap fun row => (s.heldValue? row).toList)

/-- All live nodes, each joined on its own, in the order of creation. -/
def joinedNodes (s : Store) : List AssembledNode :=
  s.liveNodes.map s.joined

@[simp] theorem joined_id (s : Store) (node : Node) : (s.joined node).id = node.id := rfl

@[simp] theorem joined_ownerId (s : Store) (node : Node) :
    (s.joined node).ownerId = node.ownerId := rfl

@[simp] theorem joined_content (s : Store) (node : Node) :
    (s.joined node).content = node.content := rfl

@[simp] theorem joined_createdAt (s : Store) (node : Node) :
    (s.joined node).createdAt = node.createdAt := rfl

end Store

namespace Assembling

/-- The tables hold nothing but what the store says. -/
structure Known (s : Store) (memo : AssemblyMemo) : Prop where
  fields : memo.fields.Faithful s.fieldInfo?
  supertags : memo.supertags.Faithful s.supertagRef?

theorem known_noMemo (s : Store) : Known s noMemo :=
  ⟨Memo.faithful_empty _, Memo.faithful_empty _⟩

/-- A reading with one answer gives it from the start. -/
theorem fresh_eq {α : Type} {s : Store} {e : Assembling α} {a : α} (h : Answers (Known s) e a) :
    e.fresh = .ok a := by
  obtain ⟨memo, hmemo, _⟩ := h noMemo (known_noMemo s)
  rw [fresh, hmemo]
  rfl

variable {s : Store}

theorem fieldInfo?_answers (hs : s.Sound) (field : NodeId) :
    Answers (Known s) (fieldInfo? s field) (found? (s.fieldInfo? field)) := by
  intro memo h
  obtain ⟨fields, hfields, hfaithful⟩ :=
    h.fields.consult field (hs.fieldInfo?_succeeds field).eq_ok_found
  refine ⟨{ memo with fields }, ?_, hfaithful, h.supertags⟩
  rw [fieldInfo?, hfields]
  rfl

theorem supertagRef?_answers (hs : s.Sound) (supertag : NodeId) :
    Answers (Known s) (supertagRef? s supertag) (found? (s.supertagRef? supertag)) := by
  intro memo h
  obtain ⟨supertags, hsupertags, hfaithful⟩ :=
    h.supertags.consult supertag (hs.supertagRef?_succeeds supertag).eq_ok_found
  refine ⟨{ memo with supertags }, ?_, h.fields, hfaithful⟩
  rw [supertagRef?, hsupertags]
  rfl

theorem supertagRefs_answers (hs : s.Sound) (ids : List NodeId) :
    Answers (Known s) (supertagRefs s ids) (s.liveTags ids) := by
  induction ids with
  | nil => exact Answers.pure []
  | cons id rest ih => exact (supertagRef?_answers hs id).bind (ih.bind (Answers.pure _))

theorem ofRow_answers (hs : s.Sound) (row : Property) :
    Answers (Known s) (HeldValue.ofRow s row) (s.heldValue? row) := by
  -- A row without its field or without a value is passed over, and only values of `field:supertag`
  -- are looked up as supertags.
  refine (fieldInfo?_answers hs row.fieldId).bind ?_
  unfold Store.heldValue?
  cases found? (s.fieldInfo? row.fieldId) with
  | none => exact Answers.pure none
  | some info =>
    cases PropertyValue.decode? row.value with
    | none => exact Answers.pure none
    | some value =>
      obtain ⟨key, hasHandle, isSupertag⟩ := info
      cases isSupertag with
      | false => exact (Answers.pure []).bind (Answers.pure _)
      | true => exact (supertagRefs_answers hs value.referenced).bind (Answers.pure _)

theorem ofRows_answers (hs : s.Sound) (rows : List Property) :
    Answers (Known s) (HeldValue.ofRows s rows)
      (rows.flatMap fun row => (s.heldValue? row).toList) := by
  induction rows with
  | nil => exact Answers.pure []
  | cons row rest ih => exact (ofRow_answers hs row).bind (ih.bind (Answers.pure _))

theorem ofNode_answers (hs : s.Sound) (node : Node) :
    Answers (Known s) (ofNode s node) (s.joined node) := by
  have hrows : s.propertiesOf node.id = .ok (s.rowsOf node.id) := by
    obtain ⟨rows, hrows⟩ := hs.propertiesOf_succeeds node.id
    rw [Store.rowsOf, hrows]
    rfl
  exact (Answers.lift hrows).bind ((ofRows_answers hs _).bind (Answers.pure _))

theorem ofNodes_answers (hs : s.Sound) (nodes : List Node) :
    Answers (Known s) (ofNodes s nodes) (nodes.map s.joined) := by
  induction nodes with
  | nil => exact Answers.pure []
  | cons node rest ih => exact (ofNode_answers hs node).bind (ih.bind (Answers.pure _))

theorem ofId_answers (hs : s.Sound) (id : NodeId) :
    Answers (Known s) (ofId s id) ((found? (s.node? id)).map s.joined) := by
  refine (Answers.lift (hs.node?_succeeds id).eq_ok_found).bind ?_
  cases found? (s.node? id) with
  | none => exact Answers.pure none
  | some node => exact (ofNode_answers hs node).bind (Answers.pure _)

theorem ofIds_answers (hs : s.Sound) (ids : List NodeId) :
    Answers (Known s) (ofIds s ids)
      (ids.flatMap fun id => ((found? (s.node? id)).map s.joined).toList) := by
  induction ids with
  | nil => exact Answers.pure []
  | cons id rest ih => exact (ofId_answers hs id).bind (ih.bind (Answers.pure _))

end Assembling

namespace Store.Sound

variable {s : Store}

/-- A node assembled on its own is the node joined without memory. -/
theorem assemble?_eq (hs : s.Sound) (id : NodeId) :
    s.assemble? id = .ok ((found? (s.node? id)).map s.joined) :=
  Assembling.fresh_eq (Assembling.ofId_answers hs id)

/-- Nodes assembled in one reading are the live ones among them, joined one by one. -/
theorem assembleMany_eq (hs : s.Sound) (ids : List NodeId) :
    s.assembleMany ids =
      .ok (ids.flatMap fun id => ((found? (s.node? id)).map s.joined).toList) :=
  Assembling.fresh_eq (Assembling.ofIds_answers hs ids)

/-- All live nodes assembled in one reading are the nodes joined one by one. -/
theorem assembleAll_eq (hs : s.Sound) : s.assembleAll = .ok s.joinedNodes := by
  rw [assembleAll, hs.listNodes_live]
  exact Assembling.fresh_eq (Assembling.ofNodes_answers hs s.liveNodes)

theorem joinedNodes_ids_nodup (hs : s.Sound) : (s.joinedNodes.map (·.id)).Nodup := by
  rw [joinedNodes, List.map_map]
  exact hs.liveNodes_ids_nodup

end Store.Sound

end TagGraph
