import Mathlib.Logic.Relation
import TagGraph.Proofs.Edit

/-!
# Elementary changes of a store

On the tables of this library each edit of the tables makes at most one of a few elementary changes
(`Store.Change`): a node is added, a live node gets another content, time or tombstone, a row is
added, the rows of a field are removed. Every other edit is a sequence of these. What relates a
store to the one after the change that an edit makes is therefore respected by the edit on these
tables (`Store.Natively`), and a statement about all edits is an induction over changes.
-/

namespace TagGraph

namespace Store

/-- The store in which the row of a live node has been changed. -/
def updateNode (s : Store) (id : NodeId) (change : NodeRecord → NodeRecord) : Store :=
  { s with
    nodes := s.nodes.map fun (r : NodeRecord) =>
      if r.id == StoredId.known id && r.isLive then change r else r }

/-- The store without the rows of a field of a node. -/
def removeRows (s : Store) (node field : NodeId) : Store :=
  { s with
    properties := s.properties.filter fun r =>
      !(r.nodeId == StoredId.known node && r.fieldId == StoredId.known field) }

/-- The row of a field of a node, written at `now`. -/
def newRow (now number : Int) (node field : NodeId) (raw : String) (order : Int) : PropertyRecord :=
  ⟨.integer number, .known node, .known field, raw, .integer order, .integer now, .integer now⟩

/-- The store with a further row of a field. -/
def addRow (s : Store) (number : Int) (row : PropertyRecord) : Store :=
  { s with properties := s.properties ++ [row], lastRowId := number }

/-- One elementary change of a store. -/
inductive Change (s : Store) : Store → Prop where
  | addNode (now : Int) (n : NewNode) (valid : n.fault? = none)
      (free : Edit.conflict? s (Edit.newRecord now n) = none) :
      Change s { s with nodes := s.nodes ++ [Edit.newRecord now n] }
  | setContent (now : Int) (id : NodeId) (content : String) :
      Change s (s.updateNode id fun r =>
        { r with content, contentPlain := Text.plain content, updatedAt := .integer now })
  | touch (now : Int) (id : NodeId) :
      Change s (s.updateNode id fun r => { r with updatedAt := r.updatedAt.max (.integer now) })
  | bury (now : Int) (id : NodeId) :
      Change s (s.updateNode id fun r =>
        { r with deletedAt := .integer now, updatedAt := .integer now })
  | addRow (now number : Int) (node field : NodeId) (raw : String) (order : Int)
      (hasNode : Edit.hasNode s node = true) (hasField : Edit.hasNode s field = true)
      (next : s.nextRowId = .ok number) :
      Change s (s.addRow number (newRow now number node field raw order))
  | removeRows (node field : NodeId) : Change s (s.removeRows node field)

/-- A sequence of elementary changes. -/
abbrev Changes : Store → Store → Prop :=
  Relation.ReflTransGen Change

/-- A relation between a store on the tables of this library and a later one on the same tables. It
says nothing about other stores. -/
def Natively (Q : Store → Store → Prop) (s s' : Store) : Prop :=
  s.foreign = none → s'.foreign = none ∧ Q s s'

theorem changes_composes : Composes Changes :=
  ⟨fun _ => Relation.ReflTransGen.refl, Relation.ReflTransGen.trans⟩

theorem Composes.natively {Q : Store → Store → Prop} (hQ : Composes Q) :
    Composes (Natively Q) where
  refl s hs := ⟨hs, hQ.refl s⟩
  trans hab hbc ha := ⟨(hbc (hab ha).1).1, hQ.trans (hab ha).2 (hbc (hab ha).1).2⟩

end Store

namespace Edit

open Store

variable {Q : Store → Store → Prop}

/-! ## What the edits of the tables do -/

/-- Adding a node to the tables of this library adds its row or nothing. -/
theorem after_addNode {s : Store} (hs : s.foreign = none) (lenient : Bool) (r : NodeRecord) :
    (addNode lenient r).after s = s ∨
      conflict? s r = none ∧ (addNode lenient r).after s = { s with nodes := s.nodes ++ [r] } := by
  rw [addNode, after_get_bind, hs]
  cases hc : conflict? s r with
  | none => exact Or.inr ⟨rfl, by simp⟩
  | some cause => cases lenient <;> exact Or.inl (by simp)

theorem after_updateLive (s : Store) (id : NodeId) (change : NodeRecord → NodeRecord) :
    (updateLive id change).after s = s.updateNode id change := by
  rw [updateLive, after_get_bind]
  cases hfound : s.liveRecordOf? id with
  | some r => rfl
  | none =>
    have hsame : s.nodes.map (fun r =>
        if r.id == StoredId.known id && r.isLive then change r else r) = s.nodes.map fun r => r :=
      List.map_congr_left fun r hr => if_neg (List.find?_eq_none.mp hfound r hr)
    rw [updateNode, hsame, List.map_id_fun', id_eq]
    rfl

theorem after_updateContent (s : Store) (now : Int) (id : NodeId) (content : String) :
    (updateContent now id content).after s = s.updateNode id fun r =>
      { r with content, contentPlain := Text.plain content, updatedAt := .integer now } := by
  refine (Reads.after_bind_of_reads (fun found => ?_) _ s).trans (after_updateLive s id _)
  cases found with
  | true => exact Reads.pure _
  | false => exact Reads.throw _

theorem after_touchNode (s : Store) (now : Int) (id : NodeId) :
    (touchNode now id).after s = s.updateNode id fun r =>
      { r with updatedAt := r.updatedAt.max (.integer now) } := by
  refine (Reads.after_bind_of_reads (fun found => ?_) _ s).trans (after_updateLive s id _)
  cases found with
  | true => exact Reads.pure _
  | false => exact Reads.throw _

theorem after_deleteNode (s : Store) (now : Int) (id : NodeId) :
    (deleteNode now id).after s = s.updateNode id fun r =>
      { r with deletedAt := .integer now, updatedAt := .integer now } := by
  refine (Reads.after_bind_of_reads (fun found => ?_) _ s).trans (after_updateLive s id _)
  cases found with
  | true => exact Reads.pure _
  | false =>
    refine (Reads.ask _).bind fun node => ?_
    cases node with
    | none => exact Reads.throw _
    | some node => exact Reads.pure _

/-- A request without fault adds its row or nothing; any other request adds nothing. -/
theorem insertNode_respects (hQ : Composes Q) (now : Int) (n : NewNode)
    (h : ∀ s : Store, n.fault? = none → conflict? s (newRecord now n) = none →
      Q s { s with nodes := s.nodes ++ [newRecord now n] }) :
    Respects (Natively Q) (insertNode now n) := by
  intro s
  unfold insertNode
  cases hf : n.fault? with
  | some fault =>
    simp only [after_throw_bind]
    exact hQ.natively.refl s
  | none =>
    refine rel_after_bind hQ.natively ?_ fun _ s' _ => ?_
    · intro hs
      rcases after_addNode hs false (newRecord now n) with hadd | ⟨hc, hadd⟩
      · rw [hadd]
        exact hQ.natively.refl s hs
      · rw [hadd]
        exact ⟨hs, h s hf hc⟩
    · refine Respects.of_reads hQ.natively ((Reads.ask _).bind fun found => ?_) s'
      cases found with
      | some node => exact Reads.pure node
      | none => exact Reads.throw _

theorem insertSystemNode_respects (hQ : Composes Q) (now : Int) (id : NodeId)
    (systemId content : String)
    (h : ∀ s : Store, (NewNode.system id systemId content).fault? = none →
      conflict? s (newRecord now (.system id systemId content)) = none →
      Q s { s with nodes := s.nodes ++ [newRecord now (.system id systemId content)] }) :
    Respects (Natively Q) (insertSystemNode now id systemId content) := by
  intro s
  unfold insertSystemNode
  cases hf : (NewNode.system id systemId content).fault? with
  | some fault =>
    simp only [hf, after_throw_bind]
    exact hQ.natively.refl s
  | none =>
    simp only [hf]
    refine rel_after_bind hQ.natively ?_ fun created s' _ => ?_
    · intro hs
      rcases after_addNode hs true (newRecord now (.system id systemId content)) with
        hadd | ⟨hc, hadd⟩
      · rw [hadd]
        exact hQ.natively.refl s hs
      · rw [hadd]
        exact ⟨hs, h s hf hc⟩
    · refine Respects.of_reads hQ.natively ((Reads.ask _).bind fun found => ?_) s'
      cases found with
      | some node => exact Reads.pure _
      | none => exact Reads.throw _

/-- An edit that changes the row of a live node respects what relates each store to the one with
this change. -/
theorem respects_of_updateNode {α : Type} {e : Edit α} {id : NodeId}
    {change : NodeRecord → NodeRecord} (he : ∀ s, e.after s = s.updateNode id change)
    (h : ∀ s : Store, Q s (s.updateNode id change)) : Respects (Natively Q) e := by
  intro s hs
  rw [he s]
  exact ⟨hs, h s⟩

theorem updateContent_respects (now : Int) (id : NodeId) (content : String)
    (h : ∀ s : Store, Q s (s.updateNode id fun r =>
      { r with content, contentPlain := Text.plain content, updatedAt := .integer now })) :
    Respects (Natively Q) (updateContent now id content) :=
  respects_of_updateNode (fun s => after_updateContent s now id content) h

theorem touchNode_respects (now : Int) (id : NodeId)
    (h : ∀ s : Store, Q s (s.updateNode id fun r =>
      { r with updatedAt := r.updatedAt.max (.integer now) })) :
    Respects (Natively Q) (touchNode now id) :=
  respects_of_updateNode (fun s => after_touchNode s now id) h

theorem deleteNode_respects (now : Int) (id : NodeId)
    (h : ∀ s : Store, Q s (s.updateNode id fun r =>
      { r with deletedAt := .integer now, updatedAt := .integer now })) :
    Respects (Natively Q) (deleteNode now id) :=
  respects_of_updateNode (fun s => after_deleteNode s now id) h

/-- Without a place a row goes to the next free one. -/
theorem insertProperty_none (now : Int) (node field : NodeId) (raw : String) :
    insertProperty now node field raw none =
      ask (·.nextOrder node field) >>= fun place =>
        insertProperty now node field raw (some place) :=
  rfl

/-- A row at a place gets the next number. -/
theorem insertProperty_some (now : Int) (node field : NodeId) (raw : String) (place : Int) :
    insertProperty now node field raw (some place) =
      ask (·.nextRowId) >>= fun number =>
        addProperty number node field (newRow now number node field raw place) >>= fun _ =>
          pure ⟨number, node, field, raw, place, now, now⟩ :=
  rfl

/-- A row is added only for a node and a field that have been inserted, under the next number. -/
theorem after_insertProperty_some {s : Store} (hs : s.foreign = none) (now : Int)
    (node field : NodeId) (raw : String) (place : Int) :
    (insertProperty now node field raw (some place)).after s = s ∨
      ∃ number, hasNode s node = true ∧ hasNode s field = true ∧ s.nextRowId = .ok number ∧
        (insertProperty now node field raw (some place)).after s =
          s.addRow number (newRow now number node field raw place) := by
  rw [insertProperty_some]
  cases hnext : s.nextRowId with
  | error err =>
    have hask : ask (·.nextRowId) s = .error err s := by rw [ask, hnext]
    exact Or.inl (after_bind_of_error hask)
  | ok number =>
    have hask : ask (·.nextRowId) s = .ok number s := by rw [ask, hnext]
    rw [after_bind_of_ok hask, after_bind_pure, addProperty, after_get_bind, hs]
    by_cases hn : hasNode s node && hasNode s field
    · have hboth := Bool.and_eq_true_iff.mp hn
      refine Or.inr ⟨number, hboth.1, hboth.2, rfl, ?_⟩
      rw [Store.addRow, hs]
      simp only [hn, if_true, after_set]
    · refine Or.inl ?_
      simp only [hn]
      rfl

theorem insertProperty_respects (hQ : Composes Q) (now : Int) (node field : NodeId) (raw : String)
    (h : ∀ (s : Store) (number place : Int), hasNode s node = true → hasNode s field = true →
      s.nextRowId = .ok number → Q s (s.addRow number (newRow now number node field raw place)))
    (order : Option Int) : Respects (Natively Q) (insertProperty now node field raw order) := by
  have hsome : ∀ place, Respects (Natively Q) (insertProperty now node field raw (some place)) := by
    intro place s hs
    rcases after_insertProperty_some hs now node field raw place with
      hadd | ⟨number, hn, hf, hnext, hadd⟩
    · rw [hadd]
      exact hQ.natively.refl s hs
    · rw [hadd]
      exact ⟨hs, h s number place hn hf hnext⟩
  cases order with
  | some place => exact hsome place
  | none =>
    rw [insertProperty_none]
    exact (Respects.of_reads hQ.natively (Reads.ask _)).bind hQ.natively hsome

theorem deleteFieldProperties_respects (node field : NodeId)
    (h : ∀ s : Store, Q s (s.removeRows node field)) :
    Respects (Natively Q) (deleteFieldProperties node field) :=
  fun s hs => ⟨hs, h s⟩

end Edit

end TagGraph
