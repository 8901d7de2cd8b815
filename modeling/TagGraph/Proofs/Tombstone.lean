import TagGraph.Proofs.Visible

/-!
# Deleted nodes

A deleted node stays in the store as a tombstone. Operations with checks never change it or its rows
again (`Store.KeepsBuried.graphLaw`), those that are addressed to it are refused
(`Store.Refuses`), and no reading shows it (`Store.Hides`). Its handle is free, and a node that
takes it over is another one.
-/

namespace TagGraph

/-! ## Edits that are refused -/

namespace Edit

variable {α β : Type} {s : Store}

/-- The edit fails on a store and leaves it as it was. -/
def IsRefused (e : Edit α) (s : Store) : Prop :=
  ∃ err, e s = .error err s

namespace IsRefused

theorem throw (err : StoreError) (s : Store) : IsRefused (throw err : Edit α) s :=
  ⟨err, rfl⟩

theorem bind {e : Edit α} (h : IsRefused e s) (f : α → Edit β) : IsRefused (e >>= f) s := by
  obtain ⟨err, herr⟩ := h
  exact ⟨err, bind_of_error herr⟩

/-- Where looking something up fails, or the rest is refused with what is found, the whole is. -/
theorem reads_bind {e : Edit α} {f : α → Edit β} (he : Reads e) (hf : ∀ a, IsRefused (f a) s) :
    IsRefused (e >>= f) s := by
  cases h : e s with
  | ok a s' =>
    obtain rfl := he.eq_of_ok h
    obtain ⟨err, herr⟩ := hf a
    exact ⟨err, (bind_of_ok h).trans herr⟩
  | error err s' =>
    have hs := he s
    rw [after_of_error h] at hs
    subst hs
    exact ⟨err, bind_of_error h⟩

theorem discard {e : Edit α} (h : IsRefused e s) : IsRefused (discard e : Edit Unit) s := by
  obtain ⟨err, herr⟩ := h
  refine ⟨err, ?_⟩
  show EStateM.map _ e s = _
  rw [EStateM.map, herr]

theorem atomically {e : Edit α} (h : IsRefused e s) : IsRefused e.atomically s := by
  obtain ⟨err, herr⟩ := h
  exact ⟨err, atomically_of_error herr⟩

end IsRefused

/-- A refused edit leaves the store. -/
theorem IsRefused.after_eq {e : Edit α} (h : IsRefused e s) : e.after s = s := by
  obtain ⟨err, herr⟩ := h
  exact after_of_error herr

end Edit

/-! ## Tombstones -/

namespace Store

variable {s s' : Store} {id : NodeId}

/-- The stored rows of the fields of a node. -/
def rowsAt (s : Store) (id : NodeId) : List PropertyRecord :=
  s.properties.filter (·.nodeId == .known id)

/-- The node with the identifier is a tombstone. -/
def IsBuried (s : Store) (id : NodeId) : Prop :=
  ∃ r, s.recordOf? id = some r ∧ r.isLive = false

/-- If a node is a tombstone, it is the same one later on, and its rows are the same. -/
def KeepsBuried (id : NodeId) (s s' : Store) : Prop :=
  s.Sound → s.IsBuried id →
    s'.Sound ∧ s'.recordOf? id = s.recordOf? id ∧ s'.rowsAt id = s.rowsAt id

theorem IsBuried.of_eq (h : s.IsBuried id) (heq : s'.recordOf? id = s.recordOf? id) :
    s'.IsBuried id := by
  unfold IsBuried
  rwa [heq]

namespace Sound

theorem not_isLive_of_isBuried (hs : s.Sound) (h : s.IsBuried id) : ¬ s.IsLive id := by
  intro hlive
  obtain ⟨r, hr, hdead⟩ := h
  obtain ⟨handle, m, hm, hmlive, hid, -⟩ := hs.isLive_iff.mp hlive
  have hrid := List.find?_some (show s.nodes.find? (·.id == StoredId.known id) = some r from hr)
  obtain rfl := hs.record_unique hm (List.mem_of_find?_eq_some hr)
    (hid.trans (beq_iff_eq.mp hrid).symm)
  cases hmlive.symm.trans hdead

theorem node?_of_isBuried (hs : s.Sound) (h : s.IsBuried id) : s.node? id = .ok none := by
  obtain ⟨found, hfound⟩ := hs.node?_succeeds id
  cases found with
  | none => exact hfound
  | some n => exact absurd ⟨n, hfound⟩ (hs.not_isLive_of_isBuried h)

end Sound

/-! ## Changes elsewhere -/

namespace KeepsBuried

theorem composes (id : NodeId) : Composes (KeepsBuried id) where
  refl _ hs _ := ⟨hs, rfl, rfl⟩
  trans hab hbc hs hburied := by
    obtain ⟨hb, hrecord, hrows⟩ := hab hs hburied
    obtain ⟨hc, hrecord', hrows'⟩ := hbc hb (hburied.of_eq hrecord)
    exact ⟨hc, hrecord'.trans hrecord, hrows'.trans hrows⟩

theorem addNode (id : NodeId) (now : Int) (n : NewNode) (hvalid : n.fault? = none)
    (hfree : Edit.conflict? s (Edit.newRecord now n) = none) :
    KeepsBuried id s { s with nodes := s.nodes ++ [Edit.newRecord now n] } := by
  intro hs hburied
  refine ⟨hs.addNode (Edit.newRecord_sound now hvalid) hfree, ?_, rfl⟩
  obtain ⟨r, hr, -⟩ := hburied
  have hfound : s.nodes.find? (·.id == StoredId.known id) = some r := hr
  rw [recordOf?, recordOf?, List.find?_append, hfound, Option.some_or]

/-- Only live nodes are amended. -/
theorem updateNode (id node : NodeId) {change : NodeRecord → NodeRecord}
    (hchange : NodeRecord.Amends change) : KeepsBuried id s (s.updateNode node change) := by
  intro hs hburied
  refine ⟨hs.updateNode hchange node, ?_, rfl⟩
  obtain ⟨r, hr, hdead⟩ := hburied
  have hsame : ∀ r : NodeRecord, (if r.id == StoredId.known node && r.isLive then change r
      else r).id = r.id := fun r => (amended_ite hchange _ r).id
  rw [recordOf?, Store.updateNode, List.find?_map]
  simp only [Function.comp_def, hsame]
  rw [← recordOf?, hr, Option.map_some, hdead, Bool.and_false]
  rfl

theorem rowLaw (id : NodeId) :
    RowLaw (Natively (KeepsBuried id)) (fun node _ => node ≠ id) fun _ => True where
  toComposes := (composes id).natively
  touchNode now {node} _ := Edit.touchNode_respects now node fun _ =>
    updateNode id node (NodeRecord.touch_amends now)
  insertProperty now node field hne raw _ order := by
    refine Edit.insertProperty_respects (composes id) now node field raw
      (fun s number place hn hf hnext hs _ => ⟨hs.addRow now raw place hn hf hnext, rfl, ?_⟩) order
    have hother : (newRow now number node field raw place).nodeId ≠ .known id :=
      fun heq => hne (StoredId.known.inj heq)
    rw [rowsAt, Store.addRow, List.filter_append, List.filter_cons_of_neg (by simpa using hother),
      List.filter_nil, List.append_nil, rowsAt]
  deleteFieldProperties {node field} hne := by
    refine Edit.deleteFieldProperties_respects node field fun s hs _ =>
      ⟨hs.removeRows node field, rfl, ?_⟩
    rw [rowsAt, Store.removeRows, List.filter_filter, rowsAt]
    refine List.filter_congr fun r _ => ?_
    by_cases hat : r.nodeId = .known id
    · have hnode : (r.nodeId == StoredId.known node) = false := by
        rw [hat, beq_eq_false_iff_ne]
        exact fun heq => hne (StoredId.known.inj heq).symm
      rw [hnode, Bool.false_and, Bool.not_false, Bool.and_true]
    · rw [beq_eq_false_iff_ne.mpr hat, Bool.false_and]

end KeepsBuried

end Store

/-! ## What the edits of the tables do to a tombstone -/

namespace Edit

open Store

variable {s : Store} {id : NodeId}

theorem addNode_isRefused (hs : s.Sound) {r : NodeRecord} (h : conflict? s r ≠ none) :
    IsRefused (addNode false r) s := by
  obtain ⟨cause, hcause⟩ := Option.ne_none_iff_exists'.mp h
  refine ⟨.conflict cause, ?_⟩
  rw [addNode, get_bind, hs.native]
  simp only [hcause]
  rfl

/-- An identifier is given out once. -/
theorem insertNode_isRefused (hs : s.Sound) (now : Int) {n : NewNode} {r : NodeRecord}
    (h : s.recordOf? n.id = some r) : IsRefused (insertNode now n) s := by
  unfold insertNode
  cases n.fault? with
  | some fault => exact .bind (.throw _ s) _
  | none =>
    refine .bind (addNode_isRefused hs fun hfree => ?_) _
    have hid := List.find?_some (show s.nodes.find? (·.id == StoredId.known n.id) = some r from h)
    exact not_mem_ids_of_free hfree
      (List.mem_map.mpr ⟨r, List.mem_of_find?_eq_some h, beq_iff_eq.mp hid⟩)

theorem createNode_isRefused (hs : s.Sound) (now : Int) {n : NewNode} {r : NodeRecord}
    (h : s.recordOf? n.id = some r) : IsRefused (createNode now n) s := by
  have hinsert : ∀ rows, IsRefused (do
      return (← insertNodeWithProperties now n rows).id : Edit NodeId) s :=
    fun rows => ((insertNode_isRefused hs now h).bind _).atomically.bind _
  unfold createNode
  by_cases hn : n.supertags.isEmpty
  · simp only [hn, if_true]
    exact .reads_bind (Reads.pure []) hinsert
  · simp only [hn]
    refine .reads_bind (requireField_reads _) fun field => ?_
    refine .reads_bind (requireSupertags_reads _) fun supertags => ?_
    exact .reads_bind (supertagRows_reads field.id supertags) hinsert

theorem requireLive_isRefused (h : s.node? id = .ok none) : IsRefused (requireLive id) s := by
  refine ⟨.nodeNotFound id, ?_⟩
  unfold requireLive
  rw [bind_of_ok (ask_of_ok (·.node? id) h)]
  rfl

/-- Nothing is changed of a node that is not live. -/
theorem updateLive_of_not_isLive (hs : s.Sound) (h : ¬ s.IsLive id)
    (change : NodeRecord → NodeRecord) : updateLive id change s = .ok false s := by
  have hnone : s.liveRecordOf? id = none := by
    refine List.find?_eq_none.mpr fun r hr hlive => h (hs.isLive_iff.mpr ?_)
    rw [Bool.and_eq_true, beq_iff_eq] at hlive
    exact ⟨r.systemId, r, hr, hlive.2, hlive.1, rfl⟩
  rw [updateLive, get_bind, hnone]
  rfl

theorem updateContent_isRefused (hs : s.Sound) (now : Int) (h : ¬ s.IsLive id)
    (content : String) : IsRefused (updateContent now id content) s := by
  refine ⟨.nodeNotFound id, ?_⟩
  unfold updateContent
  rw [bind_of_ok (updateLive_of_not_isLive hs h _)]
  rfl

/-- A tombstone is left as it is. -/
theorem deleteNode_of_isBuried (hs : s.Sound) (now : Int) (h : s.IsBuried id) :
    deleteNode now id s = .ok () s := by
  have hdead := hs.not_isLive_of_isBuried h
  obtain ⟨r, hr, -⟩ := h
  obtain ⟨n, rfl⟩ := hs.record_of_mem (List.mem_of_find?_eq_some hr)
  have hfound : s.nodeOrTombstone? id = .ok (some n) := by
    rw [nodeOrTombstone?, hr, readRecord?, Node.read_record]
    rfl
  unfold deleteNode
  rw [bind_of_ok (updateLive_of_not_isLive hs hdead _)]
  show (ask (·.nodeOrTombstone? id) >>= fun _ => _) s = _
  rw [bind_of_ok (ask_of_ok (·.nodeOrTombstone? id) hfound)]
  rfl

end Edit

/-! ## Edits that are addressed to a tombstone -/

/-- The node to which an edit of the graph is addressed. -/
def GraphEdit.target : GraphEdit → NodeId
  | .createNode n => n.id
  | .updateContent id _ | .deleteNode id | .setProperty id .. | .setPropertyValues id ..
  | .removeProperty id _ | .addSupertag id _ | .attachSupertag id _ | .setSupertags id _ => id

/-- The node to which an edit of a saved query is addressed. -/
def QueryEdit.target : QueryEdit → NodeId
  | .save id _ | .run id _ | .dropCache id => id

namespace Store

variable {s : Store} {id : NodeId}

/-- Every edit that is addressed to a node, but its deletion, fails and changes nothing. -/
structure Refuses (s : Store) (id : NodeId) : Prop where
  graph : ∀ now (e : GraphEdit), e.target = id → e ≠ .deleteNode id → (e.edit now).IsRefused s
  query : ∀ now (e : QueryEdit), e.target = id → (e.edit now).IsRefused s

/-- Edits that are addressed to a tombstone are refused. -/
theorem Sound.refuses_of_isBuried (hs : s.Sound) (h : s.IsBuried id) : s.Refuses id := by
  have hdead := hs.not_isLive_of_isBuried h
  have hlive := Edit.requireLive_isRefused (hs.node?_of_isBuried h)
  have hset : ∀ now field value order,
      (Edit.setProperty now id field value order).IsRefused s := fun _ _ _ _ => hlive.bind _
  have hsetAll : ∀ now field values,
      (Edit.setPropertyValues now id field values).IsRefused s := fun _ _ _ => hlive.bind _
  have hremove : ∀ now field, (Edit.removeProperty now id field).IsRefused s :=
    fun _ _ => hlive.bind _
  have hattach : ∀ now tag, (Edit.attachSupertag now id tag).IsRefused s := fun _ _ => hlive.bind _
  have hanswer : ∀ now, (Edit.ask (·.evaluateSaved now id)).IsRefused s := by
    intro now
    have hsaved : s.evaluateSaved now id = .error (.nodeNotFound id) := by
      unfold evaluateSaved
      rw [hs.node?_of_isBuried h]
      rfl
    exact ⟨.nodeNotFound id, by rw [Edit.ask, hsaved]⟩
  constructor
  · rintro now e rfl hne
    cases e with
    | createNode n =>
      obtain ⟨r, hr, -⟩ := h
      exact (Edit.createNode_isRefused hs now hr).discard
    | updateContent _ content => exact Edit.updateContent_isRefused hs now hdead content
    | deleteNode _ => exact absurd rfl hne
    | setProperty _ field value order => exact hset now field value order
    | setPropertyValues _ field values => exact hsetAll now field values
    | removeProperty _ field => exact (hremove now field).discard
    | addSupertag _ supertag =>
      exact (Edit.IsRefused.reads_bind (Edit.requireSupertag_reads supertag) fun tag =>
        hattach now tag.id).discard
    | attachSupertag _ supertag => exact (hattach now supertag).discard
    | setSupertags _ supertags =>
      exact Edit.IsRefused.reads_bind (Edit.requireSupertags_reads supertags) fun ids =>
        hsetAll now _ (ids.map .node)
  · rintro now e rfl
    cases e with
    | save _ d =>
      show (Edit.saveQuery now _ d).IsRefused s
      unfold Edit.saveQuery
      cases d.fault? with
      | some fault => exact (Edit.IsRefused.throw _ s).bind _
      | none => exact (hset now _ _ none).bind _
    | run _ refresh => exact ((hanswer now).bind _).discard
    | dropCache _ => exact (hremove now _).bind _

/-! ## Runs -/

/-- Operations with checks never change a tombstone or its rows. -/
theorem KeepsBuried.graphLaw (id : NodeId) : GraphLaw (Natively (KeepsBuried id)) where
  toComposes := (composes id).natively
  editsField {α e s node field values} he := by
    intro hnative
    refine ⟨(he.rel TableLaw.changes.toCreationLaw hnative).1, fun hs hburied => ?_⟩
    rcases he with hsame | ⟨fieldNode, hadmits, hrows⟩
    · rw [hsame]
      exact ⟨hs, rfl, rfl⟩
    · -- The checks have found the node live, so it is another one.
      have hne : node ≠ id := by
        rintro rfl
        exact hs.not_isLive_of_isBuried hburied hadmits.live
      have hlaw : RowLaw (Natively (KeepsBuried id)) (fun n f => n = node ∧ f = fieldNode.id)
          (PropertyValue.MayWrite values) :=
        (rowLaw id).mono (fun _ _ h => h.1 ▸ hne) fun _ _ => trivial
      exact (hrows _ hlaw hnative).2 hs hburied
  createNode now n := by
    intro s hnative
    refine ⟨(TableLaw.changes.graph.createNode now n s hnative).1, fun hs hburied => ?_⟩
    by_cases hid : n.id = id
    · obtain ⟨r, hr, -⟩ := hburied
      rw [(Edit.createNode_isRefused hs now (hid ▸ hr)).after_eq]
      exact ⟨hs, rfl, rfl⟩
    · have hinsert : Edit.Respects (Natively (KeepsBuried id)) (Edit.insertNode now n) :=
        Edit.insertNode_respects (composes id) now n fun _ => addNode id now n
      exact (Edit.createNode_respects (rowLaw id) now n hinsert (fun _ _ => ⟨hid, trivial⟩) s
        hnative).2 hs hburied
  insertSystemNode now _ _ _ :=
    Edit.insertSystemNode_respects (composes id) now _ _ _ fun _ => addNode id now _
  updateContent now node content := Edit.updateContent_respects now node content
    fun _ => updateNode id node (NodeRecord.setContent_amends now content)
  deleteNode now node := Edit.deleteNode_respects now node fun _ =>
    updateNode id node (NodeRecord.bury_amends now)

/-- What a live node becomes when it is deleted: the same but for the times of its last change and
its deletion. -/
def tombstone (now : Int) (n : Node) : NodeRecord :=
  { n.record with deletedAt := .integer now, updatedAt := .integer now }

/-- The store in which a live node has become a tombstone, and nothing else has changed. -/
def buried (s : Store) (now : Int) (n : Node) : Store :=
  { s with
    nodes := s.nodes.map fun r => if r.id = .known n.id then tombstone now n else r }

theorem Sound.deleteNode_eq (hs : s.Sound) {n : Node} (h : s.node? n.id = .ok (some n))
    (now : Int) : Edit.deleteNode now n.id s = .ok () (s.buried now n) := by
  obtain ⟨hrecord, hactive⟩ := hs.mem_liveNodes.mp (hs.node?_eq_some_iff.mp h).1
  have hlive : n.record.isLive = true := by rw [Node.isLive_record, hactive]
  have hsome : (s.liveRecordOf? n.id).isSome = true :=
    List.find?_isSome.mpr ⟨n.record, hrecord, by
      rw [hlive, Bool.and_true]
      exact beq_self_eq_true (StoredId.known n.id)⟩
  have hnodes : s.buried now n = s.updateNode n.id fun r =>
      { r with deletedAt := .integer now, updatedAt := .integer now } := by
    unfold buried Store.updateNode
    congr 1
    refine List.map_congr_left fun r hr => ?_
    by_cases hid : r.id = .known n.id
    · obtain rfl := hs.record_unique hr hrecord hid
      simp [hlive, hid, tombstone]
    · simp [hid]
  have hupdate : Edit.updateLive n.id (fun r =>
      { r with deletedAt := .integer now, updatedAt := .integer now }) s =
        .ok true (s.buried now n) := by
    rw [Edit.updateLive, Edit.get_bind, hsome, hnodes]
    rfl
  unfold Edit.deleteNode
  rw [Edit.bind_of_ok hupdate]
  rfl

theorem Sound.recordOf?_buried (hs : s.Sound) {n : Node} (h : s.node? n.id = .ok (some n))
    (now : Int) : (s.buried now n).recordOf? n.id = some (tombstone now n) := by
  have hrecord := (hs.mem_liveNodes.mp (hs.node?_eq_some_iff.mp h).1).1
  have hfound : s.recordOf? n.id = some n.record := by
    rcases hs.find?_nodes (·.id == .known n.id) with hnone | ⟨m, hsome⟩
    · exact absurd (beq_self_eq_true (StoredId.known n.id))
        (List.find?_eq_none.mp hnone n.record hrecord)
    · have hid := List.find?_some hsome
      rw [recordOf?, hsome, hs.record_unique (List.mem_of_find?_eq_some hsome) hrecord
        (beq_iff_eq.mp hid)]
  have hsame : ∀ r : NodeRecord,
      (if r.id = .known n.id then tombstone now n else r).id = r.id := by
    intro r
    by_cases hid : r.id = .known n.id
    · rw [if_pos hid, hid]
      rfl
    · rw [if_neg hid]
  rw [recordOf?, buried, List.find?_map]
  simp only [Function.comp_def, hsame]
  rw [← recordOf?, hfound, Option.map_some]
  exact congrArg some (if_pos rfl)

/-- A live node of a store that any run has left is deleted for good. Its deletion changes no other
node and no row; whatever operations with checks come afterwards, it stays the tombstone that it has
become, with the same rows, further deletions do nothing, all other edits that are addressed to it
are refused, and no reading shows it. -/
theorem deleteNode_final (before later : List Step) (now : Int) (n : Node)
    (hlive : (Store.empty.run before).node? n.id = .ok (some n))
    (hlater : ∀ step ∈ later, step.operation.isChecked = true) :
    let s := Store.empty.run before
    let final := (s.buried now n).run later
    Edit.deleteNode now n.id s = .ok () (s.buried now n) ∧
    final.recordOf? n.id = some (tombstone now n) ∧ final.rowsAt n.id = s.rowsAt n.id ∧
    (∀ time, Edit.deleteNode time n.id final = .ok () final) ∧
    final.Refuses n.id ∧ final.Hides n.id := by
  intro s final
  have hs : s.Sound := empty_sound.run before
  have hdelete := hs.deleteNode_eq hlive now
  have hs' : (s.buried now n).Sound := by
    rw [← Edit.after_of_ok hdelete]
    exact hs.after (TableLaw.changes.deleteNode now n.id)
  have hrecord := hs.recordOf?_buried hlive now
  have hburied : (s.buried now n).IsBuried n.id := ⟨_, hrecord, rfl⟩
  obtain ⟨hfinal, hrecord', hrows⟩ :=
    ((KeepsBuried.graphLaw n.id).run (s.buried now n) hlater hs'.native).2 hs' hburied
  have hburied' := hburied.of_eq hrecord'
  exact ⟨hdelete, hrecord'.trans hrecord, hrows, fun time =>
    Edit.deleteNode_of_isBuried hfinal time hburied', hfinal.refuses_of_isBuried hburied',
    hfinal.hides_of_not_isLive (hfinal.not_isLive_of_isBuried hburied')⟩

/-- The handle of a deleted node is given to another node, and its identifier to none. -/
theorem deleteNode_final_reused :
    let id : NodeId := ⟨1, by decide⟩
    let n : Node := ⟨id, "milk", "milk", some "shop:milk", none, 5, 5, none⟩
    let create (id : NodeId) : Operation := .graph (.createNode ⟨id, "milk", n.systemId, none, []⟩)
    let s := Store.empty.run [⟨5, create id⟩]
    let final := (s.buried 6 n).run [⟨7, create id⟩, ⟨8, create ⟨2, by decide⟩⟩]
    s.node? id = .ok (some n) ∧ final.recordOf? id = some (tombstone 6 n) ∧ final.Hides id := by
  intro id n create s final
  have hrow : s.liveRecordOf? n.id = some n.record := by decide +kernel
  have hlive : s.node? n.id = .ok (some n) := by
    rw [node?, hrow, readRecord?, Node.read_record]
    rfl
  obtain ⟨-, hrecord, -, -, -, hhides⟩ :=
    deleteNode_final [⟨5, create id⟩] [⟨7, create id⟩, ⟨8, create ⟨2, by decide⟩⟩] 6 n hlive
      (by decide)
  exact ⟨hlive, hrecord, hhides⟩

end Store

end TagGraph
