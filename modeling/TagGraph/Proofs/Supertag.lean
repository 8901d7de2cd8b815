import TagGraph.Proofs.Field.Appending
import TagGraph.Proofs.Field.Creation
import TagGraph.Proofs.Tagged

/-!
# The order of supertags

A node is created with its supertags in the order of the request, each once, and further ones are
assigned behind them (`Edit.Assigned`). So the rows of `field:supertag` hold the supertags in the
order in which they have first been asked for, and the node is assembled with the live ones among
them in that order (`Store.assignTags_run`).
-/

namespace TagGraph

open Reading

theorem eraseDups_of_nodup {ids : List NodeId} (h : ids.Nodup) : ids.eraseDups = ids := by
  induction ids using List.reverseRecOn with
  | nil => rfl
  | append_singleton ids id ih =>
    obtain ⟨hinit, -, hnew⟩ := List.nodup_append.mp h
    rw [eraseDups_concat, if_neg fun hmem => hnew id hmem id (List.mem_singleton_self id) rfl,
      ih hinit]

theorem PropertyValue.flatMap_referencedIn_nodeText (ids : List NodeId) :
    (ids.map nodeText).flatMap referencedIn = ids := by
  induction ids with
  | nil => rfl
  | cons id rest ih =>
    rw [List.map_cons, List.flatMap_cons, ih, referencedIn, decode?_nodeText]
    rfl

namespace Store

variable {s : Store}

/-! ## The supertags that a node is assembled with -/

/-- A row assigns the live nodes that it refers to if it is one of `field:supertag`. -/
theorem Sound.ids_supertags_heldValue? (hs : s.Sound) {field : NodeId}
    (hfield : s.Holds (.known field) (some Handle.fieldSupertag)) (row : Property) :
    ((s.heldValue? row).toList.flatMap (·.supertags)).map (·.id) =
      if row.fieldId == field then (PropertyValue.referencedIn row.value).filter (s.IsLive ·)
      else [] := by
  have hmeant : (row.fieldId == field) =
      (found? (s.fieldInfo? row.fieldId)).any (·.isSupertag) := by
    rw [Bool.eq_iff_iff, beq_iff_eq, hs.isSupertag_iff]
    exact ⟨fun h => h ▸ hfield, fun h => StoredId.known.inj (hs.holds_unique h hfield)⟩
  rw [hmeant]
  unfold heldValue? PropertyValue.referencedIn
  cases found? (s.fieldInfo? row.fieldId) with
  | none => rfl
  | some info =>
    cases PropertyValue.decode? row.value with
    | none => simp
    | some value => cases h : info.isSupertag <;> simp [h, ← hs.ids_liveTags]

/-- A node is assembled with the live nodes that its rows of `field:supertag` refer to, in the order
of the rows. -/
theorem Sound.ids_supertags_joined (hs : s.Sound) {field : NodeId}
    (hfield : s.Holds (.known field) (some Handle.fieldSupertag)) (n : Node) :
    (s.joined n).supertags.map (·.id) =
      (((s.texts n.id field).flatMap PropertyValue.referencedIn).filter
        (s.IsLive ·)).eraseDups := by
  show (distinctTags _).map (·.id) = _
  rw [ids_distinctTags, List.flatMap_assoc, List.map_flatMap, ← hs.fieldRowsOf_values,
    ← hs.rowsOf_filter]
  simp only [hs.ids_supertags_heldValue? hfield]
  generalize s.rowsOf n.id = rows
  congr 1
  induction rows with
  | nil => rfl
  | cons row rest ih =>
    rw [List.flatMap_cons, ih, List.filter_cons]
    by_cases hat : (row.fieldId == field) = true
    · rw [if_pos hat, if_pos hat, List.map_cons, List.flatMap_cons, List.filter_append]
    · rw [if_neg hat, if_neg hat, List.nil_append]

end Store

namespace Edit

open Store

variable {s t u : Store} {now : Int} {n : NewNode} {field id : NodeId} {tags more : List NodeId}

/-! ## A new node with its supertags -/

/-- What the creation of a node and the assignment of supertags to it leave: one node more, and one
row for each of its supertags, in their order. -/
structure Assigned (s t : Store) (now : Int) (n : NewNode) (field : NodeId) (tags : List NodeId) :
    Prop where
  named : s.Holds (.known field) (some Handle.fieldSupertag)
  new : StoredId.known n.id ∉ s.nodes.map (·.id)
  rows : t.TakesRows n.id field
  nodes : ∃ time, t.nodes = s.nodes ++ [{ newRecord now n with updatedAt := time }]
  added : s.Appended t n.id field 0 tags
  texts : t.texts n.id field = tags.map PropertyValue.nodeText
  place : t.nextPlace n.id field = tags.length
  count : t.lastRowId = s.lastRowId + tags.length

namespace Assigned

variable (h : Assigned s t now n field tags)
include h

/-- The live nodes are those of before and the new one. -/
theorem holds_iff {id : StoredId} {handle : Option String} :
    t.Holds id handle ↔ s.Holds id handle ∨ StoredId.known n.id = id ∧ n.systemId = handle := by
  obtain ⟨time, hnodes⟩ := h.nodes
  unfold Holds
  rw [hnodes]
  exact holds_addNode (r := { newRecord now n with updatedAt := time }) rfl

theorem live : t.IsLive n.id :=
  h.rows.sound.isLive_iff.mpr ⟨n.systemId, h.holds_iff.mpr (Or.inr ⟨rfl, rfl⟩)⟩

theorem held : t.Holds (.known field) (some Handle.fieldSupertag) :=
  h.holds_iff.mpr (Or.inl h.named)

/-- The rows of the node never run out of places before the store runs out of numbers. -/
theorem room_iff (hs : s.Counted) : 0 < t.room (t.nextPlace n.id field) ↔ t.HasNumbers 1 := by
  rw [room_pos_iff, and_iff_right]
  have hcount := h.count
  have hnonneg := hs.nonneg
  have hfits := h.rows.counted.fits
  rw [h.place]
  simp only [fitsLong, Bool.and_eq_true, decide_eq_true_eq]
  omega

/-- The rows of the node refer to its supertags. -/
theorem refersTo_iff {id : NodeId} :
    (∃ raw ∈ t.texts n.id field, RefersTo raw id) ↔ id ∈ tags := by
  rw [h.texts]
  constructor
  · rintro ⟨raw, hraw, value, hvalue, hid⟩
    obtain ⟨tag, htag, rfl⟩ := List.mem_map.mp hraw
    obtain rfl := Option.some.inj ((PropertyValue.decode?_nodeText tag).symm.trans hvalue)
    rwa [List.mem_singleton.mp hid]
  · intro hid
    exact ⟨_, List.mem_map_of_mem hid, refersTo_of_encode? (PropertyValue.encode?_node id)⟩

/-- A supertag that the node has is not assigned again. -/
theorem attach_known (hid : id ∈ tags) (later : Int) :
    attachSupertag later n.id id t = .ok false t := by
  obtain ⟨fieldNode, hfound, rfl, -⟩ := h.rows.sound.findLive?_of_holds isName_fieldSupertag h.held
  exact attachSupertag_idle h.rows.sound later h.live hfound (h.refersTo_iff.mpr hid)

/-- A supertag that is new to the node is assigned in a row behind the others. -/
theorem attach_new (hid : id ∉ tags) (later : Int) :
    attachSupertag later n.id id t =
      (insertProperty later n.id field (PropertyValue.nodeText id) none >>= fun _ =>
        touchNode later n.id >>= fun _ => pure true) t := by
  obtain ⟨found, hn⟩ := h.live
  obtain ⟨fieldNode, hfound, rfl, -⟩ := h.rows.sound.findLive?_of_holds isName_fieldSupertag h.held
  obtain ⟨rows, hrows, hvalues⟩ := h.rows.sound.exists_fieldRows n.id fieldNode.id
  have hnot : ¬ refersTo rows id = true := by
    rw [Edit.refersTo_iff hvalues, h.refersTo_iff]
    exact hid
  unfold attachSupertag
  rw [bind_of_ok (requireLive_of hn), bind_of_ok (requireField_of hfound),
    bind_of_ok (ask_of_ok (·.fieldPropertiesOf n.id fieldNode.id) hrows), if_neg hnot,
    bind_of_ok (encode_of (PropertyValue.encode?_node id))]

/-- A change of the node itself leaves its supertags. -/
theorem touch (later : Int) : Assigned s (t.updateNode n.id fun r =>
    { r with updatedAt := r.updatedAt.max (.integer later) }) now n field tags := by
  obtain ⟨time, hnodes⟩ := h.nodes
  have hold : ∀ r ∈ s.nodes, ¬ (r.id == StoredId.known n.id && r.isLive) = true := by
    intro r hr hmeant
    exact h.new (List.mem_map.mpr ⟨r, hr, beq_iff_eq.mp (Bool.and_eq_true_iff.mp hmeant).1⟩)
  have hnew : (StoredId.known n.id == StoredId.known n.id && true) = true := by simp
  have htouched : (t.updateNode n.id fun r =>
      { r with updatedAt := r.updatedAt.max (.integer later) }).nodes =
        s.nodes ++ [{ newRecord now n with updatedAt := time.max (.integer later) }] := by
    rw [Store.updateNode, hnodes, List.map_append, List.map_singleton]
    refine congrArg₂ _ ?_ (congrArg (fun r => [r]) (if_pos hnew))
    exact (List.map_congr_left fun r hr => if_neg (hold r hr)).trans (List.map_id' _)
  obtain ⟨r, hr, -, hid, -⟩ := h.named
  refine ⟨h.named, h.new, ⟨?_, ⟨h.rows.counted.nonneg, h.rows.counted.fits⟩, ?_, ?_⟩,
    ⟨_, htouched⟩, h.added, h.texts, h.place, h.count⟩
  · exact h.rows.sound.updateNode (NodeRecord.touch_amends later) n.id
  · rw [Sound.hasNode_iff, htouched]
    exact ⟨_, List.mem_append_right _ (List.mem_singleton_self _), rfl⟩
  · rw [Sound.hasNode_iff, htouched]
    exact ⟨r, List.mem_append_left _ hr, hid⟩

/-- Rows behind those of the supertags assign further ones. -/
theorem extend (hextended : t.Extended u n.id field more) (hnodes : u.nodes = t.nodes)
    (happended : t.Appended u n.id field tags.length more) :
    Assigned s u now n field (tags ++ more) where
  named := h.named
  new := h.new
  rows := hextended.rows
  nodes := by rw [hnodes]; exact h.nodes
  added := h.added.trans (by rwa [Int.zero_add])
  texts := by rw [hextended.texts, h.texts, List.map_append]
  place := by rw [hextended.place, h.place, List.length_append, Int.natCast_add]
  count := by rw [hextended.count, h.count, List.length_append, Int.natCast_add, Int.add_assoc]

/-- While there are numbers, a supertag that is new to the node is assigned. -/
theorem attach_succeeds (hs : s.Counted) (hid : id ∉ tags) (hnumbers : t.HasNumbers 1)
    (later : Int) : ∃ u, attachSupertag later n.id id t = .ok true u ∧
      Assigned s u now n field (tags ++ [id]) := by
  have hroom := (h.room_iff hs).mpr hnumbers
  obtain ⟨p, hadd⟩ := insertProperty_of_room h.rows later (PropertyValue.nodeText id) none hroom
  have happended := addReference_appended t later n.id field id (room_pos_iff.mp hroom).1
  have hassigned := h.extend (h.rows.extended_addReference later id hroom) rfl
    (h.place ▸ happended)
  refine ⟨_, ?_, hassigned.touch later⟩
  rw [h.attach_new hid later, bind_of_ok hadd]
  exact bind_of_ok (touchNode_of hassigned.live later)

/-- When all numbers have been given out, no supertag is assigned. -/
theorem attach_fails (hs : s.Counted) (hid : id ∉ tags) (hnumbers : ¬ t.HasNumbers 1)
    (later : Int) : ∃ err, attachSupertag later n.id id t = .error err t := by
  have hroom := Nat.eq_zero_of_not_pos (mt (h.room_iff hs).mp hnumbers)
  obtain ⟨err, hadd⟩ := insertProperty_of_no_room h.rows later (PropertyValue.nodeText id)
    fitsLong_of_none hroom
  exact ⟨err, (h.attach_new hid later).trans (bind_of_error hadd)⟩

end Assigned

/-! ## The creation of a node -/

theorem unseen_nil_eq (tags : List NodeId) : unseen [] tags = tags.eraseDups := by
  rw [unseen_eq, List.filter_eq_self.mpr fun tag _ => decide_eq_true List.not_mem_nil]

/-- The rows of a new node are added like further references. -/
theorem forIn_rows_eq (now : Int) (node field : NodeId) : ∀ (references : List NodeId) (s : Store),
    (forIn (references.map fun reference => (field, PropertyValue.nodeText reference)) PUnit.unit
      fun row _ => do
        let _ ← insertProperty now node row.1 row.2 none
        pure (ForInStep.yield PUnit.unit) : Edit PUnit) s =
      appendReferences now node field none references s
  | [], _ => rfl
  | reference :: rest, s => by
    rw [List.map_cons, List.forIn_cons, appendReferences_cons]
    cases hadd : insertProperty now node field (PropertyValue.nodeText reference) none s with
    | error err t => rw [bind_assoc, bind_of_error hadd, bind_of_error hadd]
    | ok p t =>
      rw [bind_assoc, bind_of_ok hadd, bind_of_ok hadd]
      exact forIn_rows_eq now node field rest t

theorem supertagRows_eq (field : NodeId) (tags : List NodeId) (s : Store) :
    supertagRows field tags s =
      .ok (tags.eraseDups.map fun tag => (field, PropertyValue.nodeText tag)) s := by
  refine Reads.mapM_of ?_
  rw [unseen_nil_eq, List.forall₂_map_right_iff, List.forall₂_same]
  intro tag _
  rw [bind_of_ok (encode_of (PropertyValue.encode?_node tag))]
  rfl

/-- A node whose supertags are live is inserted together with their rows. -/
theorem createNode_eq (hs : s.Sound) (hfield : s.Holds (.known field) (some Handle.fieldSupertag))
    (hnamed : NamesLive s n.supertags tags) (now : Int) :
    createNode now n s = (do
      return (← insertNodeWithProperties now n (tags.eraseDups.map fun tag =>
        (field, PropertyValue.nodeText tag))).id : Edit NodeId) s := by
  unfold createNode
  by_cases hnone : n.supertags.isEmpty = true
  · have htags : tags = [] := by
      rw [NamesLive, List.isEmpty_iff.mp hnone] at hnamed
      exact List.forall₂_nil_left_iff.mp hnamed
    rw [if_pos hnone, htags]
    rfl
  · obtain ⟨fieldNode, hfound, rfl, -⟩ := hs.findLive?_of_holds isName_fieldSupertag hfield
    rw [if_neg hnone]
    exact (bind_of_ok (requireField_of hfound)).trans
      ((bind_of_ok (requireSupertags_of hnamed)).trans
        (bind_of_ok (supertagRows_eq fieldNode.id tags s)))

/-- A new node without rows has no supertags yet. -/
theorem assigned_insertNode (hs : s.Sound) (hc : s.Counted)
    (hfield : s.Holds (.known field) (some Handle.fieldSupertag)) {node : Node}
    (h : insertNode now n s = .ok node t) :
    Assigned s t now n field [] ∧ t.nodes = s.nodes ++ [newRecord now n] := by
  have ht := hs.after (TableLaw.changes.insertNode now n)
  rw [after_of_ok h] at ht
  obtain ⟨hfree, hinserted⟩ := insertNode_ok hs.native h
  have hnodes : t.nodes = s.nodes ++ [newRecord now n] := by rw [hinserted]
  have hproperties : t.properties = s.properties := by rw [hinserted]
  have hcount : t.lastRowId = s.lastRowId := by rw [hinserted]
  have hnew := not_mem_ids_of_free hfree
  have htexts : t.texts n.id field = [] := by
    rw [← hs.texts_of_new hnew field, texts, texts, fieldRecords, fieldRecords, hproperties]
  have hrows : t.fieldRowsOf n.id field = [] := by
    rw [← ht.fieldRowsOf_values] at htexts
    exact List.map_eq_nil_iff.mp htexts
  have hfieldrow := hfield
  obtain ⟨r, hr, -, hid, -⟩ := hfieldrow
  refine ⟨⟨hfield, hnew, ⟨ht, ?_, ?_, ?_⟩, ⟨_, hnodes⟩, ?_, htexts, ?_, ?_⟩, hnodes⟩
  · exact ⟨hcount ▸ hc.nonneg, hcount ▸ hc.fits⟩
  · rw [Sound.hasNode_iff, hnodes]
    exact ⟨_, List.mem_append_right _ (List.mem_singleton_self _), rfl⟩
  · rw [Sound.hasNode_iff, hnodes]
    exact ⟨r, List.mem_append_left _ hr, hid⟩
  · exact ⟨[], by rw [hproperties]; exact (List.append_nil _).symm, RowsFor.nil n.id field 0⟩
  · rw [nextPlace, hrows]
    rfl
  · rw [hcount]
    exact (Int.add_zero _).symm

/-- A node that has been created has the supertags of the request. -/
theorem createNode_assigned (hs : s.Sound) (hc : s.Counted)
    (hfield : s.Holds (.known field) (some Handle.fieldSupertag))
    (hnamed : NamesLive s n.supertags tags) (h : createNode now n s = .ok id t) :
    id = n.id ∧ t.nodes = s.nodes ++ [newRecord now n] ∧
      Assigned s t now n field tags.eraseDups := by
  rw [createNode_eq hs hfield hnamed] at h
  obtain ⟨node, t', hinserted, h⟩ := ok_of_bind h
  obtain ⟨rfl, rfl⟩ := EStateM.Result.ok.inj h
  obtain ⟨created, u, hinsert, h⟩ := ok_of_bind (ok_of_atomically hinserted)
  have hid := insertNode_id hinsert
  obtain ⟨hassigned, hnodes⟩ := assigned_insertNode hs hc hfield hinsert
  obtain ⟨_, v, hloop, h⟩ := ok_of_bind h
  obtain ⟨rfl, rfl⟩ := EStateM.Result.ok.inj h
  rw [hid] at hloop
  rw [forIn_rows_eq] at hloop
  obtain ⟨hafter, hsucceeds⟩ := appendReferences_outcome now tags.eraseDups hassigned.rows
    fitsLong_of_none
  have hroom := (hsucceeds.mp ⟨_, _, hloop⟩).1
  rw [after_of_ok hloop, List.take_of_length_le hroom] at hafter
  subst hafter
  have happended := addReferences_appended now n.id field hroom
  refine ⟨hid, by rw [addReferences_nodes, hnodes], ?_⟩
  exact hassigned.extend (hassigned.rows.extended_addReferences now rfl hroom)
    (addReferences_nodes _ _ _) (hassigned.place ▸ happended)

/-! ## Assigning supertags one after the other -/

/-- A request to assign a supertag to a node: by identifier, or by the handle or identifier of a
live node. -/
inductive TagCall where
  | attach (now : Int) (supertag : NodeId)
  | add (now : Int) (supertag : String)

namespace TagCall

/-- Carries out a request, and tells whether the supertag is new to the node. -/
def edit (node : NodeId) : TagCall → Edit Bool
  | attach now supertag => attachSupertag now node supertag
  | add now supertag => addSupertag now node supertag

/-- The identifier of the supertag that a request is about. -/
def Means (s : Store) : TagCall → NodeId → Prop
  | attach _ supertag, id => supertag = id
  | add _ supertag, id => ∃ tag, s.findLive? supertag = .ok (some tag) ∧ tag.id = id

/-- A request by handle assigns the node that the handle names. -/
theorem Means.edit_eq {call : TagCall} (h : call.Means s id) (node : NodeId) :
    ∃ now, call.edit node s = attachSupertag now node id s := by
  cases call with
  | attach now supertag =>
    obtain rfl : supertag = id := h
    exact ⟨now, rfl⟩
  | add now supertag =>
    obtain ⟨tag, htag, rfl⟩ := h
    exact ⟨now, bind_of_ok (requireSupertag_of htag)⟩

/-- Where the same nodes are live, with the same handles, a request means the same supertag. -/
theorem Means.of_same {call : TagCall} (h : call.Means s id) (hs : s.Sound) (ht : t.Sound)
    (hsame : ∀ id handle, t.Holds id handle ↔ s.Holds id handle) : call.Means t id := by
  cases call with
  | attach now supertag => exact h
  | add now supertag =>
    obtain ⟨tag, htag, rfl⟩ := h
    exact hs.findLive?_of_same ht hsame htag

end TagCall

/-- Carries out requests for one node, one after the other. -/
def assignTags (node : NodeId) (calls : List TagCall) : Edit (List Bool) :=
  calls.mapM (·.edit node)

/-- For each of some supertags whether it is none of those before. -/
def newTags (tags : List NodeId) (targets : List NodeId) : List Bool :=
  targets.mapIdx fun i id => !(tags ++ targets.take i).contains id

theorem newTags_cons (tags : List NodeId) (id : NodeId) (rest : List NodeId) :
    newTags tags (id :: rest) = (!tags.contains id) :: newTags (tags ++ [id]) rest := by
  unfold newTags
  rw [List.mapIdx_cons]
  simp

/-- A request is carried out unless it needs a number and none is left. -/
theorem Assigned.call (hs : s.Counted) (h : Assigned s t now n field tags.eraseDups)
    {call : TagCall} (hcall : call.Means t id) :
    (∃ u, call.edit n.id t = .ok (!tags.contains id) u ∧
      Assigned s u now n field (tags ++ [id]).eraseDups) ∨
    (id ∉ tags ∧ ¬ t.HasNumbers 1 ∧ ∃ err, call.edit n.id t = .error err t) := by
  obtain ⟨later, hedit⟩ := hcall.edit_eq n.id
  rw [hedit, eraseDups_concat]
  by_cases hid : id ∈ tags
  · rw [if_pos hid, List.contains_iff_mem.mpr hid]
    exact Or.inl ⟨t, h.attach_known (List.mem_eraseDups.mpr hid) later, h⟩
  · have hnew : id ∉ tags.eraseDups := fun hmem => hid (List.mem_eraseDups.mp hmem)
    by_cases hnumbers : t.HasNumbers 1
    · rw [if_neg hid, show tags.contains id = false by simpa using hid]
      exact Or.inl (h.attach_succeeds hs hnew hnumbers later)
    · exact Or.inr ⟨hid, hnumbers, h.attach_fails hs hnew hnumbers later⟩

/-- Requests are carried out if there are numbers for all new supertags. The node has those then in
the order in which they have first been asked for. -/
theorem Assigned.calls (hs : s.Counted) {calls : List TagCall} {targets : List NodeId}
    (h : Assigned s t now n field tags.eraseDups)
    (hcalls : List.Forall₂ (TagCall.Means t) calls targets) :
    (s.HasNumbers (tags ++ targets).eraseDups.length ∧
      ∃ u, assignTags n.id calls t = .ok (newTags tags targets) u ∧
        Assigned s u now n field (tags ++ targets).eraseDups) ∨
    (¬ s.HasNumbers (tags ++ targets).eraseDups.length ∧
      ∃ err u, assignTags n.id calls t = .error err u) := by
  induction calls generalizing t tags targets with
  | nil =>
    cases hcalls
    have hfits := h.rows.counted.fits
    rw [h.count] at hfits
    rw [List.append_nil]
    exact Or.inl ⟨hfits, t, rfl, h⟩
  | cons call rest ih =>
    cases hcalls with
    | @cons _ id _ targets hcall hrest =>
      have happend : tags ++ id :: targets = tags ++ [id] ++ targets := by simp
      have hcons : assignTags n.id (call :: rest) t = (call.edit n.id >>= fun known =>
          assignTags n.id rest >>= fun others => pure (known :: others)) t :=
        congrFun List.mapM_cons t
      rw [happend, newTags_cons, hcons]
      rcases h.call hs hcall with ⟨u, hstep, hu⟩ | ⟨hid, hnumbers, err, hstep⟩
      · rw [bind_of_ok hstep]
        have hsame : ∀ id handle, u.Holds id handle ↔ t.Holds id handle :=
          fun _ _ => hu.holds_iff.trans h.holds_iff.symm
        rcases ih hu (hrest.imp fun _ _ hm => hm.of_same h.rows.sound hu.rows.sound hsame) with
          ⟨hroom, v, hv, hassigned⟩ | ⟨hroom, err, v, hv⟩
        · exact Or.inl ⟨hroom, v, bind_of_ok hv, hassigned⟩
        · exact Or.inr ⟨hroom, err, v, bind_of_error hv⟩
      · -- The new supertag needs a number more than the node has needed so far.
        refine Or.inr ⟨fun hroom => hnumbers ?_, err, t, by rw [bind_of_error hstep]⟩
        have hcount := h.count
        have hlength : tags.eraseDups.length + 1 ≤ (tags ++ [id] ++ targets).eraseDups.length := by
          rw [List.eraseDups_append, eraseDups_concat, if_neg hid, List.length_append,
            List.length_append, List.length_singleton]
          exact Nat.le_add_right _ _
        unfold HasNumbers at hroom ⊢
        omega

end Edit

/-! ## What is read of the supertags -/

namespace Store

open Edit

/-- A node with supertags, next to the store in which there was no such node: its row and those that
assign its supertags are all that is new, its supertags are read in their order, and it is assembled
with the live ones. To ask for one of them again changes nothing. -/
structure TaggedWith (s t : Store) (now : Int) (n : NewNode) (field : NodeId) (tags : List NodeId) :
    Prop where
  node : ∃ time, t.nodes = s.nodes ++ [{ newRecord now n with updatedAt := time }]
  rows : s.Appended t n.id field 0 tags
  values : t.values n.id Handle.fieldSupertag = .ok (tags.map .node)
  assembled : ∃ a, t.assemble? n.id = .ok (some a) ∧
    a.supertags.map (·.id) = tags.filter (t.IsLive ·) ∧
    a.primarySupertag?.map (·.id) = (tags.filter (t.IsLive ·)).head?
  known : ∀ (call : TagCall) (tag : NodeId), call.Means t tag → tag ∈ tags →
    call.edit n.id t = .ok false t

variable {s t : Store} {now : Int} {n : NewNode} {field id : NodeId} {tags : List NodeId}

theorem taggedWith_of_assigned (h : Assigned s t now n field tags) (hdistinct : tags.Nodup) :
    TaggedWith s t now n field tags where
  node := h.nodes
  rows := h.added
  values := by
    obtain ⟨fieldNode, hfound, rfl, -⟩ :=
      h.rows.sound.findLive?_of_holds isName_fieldSupertag h.held
    rw [h.rows.sound.values_eq h.live hfound, h.texts, filterMap_decode_nodeText]
  assembled := by
    obtain ⟨m, hm⟩ := h.live
    obtain ⟨-, hid⟩ := h.rows.sound.node?_eq_some_iff.mp hm
    have htags : (t.joined m).supertags.map (·.id) = tags.filter (t.IsLive ·) := by
      rw [h.rows.sound.ids_supertags_joined h.held, hid, h.texts,
        PropertyValue.flatMap_referencedIn_nodeText, eraseDups_of_nodup (hdistinct.filter _)]
    refine ⟨t.joined m, ?_, htags, ?_⟩
    · rw [h.rows.sound.assemble?_eq, hm]
      rfl
    · rw [← htags, List.head?_map]
      rfl
  known call tag hcall htag := by
    obtain ⟨later, hedit⟩ := hcall.edit_eq n.id
    rw [hedit]
    exact h.attach_known htag later

/-- A node is created, on a store that any run has left, with supertags that are named by identifier
or handle, and further ones are asked for one by one. Then the node has each supertag once, in the
order in which they have first been asked for, and each answer tells whether its supertag is new.
This fails only when all numbers of rows have been given out. -/
theorem assignTags_run (steps : List Step) (now : Int) {created : Store}
    (hfield : (Store.empty.run steps).Holds (.known field) (some Handle.fieldSupertag))
    (hnamed : NamesLive (Store.empty.run steps) n.supertags tags)
    (hcreate : createNode now n (Store.empty.run steps) = .ok id created) :
    let s := Store.empty.run steps
    id = n.id ∧ created.nodes = s.nodes ++ [newRecord now n] ∧
    ∀ calls targets, List.Forall₂ (TagCall.Means created) calls targets →
      ((∃ answers t, assignTags id calls created = .ok answers t) ↔
        s.HasNumbers (tags ++ targets).eraseDups.length) ∧
      ∀ answers t, assignTags id calls created = .ok answers t →
        answers = newTags tags targets ∧
        s.TaggedWith t now n field (tags ++ targets).eraseDups := by
  intro s
  have hs : s.Sound := empty_sound.run steps
  have hc : s.Counted := empty_counted.run empty_sound steps
  obtain ⟨rfl, hnodes, hassigned⟩ := createNode_assigned hs hc hfield hnamed hcreate
  refine ⟨rfl, hnodes, fun calls targets hcalls => ?_⟩
  rcases hassigned.calls hc hcalls with ⟨hroom, u, hu, htags⟩ | ⟨hroom, err, u, hu⟩
  · rw [hu]
    refine ⟨iff_of_true ⟨_, _, rfl⟩ hroom, fun answers t h => ?_⟩
    obtain ⟨rfl, rfl⟩ := EStateM.Result.ok.inj h
    exact ⟨rfl, taggedWith_of_assigned htags (nodup_eraseDups _)⟩
  · rw [hu]
    refine ⟨iff_of_false ?_ hroom, fun answers t h => (nomatch h)⟩
    rintro ⟨_, _, h⟩
    cases h

/-- A node is created as a task and an item, and asked to be an item once more after it has been
given a supertag that does not exist. -/
theorem assignTags_run_task :
    let id (i : Nat) (h : i < 2 ^ 128) : NodeId := ⟨i, h⟩
    let create (id : NodeId) (systemId : String) : Step :=
      ⟨5, .graph (.createNode ⟨id, systemId, some systemId, none, []⟩)⟩
    let field := id 1 (by decide)
    let item := id 2 (by decide)
    let task := id 3 (by decide)
    let milk := id 4 (by decide)
    let missing := id 5 (by decide)
    let s := Store.empty.run [create field Handle.fieldSupertag, create item Handle.supertagItem,
      create task Handle.supertagTask]
    let supertags := [Handle.supertagTask, Handle.supertagItem, Handle.supertagTask]
    ∃ created t, createNode 6 ⟨milk, "milk", none, none, supertags⟩ s = .ok milk created ∧
      assignTags milk [.attach 7 missing, .add 8 Handle.supertagItem] created =
        .ok [true, false] t ∧
      t.values milk Handle.fieldSupertag = .ok [.node task, .node item, .node missing] := by
  intro id create field item task milk missing s supertags
  have hs : s.Sound := empty_sound.run _
  have hfield : s.Holds (.known field) (some Handle.fieldSupertag) := by
    unfold Holds
    decide +kernel
  have hitem : s.Holds (.known item) (some Handle.supertagItem) := by
    unfold Holds
    decide +kernel
  have htask : s.Holds (.known task) (some Handle.supertagTask) := by
    unfold Holds
    decide +kernel
  have hitemName : IsName Handle.supertagItem := ⟨by decide +kernel, by decide +kernel⟩
  have htaskName : IsName Handle.supertagTask := ⟨by decide +kernel, by decide +kernel⟩
  obtain ⟨itemNode, hfoundItem, hitemId, -⟩ := hs.findLive?_of_holds hitemName hitem
  obtain ⟨taskNode, hfoundTask, htaskId, -⟩ := hs.findLive?_of_holds htaskName htask
  have hnamed : NamesLive s supertags [task, item, task] :=
    .cons ⟨taskNode, hfoundTask, htaskId⟩ (.cons ⟨itemNode, hfoundItem, hitemId⟩
      (.cons ⟨taskNode, hfoundTask, htaskId⟩ .nil))
  have hsucceeds :
      (outcome (createNode 6 ⟨milk, "milk", none, none, supertags⟩) s).isOk = true := by
    decide +kernel
  cases hcreate : createNode 6 ⟨milk, "milk", none, none, supertags⟩ s with
  | error err created =>
    rw [outcome, hcreate] at hsucceeds
    cases hsucceeds
  | ok made created =>
    have hcreated := hs.after
      (TableLaw.changes.graph.createNode 6 ⟨milk, "milk", none, none, supertags⟩)
    rw [after_of_ok hcreate] at hcreated
    obtain ⟨rfl, hnodes, hcalls⟩ := assignTags_run _ 6 hfield hnamed hcreate
    obtain ⟨r, hr, hlive⟩ := hitem
    obtain ⟨found, hfound, hid, -⟩ := hcreated.findLive?_of_holds hitemName
      ⟨r, hnodes ▸ List.mem_append_left _ hr, hlive⟩
    obtain ⟨hruns, htags⟩ := hcalls [.attach 7 missing, .add 8 Handle.supertagItem] [missing, item]
      (.cons rfl (.cons ⟨found, hfound, hid⟩ .nil))
    have hroom : s.HasNumbers ([task, item, task] ++ [missing, item]).eraseDups.length := by
      unfold HasNumbers
      decide +kernel
    obtain ⟨answers, t, h⟩ := hruns.mpr hroom
    obtain ⟨rfl, htagged⟩ := htags answers t h
    exact ⟨created, t, rfl, h, htagged.values⟩

end Store

end TagGraph
