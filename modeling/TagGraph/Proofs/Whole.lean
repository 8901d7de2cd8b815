import TagGraph.Proofs.Field.Room

/-!
# Operations that do all or nothing

An edit that fails on a store may have written something before (`Edit.IsWhole` says that it has
not). Look-ups and checks come first in every edit of the graph, the writes that may fail half-way
run as one step, and what is left behind them cannot fail: a live node can always be touched. So
every operation that fails leaves the store as it was, except for edits of saved queries and for
values that are added to a field of many (`Store.mayStopHalfway`, `Store.run_whole`).
-/

namespace TagGraph

namespace Edit

open Store

variable {α β : Type} {s s' : Store}

/-- If the edit fails on a store, it leaves the store as it was. -/
def IsWhole (e : Edit α) (s : Store) : Prop :=
  ∀ err s', e s = .error err s' → s' = s

/-- The edit gives a value on a store. -/
def Succeeds (e : Edit α) (s : Store) : Prop :=
  ∃ a s', e s = .ok a s'

/-! ## Parts of an edit -/

theorem Succeeds.pure (a : α) (s : Store) : Succeeds (pure a : Edit α) s := ⟨a, s, rfl⟩

theorem Succeeds.bind {e : Edit α} {f : α → Edit β} (he : Succeeds e s)
    (hf : ∀ a s', e s = .ok a s' → Succeeds (f a) s') : Succeeds (e >>= f) s := by
  obtain ⟨a, s', h⟩ := he
  obtain ⟨b, s'', h'⟩ := hf a s' h
  exact ⟨b, s'', (bind_of_ok h).trans h'⟩

namespace IsWhole

/-- An edit that succeeds is whole: there is no failure to speak of. -/
theorem of_succeeds {e : Edit α} (he : Succeeds e s) : IsWhole e s := by
  intro err s' h
  obtain ⟨a, t, hok⟩ := he
  rw [hok] at h
  cases h

/-- An edit that writes nothing is whole. -/
theorem of_reads {e : Edit α} (he : Reads e) : IsWhole e s := by
  intro err s' h
  rw [← after_of_error h, he s]

/-- A first part that is whole is followed by one that is whole while nothing has been written, and
by one that cannot fail as soon as something has. -/
theorem bind {e : Edit α} {f : α → Edit β} (he : IsWhole e s)
    (hf : ∀ a s', e s = .ok a s' → s' = s ∧ IsWhole (f a) s ∨ Succeeds (f a) s') :
    IsWhole (e >>= f) s := by
  intro err t h
  cases hfirst : e s with
  | error err' s' =>
    rw [bind_of_error hfirst] at h
    obtain ⟨-, rfl⟩ := EStateM.Result.error.inj h
    exact he err' s' hfirst
  | ok a s' =>
    rw [bind_of_ok hfirst] at h
    rcases hf a s' hfirst with ⟨rfl, hrest⟩ | hrest
    · exact hrest err t h
    · obtain ⟨b, u, hok⟩ := hrest
      rw [hok] at h
      cases h

/-- An edit stays whole if what follows it cannot fail. -/
theorem bind_succeeds {e : Edit α} {f : α → Edit β} (he : IsWhole e s)
    (hf : ∀ a s', e s = .ok a s' → Succeeds (f a) s') : IsWhole (e >>= f) s :=
  he.bind fun a s' h => Or.inr (hf a s' h)

/-- A look before an edit leaves it whole. -/
theorem reads_bind {e : Edit α} {f : α → Edit β} (he : Reads e)
    (hf : ∀ a, e s = .ok a s → IsWhole (f a) s) : IsWhole (e >>= f) s := by
  refine (of_reads he).bind fun a s' h => Or.inl ?_
  obtain rfl := he.eq_of_ok h
  exact ⟨rfl, hf a h⟩

theorem throw_bind (err : StoreError) (f : α → Edit β) : IsWhole ((throw err : Edit α) >>= f) s :=
  reads_bind (Reads.throw err) fun _ h => nomatch h

/-- An edit in a transaction is whole, whatever it does. -/
theorem atomically (e : Edit α) : IsWhole e.atomically s := by
  intro err s' h
  cases he : e s with
  | ok a t =>
    rw [atomically_of_ok he] at h
    cases h
  | error err' t =>
    rw [atomically_of_error he] at h
    exact (EStateM.Result.error.inj h).2.symm

theorem discard {e : Edit α} (he : IsWhole e s) : IsWhole (discard e : Edit Unit) s := by
  rw [discard_eq_bind]
  exact he.bind_succeeds fun _ s' _ => .pure _ s'

end IsWhole

/-! ## Edits of nodes -/

/-- An update of a live node does not fail, and it changes nothing if there is none. -/
theorem updateLive_bind_whole {id : NodeId} {change : NodeRecord → NodeRecord} {f : Bool → Edit β}
    (hfound : ∀ t, Succeeds (f true) t) (hgone : IsWhole (f false) s) :
    IsWhole (updateLive id change >>= f) s := by
  have hupdate : ∃ t, updateLive id change s = .ok (s.liveRecordOf? id).isSome t ∧
      ((s.liveRecordOf? id).isSome = false → t = s) := by
    rw [updateLive, get_bind]
    cases (s.liveRecordOf? id).isSome with
    | true => exact ⟨_, rfl, fun h => absurd h (by decide)⟩
    | false => exact ⟨s, rfl, fun _ => rfl⟩
  obtain ⟨t, ht, hsame⟩ := hupdate
  refine (IsWhole.of_succeeds ⟨_, t, ht⟩).bind fun found s' h => ?_
  obtain ⟨rfl, rfl⟩ := EStateM.Result.ok.inj (ht.symm.trans h)
  cases hsome : (s.liveRecordOf? id).isSome with
  | true => exact Or.inr (hfound t)
  | false => exact Or.inl ⟨hsame hsome, hgone⟩

theorem updateContent_whole (now : Int) (id : NodeId) (content : String) :
    IsWhole (updateContent now id content) s :=
  updateLive_bind_whole (fun t => .pure _ t) (.of_reads (Reads.throw _))

/-- A time of change is written by one statement. -/
theorem touchNode_whole (now : Int) (id : NodeId) : IsWhole (touchNode now id) s :=
  updateLive_bind_whole (fun t => .pure _ t) (.of_reads (Reads.throw _))

theorem deleteNode_whole (now : Int) (id : NodeId) : IsWhole (deleteNode now id) s := by
  refine updateLive_bind_whole (fun t => .pure _ t) (.of_reads ((Reads.ask _).bind fun node => ?_))
  cases node with
  | none => exact Reads.throw _
  | some node => exact Reads.pure _

/-- A row of a node is added or refused as a whole. -/
theorem addNode_whole (hs : s.foreign = none) (lenient : Bool) (r : NodeRecord) :
    IsWhole (addNode lenient r) s := by
  intro err s' h
  rw [addNode, get_bind, hs] at h
  cases hc : conflict? s r with
  | none =>
    simp only [hc] at h
    cases h
  | some cause =>
    cases lenient with
    | true => simp only [hc] at h; cases h
    | false =>
      simp only [hc] at h
      exact (EStateM.Result.error.inj h).2.symm

/-- A node that has been added is in the store, and otherwise nothing has changed. -/
theorem addNode_ok (hs : s.foreign = none) {lenient : Bool} {r : NodeRecord} {added : Bool}
    (h : addNode lenient r s = .ok added s') :
    added = true ∧ conflict? s r = none ∧ s' = { s with nodes := s.nodes ++ [r] } ∨
      lenient = true ∧ s' = s := by
  rw [addNode, get_bind, hs] at h
  cases hc : conflict? s r with
  | none =>
    simp only [hc] at h
    obtain ⟨rfl, rfl⟩ := EStateM.Result.ok.inj h
    exact Or.inl ⟨rfl, rfl, by rw [hs]⟩
  | some cause =>
    cases lenient with
    | true =>
      simp only [hc] at h
      exact Or.inr ⟨rfl, (EStateM.Result.ok.inj h).2.symm⟩
    | false => simp only [hc] at h; cases h

/-- A node in the store is what its identifier is looked up as, deleted or not. -/
theorem nodeOrTombstone?_of_mem (hs : s.Sound) {r : NodeRecord} (hr : r ∈ s.nodes) {id : NodeId}
    (hid : r.id = .known id) : ∃ n, s.nodeOrTombstone? id = .ok (some n) := by
  obtain ⟨n, rfl⟩ := hs.record_of_mem hr
  exact ⟨n, hs.nodeOrTombstone?_eq_some_iff.mpr ⟨hr, StoredId.known.inj hid⟩⟩

/-- To insert a node is to check it and to add one row. -/
theorem insertNode_whole (hs : s.Sound) (now : Int) (n : NewNode) :
    IsWhole (insertNode now n) s := by
  unfold insertNode
  cases hvalid : n.fault? with
  | some fault => exact .throw_bind _ _
  | none =>
    refine (addNode_whole hs.native false _).bind_succeeds fun added t hadd => ?_
    rcases addNode_ok hs.native hadd with ⟨-, hfree, rfl⟩ | ⟨hlenient, -⟩
    · -- What has been added can be looked up.
      obtain ⟨node, hnode⟩ := nodeOrTombstone?_of_mem
        (hs.addNode (newRecord_sound now hvalid) hfree) (List.mem_append_right _
          (List.mem_singleton_self (newRecord now n))) rfl
      exact ⟨node, _, (bind_of_ok (ask_of_ok (·.nodeOrTombstone? n.id) hnode)).trans rfl⟩
    · cases hlenient

theorem insertSystemNode_whole (hs : s.Sound) (now : Int) (id : NodeId)
    (systemId content : String) : IsWhole (insertSystemNode now id systemId content) s := by
  unfold insertSystemNode
  cases hvalid : (NewNode.system id systemId content).fault? with
  | some fault =>
    simp only [hvalid]
    exact .throw_bind _ _
  | none =>
    simp only [hvalid]
    refine (addNode_whole hs.native true _).bind fun added t hadd => ?_
    rcases addNode_ok hs.native hadd with ⟨-, hfree, rfl⟩ | ⟨-, rfl⟩
    · have ht := hs.addNode (newRecord_sound now hvalid) hfree
      have hholds : ({ s with
          nodes := s.nodes ++ [newRecord now (.system id systemId content)] } : Store).Holds
            (.known id) (some systemId) := (holds_addNode rfl).mpr (Or.inr ⟨rfl, rfl⟩)
      obtain ⟨node, hnode, -⟩ := ht.nodeBySystemId?_of_holds hholds
      exact Or.inr ⟨_, _, (bind_of_ok (ask_of_ok (·.nodeBySystemId? systemId) hnode)).trans rfl⟩
    · refine Or.inl ⟨rfl, .of_reads ((Reads.ask _).bind fun node => ?_)⟩
      cases node with
      | some node => exact Reads.pure _
      | none => exact Reads.throw _

/-! ## Edits of rows -/

/-- A row of a field is added or refused as a whole. -/
theorem addProperty_whole (number : Int) (node field : NodeId) (r : PropertyRecord) :
    IsWhole (addProperty number node field r) s := by
  intro err s' h
  rw [addProperty, get_bind] at h
  cases hs : s.foreign with
  | none =>
    by_cases hnodes : hasNode s node && hasNode s field
    · simp only [hs, hnodes, if_true] at h
      cases h
    · simp only [hs, hnodes] at h
      exact (EStateM.Result.error.inj h).2.symm
  | some tables =>
    simp only [hs] at h
    cases hadd : tables.withProperty s number r with
    | ok t => simp only [hadd] at h; cases h
    | error err' =>
      simp only [hadd] at h
      exact (EStateM.Result.error.inj h).2.symm

theorem insertProperty_whole (now : Int) (node field : NodeId) (raw : String)
    (order : Option Int) : IsWhole (insertProperty now node field raw order) s := by
  have hplaced : ∀ place, IsWhole (insertProperty now node field raw (some place)) s := by
    intro place
    rw [insertProperty_some]
    exact .reads_bind (Reads.ask _) fun number _ =>
      (addProperty_whole number node field _).bind_succeeds fun _ t _ => .pure _ t
  cases order with
  | some place => exact hplaced place
  | none =>
    rw [insertProperty_none]
    exact .reads_bind (Reads.ask _) fun place _ => hplaced place

/-- A live node is live after an edit of rows, so that a change of it can be noted. -/
theorem touchNode_succeeds_after (hs : s.Sound) {node field : NodeId} {e : Edit α}
    (he : ∀ R, RowLaw R (fun n f => n = node ∧ f = field) (fun _ => True) → Respects R e)
    (hlive : s.IsLive node) (now : Int) {a : α} (h : e s = .ok a s') :
    Succeeds (touchNode now node) s' := by
  have hkept := (he _ (OnlyField.rowLaw node field _) s hs.native).2
  have hsound := hs.after (he _ TableLaw.changes.rows)
  rw [after_of_ok h] at hkept hsound
  exact ⟨_, _, touchNode_of ((hs.isLive_congr hsound hkept.holds).mpr hlive) now⟩

/-- The rows of a field of a live node are replaced, and the change is noted. -/
theorem replaceAndTouch_whole (hs : s.Sound) {node : NodeId} (hlive : s.IsLive node)
    (now : Int) (field : NodeId) (raws : List String) (first : Int) :
    IsWhole (do
      replaceFieldProperties now node field raws first
      touchNode now node) s := by
  refine (IsWhole.atomically _).bind_succeeds fun _ t h => ?_
  exact touchNode_succeeds_after hs (fun R hR => replaceFieldProperties_respects hR now ⟨rfl, rfl⟩
    (fun _ _ => trivial) first) hlive now h

/-! ## Edits of fields -/

/-- A field that is given several values gets all of them or stays as it was. -/
theorem setPropertyValues_whole (hs : s.Sound) (now : Int) (node : NodeId) (field : String)
    (values : List PropertyValue) : IsWhole (setPropertyValues now node field values) s := by
  refine .reads_bind (requireLive_reads node) fun n hlive => ?_
  refine .reads_bind (requireField_reads field) fun fieldNode _ => ?_
  refine .reads_bind (Reads.ask _) fun type _ => ?_
  refine .reads_bind (checkTypes_reads field type values) fun _ _ => ?_
  refine .reads_bind (checkExtends_reads node fieldNode values) fun _ _ => ?_
  refine .reads_bind (Reads.mapM encode_reads values) fun raws _ => ?_
  exact replaceAndTouch_whole hs ⟨n, requireLive_ok hlive⟩ now fieldNode.id raws 0

/-- A write to a field that takes one value is whole, and so is that of a value that refers to no
node to any field. -/
theorem setProperty_whole (hs : s.Sound) (now : Int) (node : NodeId) {field : String}
    (value : PropertyValue) (order : Option Int)
    (hone : ∀ fieldNode, s.findLive? field = .ok (some fieldNode) →
      value.conformsTo .nodes = true → s.fieldType? fieldNode.id ≠ .ok (some .nodes)) :
    IsWhole (setProperty now node field value order) s := by
  refine .reads_bind (requireLive_reads node) fun n hlive => ?_
  refine .reads_bind (requireField_reads field) fun fieldNode hfound => ?_
  refine .reads_bind (Reads.ask _) fun type htype => ?_
  refine .reads_bind (checkTypes_reads field type [value]) fun _ hconforms => ?_
  refine .reads_bind (checkExtends_reads node fieldNode [value]) fun _ _ => ?_
  have htakes : TakesOne type := by
    refine takesOne_of_ne fun hnodes => ?_
    rw [hnodes] at htype hconforms
    exact hone fieldNode (requireField_ok hfound) (by simpa using checkTypes_ok hconforms)
      (ask_ok htype)
  rw [TakesOne] at htakes
  rw [htakes]
  refine .reads_bind (encode_reads value) fun raw _ => ?_
  refine .reads_bind (Reads.ask _) fun rows _ => ?_
  by_cases hsettled : isSettled rows raw order
  · rw [if_pos hsettled]
    exact .of_reads (Reads.pure _)
  · rw [if_neg hsettled]
    exact replaceAndTouch_whole hs ⟨n, requireLive_ok hlive⟩ now fieldNode.id [raw] _

theorem removeProperty_whole (now : Int) (node : NodeId) (field : String) :
    IsWhole (removeProperty now node field) s := by
  refine .reads_bind (requireLive_reads node) fun n hlive => ?_
  refine .reads_bind (requireField_reads field) fun fieldNode _ => ?_
  refine .of_succeeds (Succeeds.bind ⟨_, _, rfl⟩ fun removed t h => ?_)
  -- Removing rows leaves the node live.
  have hnode := requireLive_ok hlive
  obtain rfl : s.removeRows node fieldNode.id = t := (EStateM.Result.ok.inj h).2
  have htouch : Succeeds (touchNode now node) (s.removeRows node fieldNode.id) :=
    ⟨_, _, touchNode_of (s := s.removeRows node fieldNode.id) ⟨n, hnode⟩ now⟩
  by_cases hremoved : 0 < removed
  · simp only [hremoved, if_true]
    exact htouch.bind fun _ t _ => .pure _ t
  · simp only [hremoved]
    exact .pure _ _

/-- A supertag is attached by one write at most. -/
theorem attachSupertag_whole (hs : s.Sound) (now : Int) (node supertag : NodeId) :
    IsWhole (attachSupertag now node supertag) s := by
  refine .reads_bind (requireLive_reads node) fun n hlive => ?_
  refine .reads_bind (requireField_reads _) fun field _ => ?_
  refine .reads_bind (Reads.ask _) fun rows _ => ?_
  by_cases hrefers : refersTo rows supertag
  · rw [if_pos hrefers]
    exact .of_reads (Reads.pure _)
  · rw [if_neg hrefers]
    refine .reads_bind (encode_reads _) fun raw _ => ?_
    refine (insertProperty_whole now node field.id raw none).bind_succeeds fun p t h => ?_
    have htouch := touchNode_succeeds_after hs
      (fun R hR => hR.insertProperty now ⟨rfl, rfl⟩ trivial none) ⟨n, requireLive_ok hlive⟩ now h
    exact htouch.bind fun _ t _ => .pure _ t

end Edit

/-! ## Operations -/

namespace Store

open Edit

variable {s : Store}

/-- Whether an operation may fail on a store after it has written something: an edit of a saved
query, or a value for a field of many references. -/
def mayStopHalfway (s : Store) : Operation → Prop
  | .query _ => True
  | .graph (.setProperty _ field _ _) => ∃ fieldNode,
    s.findLive? field = .ok (some fieldNode) ∧ s.fieldType? fieldNode.id = .ok (some .nodes)
  | _ => False

/-- So every edit of a table is whole. -/
theorem Sound.tableEdit_whole (hs : s.Sound) (now : Int) (e : TableEdit) :
    IsWhole (e.edit now) s := by
  cases e with
  | insertNode n => exact (insertNode_whole hs now n).discard
  | insertNodeWithProperties n rows => exact (IsWhole.atomically _).discard
  | insertSystemNode id systemId content =>
    exact (insertSystemNode_whole hs now id systemId content).discard
  | updateContent id content => exact updateContent_whole now id content
  | touchNode id => exact touchNode_whole now id
  | deleteNode id => exact deleteNode_whole now id
  | insertProperty node field raw order =>
    exact (insertProperty_whole now node field raw order).discard
  | deleteFieldProperties node field =>
    have hdelete : Succeeds (deleteFieldProperties node field) s := ⟨_, _, rfl⟩
    exact (IsWhole.of_succeeds hdelete).discard
  | replaceFieldProperties node field raws first => exact IsWhole.atomically _

/-- A node is created with all its supertags or not at all. -/
theorem createNode_whole (now : Int) (n : NewNode) : IsWhole (createNode now n) s := by
  have hinsert : ∀ rows, IsWhole (do
      return (← insertNodeWithProperties now n rows).id : Edit NodeId) s := fun rows =>
    (IsWhole.atomically _).bind_succeeds fun _ t _ => .pure _ t
  unfold createNode
  by_cases hn : n.supertags.isEmpty
  · simp only [hn, if_true]
    exact .reads_bind (Reads.pure []) fun rows _ => hinsert rows
  · simp only [hn]
    refine .reads_bind (requireField_reads _) fun field _ => ?_
    refine .reads_bind (requireSupertags_reads _) fun supertags _ => ?_
    exact .reads_bind (supertagRows_reads field.id supertags) fun rows _ => hinsert rows

/-- So every edit of the graph is whole, save a write to a field that takes references one by one.
-/
theorem Sound.graphEdit_whole (hs : s.Sound) (now : Int) {e : GraphEdit}
    (he : ¬ s.mayStopHalfway (.graph e)) : IsWhole (e.edit now) s := by
  cases e with
  | createNode n => exact (createNode_whole now n).discard
  | updateContent id content => exact updateContent_whole now id content
  | deleteNode id => exact deleteNode_whole now id
  | setProperty node field value order =>
    exact setProperty_whole hs now node value order fun fieldNode hfound _ htype =>
      he ⟨fieldNode, hfound, htype⟩
  | setPropertyValues node field values => exact setPropertyValues_whole hs now node field values
  | removeProperty node field => exact (removeProperty_whole now node field).discard
  | addSupertag node supertag =>
    exact (IsWhole.reads_bind (requireSupertag_reads supertag) fun tag _ =>
      attachSupertag_whole hs now node tag.id).discard
  | attachSupertag node supertag => exact (attachSupertag_whole hs now node supertag).discard
  | setSupertags node supertags =>
    exact IsWhole.reads_bind (requireSupertags_reads supertags) fun ids _ =>
      setPropertyValues_whole hs now node _ (ids.map .node)

/-- Every operation on a store that any run has left does all of its work or none: if it fails, for
whatever reason and after however many rows, all nodes and all rows are as they were. The exceptions
are edits of saved queries and single values for fields of type `nodes`. -/
theorem run_whole (steps : List Step) (now : Int) (op : Operation)
    (hop : ¬ (Store.empty.run steps).mayStopHalfway op) (err : StoreError) (s' : Store)
    (hfail : op.edit now (Store.empty.run steps) = .error err s') : s' = Store.empty.run steps := by
  have hs : (Store.empty.run steps).Sound := empty_sound.run steps
  have hwhole : IsWhole (op.edit now) (Store.empty.run steps) := by
    cases op with
    | table e => exact hs.tableEdit_whole now e
    | graph e => exact hs.graphEdit_whole now hop
    | query e => exact absurd trivial hop
    | bootstrap fresh => exact (IsWhole.atomically _).discard
  exact hwhole err s' hfail

/-- A node whose second row names a field that is not there is not created, and its first row is
not left behind. -/
theorem run_whole_dangling :
    let id (i : Nat) (h : i < 2 ^ 128) : NodeId := ⟨i, h⟩
    let new (id : NodeId) : NewNode := ⟨id, "milk", none, none, []⟩
    let s := Store.empty.run [⟨5, .graph (.createNode (new (id 1 (by decide))))⟩]
    let op := Operation.table (.insertNodeWithProperties (new (id 2 (by decide)))
      [(id 1 (by decide), "first"), (id 3 (by decide), "second")])
    ¬ s.mayStopHalfway op ∧ ∃ err, op.edit 6 s = .error err s := by
  intro id new s op
  have hop : ¬ s.mayStopHalfway op := fun h => h
  have hfails : (match op.edit 6 s with
    | .ok _ _ => false
    | .error _ _ => true) = true := by decide +kernel
  cases hrun : op.edit 6 s with
  | ok _ t =>
    rw [hrun] at hfails
    cases hfails
  | error err s' =>
    obtain rfl := run_whole _ 6 op hop err s' hrun
    exact ⟨hop, err, rfl⟩

end Store

end TagGraph
