import Mathlib.Data.List.Nodup
import TagGraph.Proofs.Operation.Parts
import TagGraph.Proofs.Store.Record

/-!
# The invariant of the store

* `Store.Sound`: what holds of every store on the tables of this library, of its nodes one by one
  (`NodeRecord.Sound`), of all of them together, and of the rows of their fields;
* `Store.Change.sound`: an elementary change keeps it, hence so does a run (`Store.Sound.run`);
* `Store.Grows`: row numbers are never given out again.
-/

namespace TagGraph

/-- What holds of a stored node: it can be read, its plain content is that of its content, its
handle is a word, and it is not grouped under itself. -/
structure NodeRecord.Sound (r : NodeRecord) : Prop where
  readable : ∃ n : Node, r = n.record
  plain : r.contentPlain = Text.plain r.content
  handle : ∀ systemId, r.systemId = some systemId →
    systemId ≠ "" ∧ ∀ c ∈ systemId.toList, Text.isBlank c = false
  owner : r.ownerId ≠ some r.id

namespace Store

/-- The row numbers in use, in the order of insertion. -/
def rowNumbers (s : Store) : List Int :=
  s.properties.filterMap fun r => r.id.whole?

/-- The invariant of the store. -/
structure Sound (s : Store) : Prop where
  native : s.foreign = none
  nodes : ∀ r ∈ s.nodes, r.Sound
  ids : (s.nodes.map (·.id)).Nodup
  handles : s.liveHandles.Nodup
  rows : ∀ r ∈ s.properties, ∃ p : Property, r = p.record
  grounded : ∀ r ∈ s.properties,
    (∃ n ∈ s.nodes, n.id = r.nodeId) ∧ ∃ n ∈ s.nodes, n.id = r.fieldId
  increasing : s.rowNumbers.Pairwise (· < ·)
  numbered : ∀ i ∈ s.rowNumbers, i ≤ s.lastRowId

theorem empty_sound : Store.empty.Sound := by
  constructor <;> simp [Store.empty, rowNumbers, liveHandles]

end Store

/-! ## Requests without fault -/

/-- A handle without fault is a word. -/
theorem NewNode.systemIdFault?_eq_none {systemId : String}
    (h : NewNode.systemIdFault? systemId = none) :
    systemId ≠ "" ∧ ∀ c ∈ systemId.toList, Text.isBlank c = false := by
  unfold NewNode.systemIdFault? at h
  by_cases hblank : Text.isBlankText systemId = true
  · simp [hblank] at h
  · by_cases hspaced : systemId.toList.any Text.isBlank = true
    · simp [hblank, hspaced] at h
    · refine ⟨?_, ?_⟩
      · rintro rfl
        exact hblank rfl
      · simpa using hspaced

/-- The row of a new node is sound if nothing is wrong with the request. -/
theorem Edit.newRecord_sound (now : Int) {n : NewNode} (h : n.fault? = none) :
    (Edit.newRecord now n).Sound := by
  unfold NewNode.fault? at h
  cases hhandle : n.systemId.bind NewNode.systemIdFault? with
  | some fault => simp [hhandle] at h
  | none =>
    have howner : n.ownerId ≠ some n.id := by
      intro heq
      simp [hhandle, heq] at h
    refine ⟨⟨⟨n.id, n.content, Text.plain n.content, n.systemId, n.ownerId, now, now, none⟩, rfl⟩,
      rfl, ?_, ?_⟩
    · intro systemId hs
      rw [show n.systemId = some systemId from hs] at hhandle
      exact NewNode.systemIdFault?_eq_none hhandle
    · show n.ownerId.map StoredId.known ≠ some (.known n.id)
      cases ho : n.ownerId with
      | none => simp
      | some owner =>
        intro heq
        apply howner
        rw [ho]
        simpa using heq

/-! ## Changes of a node -/

/-- A change of a row of a node that keeps what identifies it and what makes it sound. -/
structure NodeRecord.Amends (change : NodeRecord → NodeRecord) : Prop where
  id : ∀ r, (change r).id = r.id
  systemId : ∀ r, (change r).systemId = r.systemId
  sound : ∀ r : NodeRecord, r.Sound → (change r).Sound

namespace NodeRecord

theorem setContent_amends (now : Int) (content : String) :
    Amends fun r =>
      { r with content, contentPlain := Text.plain content, updatedAt := .integer now } where
  id _ := rfl
  systemId _ := rfl
  sound r h := by
    obtain ⟨⟨n, rfl⟩, _, hhandle, howner⟩ := h
    exact ⟨⟨{ n with content, contentPlain := Text.plain content, updatedAt := now }, rfl⟩, rfl,
      hhandle, howner⟩

theorem touch_amends (now : Int) :
    Amends fun r => { r with updatedAt := r.updatedAt.max (.integer now) } where
  id _ := rfl
  systemId _ := rfl
  sound r h := by
    obtain ⟨⟨n, rfl⟩, hplain, hhandle, howner⟩ := h
    refine ⟨⟨{ n with updatedAt := max n.updatedAt now }, ?_⟩, hplain, hhandle, howner⟩
    rw [show n.record.updatedAt = .integer n.updatedAt from rfl, Cell.max_integer]
    rfl

theorem bury_amends (now : Int) :
    Amends fun r => { r with deletedAt := .integer now, updatedAt := .integer now } where
  id _ := rfl
  systemId _ := rfl
  sound r h := by
    obtain ⟨⟨n, rfl⟩, hplain, hhandle, howner⟩ := h
    exact ⟨⟨{ n with deletedAt := some now, updatedAt := now }, rfl⟩, hplain, hhandle, howner⟩

/-- The handle that a live node occupies. -/
def handle? (r : NodeRecord) : Option String :=
  if r.isLive then r.systemId else none

theorem handle?_of_live {r : NodeRecord} (h : r.isLive = true) : r.handle? = r.systemId := by
  rw [handle?, if_pos h]

end NodeRecord

namespace Store

theorem liveHandles_eq (s : Store) : s.liveHandles = s.nodes.filterMap (·.handle?) := by
  rw [liveHandles, List.filterMap_filter]
  rfl

/-- Amending nodes occupies no further handle. -/
theorem updateNode_handles {change : NodeRecord → NodeRecord} (h : NodeRecord.Amends change)
    (s : Store) (id : NodeId) : (s.updateNode id change).liveHandles.Sublist s.liveHandles := by
  rw [liveHandles_eq, liveHandles_eq, updateNode]
  show (List.filterMap _ (List.map _ s.nodes)).Sublist _
  -- Node by node: an amended node keeps its handle or gives it up.
  induction s.nodes with
  | nil => exact List.Sublist.refl _
  | cons r rs ih =>
    rw [List.map_cons]
    by_cases hr : (r.id == StoredId.known id && r.isLive) = true
    · have hlive : r.handle? = r.systemId :=
        NodeRecord.handle?_of_live (Bool.and_eq_true_iff.mp hr).2
      rw [if_pos hr, List.filterMap_cons, List.filterMap_cons, hlive]
      have hchange : (change r).handle? = r.systemId ∨ (change r).handle? = none := by
        unfold NodeRecord.handle?
        rw [h.systemId]
        by_cases hc : (change r).isLive = true
        · exact Or.inl (if_pos hc)
        · exact Or.inr (if_neg hc)
      cases hid : r.systemId with
      | none =>
        rw [hid, or_self] at hchange
        rw [hchange]
        exact ih
      | some systemId =>
        rcases hchange with hc | hc
        · rw [hc, hid]
          exact ih.cons_cons systemId
        · rw [hc]
          exact ih.cons systemId
    · rw [if_neg hr, List.filterMap_cons, List.filterMap_cons]
      cases r.handle? with
      | none => exact ih
      | some systemId => exact ih.cons_cons systemId

/-- A row and what an amendment makes of it: the same row, or the amended one. -/
structure Amended (change : NodeRecord → NodeRecord) (old r : NodeRecord) : Prop where
  eq : r = old ∨ r = change old
  id : r.id = old.id
  systemId : r.systemId = old.systemId

theorem amended_ite {change : NodeRecord → NodeRecord} (h : NodeRecord.Amends change) (meant : Bool)
    (r : NodeRecord) : Amended change r (if meant then change r else r) := by
  cases meant with
  | true => exact ⟨Or.inr rfl, h.id r, h.systemId r⟩
  | false => exact ⟨Or.inl rfl, rfl, rfl⟩

/-- Each row after an amendment has come from one before. -/
theorem exists_of_mem_updateNode {change : NodeRecord → NodeRecord} (h : NodeRecord.Amends change)
    {s : Store} {id : NodeId} {r : NodeRecord} (hr : r ∈ (s.updateNode id change).nodes) :
    ∃ old ∈ s.nodes, Amended change old r := by
  obtain ⟨old, hold, rfl⟩ := List.mem_map.mp hr
  exact ⟨old, hold, amended_ite h _ old⟩

/-- Each row before an amendment has become one after it. -/
theorem exists_mem_updateNode {change : NodeRecord → NodeRecord} (h : NodeRecord.Amends change)
    {s : Store} (id : NodeId) {old : NodeRecord} (hold : old ∈ s.nodes) :
    ∃ r ∈ (s.updateNode id change).nodes, Amended change old r :=
  ⟨_, List.mem_map_of_mem hold, amended_ite h _ old⟩

/-- Amending nodes leaves their identifiers. -/
theorem updateNode_ids {change : NodeRecord → NodeRecord} (h : NodeRecord.Amends change)
    (s : Store) (id : NodeId) :
    (s.updateNode id change).nodes.map (·.id) = s.nodes.map (·.id) := by
  rw [updateNode, List.map_map]
  exact List.map_congr_left fun r _ => (amended_ite h _ r).id

/-- A row is free only if no other has its identifier, deleted ones included. -/
theorem not_mem_ids_of_free {s : Store} {r : NodeRecord} (h : Edit.conflict? s r = none) :
    r.id ∉ s.nodes.map (·.id) := by
  intro hmem
  obtain ⟨n, hn, heq⟩ := List.mem_map.mp hmem
  have hany : s.nodes.any (·.id == r.id) = true := List.any_eq_true.mpr ⟨n, hn, by simp [heq]⟩
  unfold Edit.conflict? at h
  rw [hany] at h
  split at h <;> simp at h

/-- A row is free only if no live node has its handle. -/
theorem not_mem_liveHandles_of_free {s : Store} {r : NodeRecord} (h : Edit.conflict? s r = none)
    {systemId : String} (hhandle : r.handle? = some systemId) : systemId ∉ s.liveHandles := by
  intro hmem
  rw [liveHandles_eq] at hmem
  obtain ⟨n, hn, heq⟩ := List.mem_filterMap.mp hmem
  unfold NodeRecord.handle? at hhandle heq
  by_cases hlive : r.isLive = true
  · rw [if_pos hlive] at hhandle
    by_cases hnlive : n.isLive = true
    · rw [if_pos hnlive] at heq
      have hany : s.nodes.any (fun m => m.systemId == some systemId && m.isLive) = true :=
        List.any_eq_true.mpr ⟨n, hn, by simp [heq, hnlive]⟩
      simp [Edit.conflict?, hhandle, hlive, hany] at h
    · simp [hnlive] at heq
  · simp [hlive] at hhandle

/-- A node is there as long as its identifier is among those of all nodes. -/
theorem exists_node_iff (s : Store) (id : StoredId) :
    (∃ n ∈ s.nodes, n.id = id) ↔ id ∈ s.nodes.map (·.id) :=
  List.mem_map.symm

namespace Sound

variable {s : Store}

/-- Amending nodes keeps the invariant. -/
theorem updateNode (hs : s.Sound) {change : NodeRecord → NodeRecord}
    (h : NodeRecord.Amends change) (id : NodeId) : (s.updateNode id change).Sound where
  native := hs.native
  nodes := by
    intro r hr
    obtain ⟨old, hold, hamended⟩ := exists_of_mem_updateNode h hr
    rcases hamended.eq with rfl | rfl
    · exact hs.nodes r hold
    · exact h.sound old (hs.nodes old hold)
  ids := by
    rw [updateNode_ids h]
    exact hs.ids
  handles := hs.handles.sublist (updateNode_handles h s id)
  rows := hs.rows
  grounded := by
    intro r hr
    rw [exists_node_iff, exists_node_iff, updateNode_ids h, ← exists_node_iff, ← exists_node_iff]
    exact hs.grounded r hr
  increasing := hs.increasing
  numbered := hs.numbered

/-- A free row keeps the identifiers and the handles apart. -/
theorem addNode (hs : s.Sound) {r : NodeRecord} (hr : r.Sound)
    (hfree : Edit.conflict? s r = none) : ({ s with nodes := s.nodes ++ [r] } : Store).Sound := by
  have hid := not_mem_ids_of_free hfree
  refine ⟨hs.native, ?_, ?_, ?_, hs.rows, ?_, hs.increasing, hs.numbered⟩
  · intro n hn
    rcases List.mem_append.mp hn with hold | hnew
    · exact hs.nodes n hold
    · rw [List.mem_singleton.mp hnew]
      exact hr
  · rw [List.map_append, List.map_singleton, List.nodup_append_comm]
    exact List.nodup_cons.mpr ⟨hid, hs.ids⟩
  · rw [liveHandles_eq, List.filterMap_append, ← liveHandles_eq]
    cases hsome : r.handle? with
    | none => simpa [hsome] using hs.handles
    | some systemId =>
      simp only [List.filterMap_cons, hsome, List.filterMap_nil]
      rw [List.nodup_append_comm]
      exact List.nodup_cons.mpr ⟨not_mem_liveHandles_of_free hfree hsome, hs.handles⟩
  · intro row hrow
    obtain ⟨⟨n, hn, hnode⟩, ⟨m, hm, hfield⟩⟩ := hs.grounded row hrow
    exact ⟨⟨n, List.mem_append_left _ hn, hnode⟩, ⟨m, List.mem_append_left _ hm, hfield⟩⟩

/-- Removing rows keeps the invariant. -/
theorem removeRows (hs : s.Sound) (node field : NodeId) : (s.removeRows node field).Sound := by
  have hrows : (s.removeRows node field).properties.Sublist s.properties := List.filter_sublist
  have hnumbers : (s.removeRows node field).rowNumbers.Sublist s.rowNumbers := hrows.filterMap _
  exact ⟨hs.native, hs.nodes, hs.ids, hs.handles, fun r hr => hs.rows r (hrows.subset hr),
    fun r hr => hs.grounded r (hrows.subset hr), hs.increasing.sublist hnumbers,
    fun i hi => hs.numbered i (hnumbers.subset hi)⟩

/-- The next row number is the one after the last that was given out, if it is a number of a row. -/
theorem nextRowId_eq_ite (hs : s.Sound) : s.nextRowId =
    if fitsLong (s.lastRowId + 1) then .ok (s.lastRowId + 1)
    else .error (.storage .rowsExhausted) := by
  -- No row number is greater than the last one that was given out.
  have hfold : ∀ l : List Int, (∀ i ∈ l, i ≤ s.lastRowId) →
      l.foldl max s.lastRowId = s.lastRowId := by
    intro l hl
    induction l with
    | nil => rfl
    | cons i l ih =>
      rw [List.foldl_cons, Int.max_eq_left (hl i (List.mem_cons_self ..))]
      exact ih fun j hj => hl j (List.mem_cons_of_mem i hj)
  rw [Store.nextRowId]
  simp only [show (s.properties.filterMap fun r => r.id.whole?) = s.rowNumbers from rfl,
    hfold _ hs.numbered]

/-- The next row number follows the last one that was given out. -/
theorem nextRowId_eq (hs : s.Sound) {number : Int} (h : s.nextRowId = .ok number) :
    number = s.lastRowId + 1 := by
  rw [hs.nextRowId_eq_ite] at h
  by_cases hfits : fitsLong (s.lastRowId + 1) = true
  · rw [if_pos hfits] at h
    exact (Except.ok.inj h).symm
  · rw [if_neg hfits] at h
    cases h

theorem hasNode_iff (s : Store) (id : NodeId) :
    Edit.hasNode s id = true ↔ ∃ n ∈ s.nodes, n.id = .known id := by
  simp [Edit.hasNode]

/-- A row of inserted nodes under the next number keeps the invariant. -/
theorem addRow (hs : s.Sound) (now : Int) {number : Int} {node field : NodeId} (raw : String)
    (order : Int) (hnode : Edit.hasNode s node = true) (hfield : Edit.hasNode s field = true)
    (hnext : s.nextRowId = .ok number) :
    (s.addRow number (newRow now number node field raw order)).Sound := by
  have hnumber := hs.nextRowId_eq hnext
  have hnumbers : (s.addRow number (newRow now number node field raw order)).rowNumbers =
      s.rowNumbers ++ [number] := by
    rw [rowNumbers, Store.addRow, List.filterMap_append]
    rfl
  refine ⟨hs.native, hs.nodes, hs.ids, hs.handles, ?_, ?_, ?_, ?_⟩
  · intro r hr
    rcases List.mem_append.mp hr with hold | hnew
    · exact hs.rows r hold
    · exact ⟨⟨number, node, field, raw, order, now, now⟩, List.mem_singleton.mp hnew⟩
  · intro r hr
    rcases List.mem_append.mp hr with hold | hnew
    · exact hs.grounded r hold
    · rw [List.mem_singleton.mp hnew]
      exact ⟨(hasNode_iff s node).mp hnode, (hasNode_iff s field).mp hfield⟩
  · rw [hnumbers, List.pairwise_append]
    refine ⟨hs.increasing, List.pairwise_singleton .., ?_⟩
    intro i hi j hj
    have hle := hs.numbered i hi
    rw [List.mem_singleton.mp hj]
    omega
  · intro i hi
    rw [hnumbers] at hi
    show i ≤ number
    rcases List.mem_append.mp hi with hold | hnew
    · have hle := hs.numbered i hold
      omega
    · exact Int.le_of_eq (List.mem_singleton.mp hnew)

/-- Different rows have different numbers. -/
theorem row_ids_nodup (hs : s.Sound) : (s.properties.map (·.id)).Nodup := by
  have hids : s.properties.map (·.id) = s.rowNumbers.map Cell.integer := by
    rw [rowNumbers, List.map_filterMap, ← List.filterMap_eq_map]
    refine List.filterMap_congr fun r hr => ?_
    obtain ⟨p, rfl⟩ := hs.rows r hr
    rfl
  rw [hids]
  refine List.Nodup.map (fun i j h => Cell.integer.inj h) ?_
  exact hs.increasing.imp fun h => by omega

end Sound

/-! ## Runs -/

/-- An elementary change keeps the invariant. -/
theorem Change.sound {s s' : Store} (h : Change s s') (hs : s.Sound) : s'.Sound := by
  cases h with
  | addNode now n valid free => exact hs.addNode (Edit.newRecord_sound now valid) free
  | setContent now id content => exact hs.updateNode (NodeRecord.setContent_amends now content) id
  | touch now id => exact hs.updateNode (NodeRecord.touch_amends now) id
  | bury now id => exact hs.updateNode (NodeRecord.bury_amends now) id
  | addRow now number node field raw order hnode hfield hnext =>
    exact hs.addRow now raw order hnode hfield hnext
  | removeRows node field => exact hs.removeRows node field

theorem Changes.sound {s s' : Store} (h : Changes s s') (hs : s.Sound) : s'.Sound := by
  induction h with
  | refl => exact hs
  | tail _ hstep ih => exact hstep.sound ih

/-- An edit that is a sequence of elementary changes leaves the store sound. -/
theorem Sound.after {s : Store} (hs : s.Sound) {α : Type} {e : Edit α}
    (he : Edit.Respects (Natively Changes) e) : (e.after s).Sound :=
  (he s hs.native).2.sound hs

/-- A run keeps the invariant. -/
theorem Sound.run {s : Store} (hs : s.Sound) (steps : List Step) : (s.run steps).Sound :=
  (run_changes hs.native steps).sound hs

/-- The store has given out row numbers in the meantime: the rows that it has got since have
greater numbers than any given out before. -/
structure Grows (s s' : Store) : Prop where
  lastRowId : s.lastRowId ≤ s'.lastRowId
  rows : ∀ r ∈ s'.properties, r ∈ s.properties ∨ ∃ i, r.id = .integer i ∧ s.lastRowId < i

theorem Grows.refl (s : Store) : Grows s s :=
  ⟨Int.le_refl _, fun _ hr => Or.inl hr⟩

theorem Grows.trans {a b c : Store} (hab : Grows a b) (hbc : Grows b c) : Grows a c := by
  refine ⟨Int.le_trans hab.lastRowId hbc.lastRowId, fun r hr => ?_⟩
  rcases hbc.rows r hr with hb | ⟨i, hi, hlt⟩
  · exact hab.rows r hb
  · exact Or.inr ⟨i, hi, Int.lt_of_le_of_lt hab.lastRowId hlt⟩

theorem Change.grows {s s' : Store} (h : Change s s') (hs : s.Sound) : Grows s s' := by
  cases h with
  | addRow now number node field raw order _ _ hnext =>
    have hnumber := hs.nextRowId_eq hnext
    refine ⟨?_, fun r hr => ?_⟩
    · show s.lastRowId ≤ number
      omega
    · rcases List.mem_append.mp hr with hold | hnew
      · exact Or.inl hold
      · rw [List.mem_singleton.mp hnew]
        exact Or.inr ⟨number, rfl, by omega⟩
  | removeRows node field => exact ⟨Int.le_refl _, fun r hr => Or.inl (List.mem_filter.mp hr).1⟩
  | _ => exact ⟨Int.le_refl _, fun r hr => Or.inl hr⟩

theorem Changes.grows {s s' : Store} (h : Changes s s') (hs : s.Sound) : Grows s s' := by
  induction h with
  | refl => exact Grows.refl s
  | tail hinit hstep ih => exact ih.trans (hstep.grows (Changes.sound hinit hs))

theorem Sound.grows_run {s : Store} (hs : s.Sound) (steps : List Step) : Grows s (s.run steps) :=
  (run_changes hs.native steps).grows hs

/-- The row numbers of a sound store are whole and at most the last one that was given out. -/
theorem Sound.row_id_le {s : Store} (hs : s.Sound) {r : PropertyRecord} (hr : r ∈ s.properties) :
    ∃ i, r.id = .integer i ∧ i ≤ s.lastRowId := by
  obtain ⟨p, rfl⟩ := hs.rows r hr
  exact ⟨p.id, rfl, hs.numbered p.id (List.mem_filterMap.mpr ⟨_, hr, rfl⟩)⟩

/-- Whatever is done to a fresh store, the invariant holds of it, rows are told apart by their
numbers, and a row that a step adds has a greater number than any given out up to then, so a greater
one than any row that has ever been there. -/
theorem run_empty_sound (before between : List Step) (step : Step) :
    (Store.empty.run before).Sound ∧
    ((Store.empty.run before).properties.map (·.id)).Nodup ∧
    ∀ r ∈ ((Store.empty.run (before ++ between)).step step).properties,
      r ∉ (Store.empty.run (before ++ between)).properties →
      ∃ i, r.id = .integer i ∧ (Store.empty.run (before ++ between)).lastRowId < i ∧
        ∀ old ∈ (Store.empty.run before).properties, ∃ j, old.id = .integer j ∧ j < i := by
  have hbefore := empty_sound.run before
  have hlater := empty_sound.run (before ++ between)
  refine ⟨hbefore, hbefore.row_ids_nodup, fun r hr hnew => ?_⟩
  rcases (hlater.grows_run [step]).rows r hr with hold | ⟨i, hi, hlt⟩
  · exact absurd hold hnew
  · refine ⟨i, hi, hlt, fun old hold => ?_⟩
    obtain ⟨j, hj, hle⟩ := hbefore.row_id_le hold
    have hmono := (hbefore.grows_run between).lastRowId
    rw [← run_append] at hmono
    exact ⟨j, hj, by omega⟩

end Store

end TagGraph
