import TagGraph.Proofs.Field.Writing

/-!
# Places of rows

Rows stand by place and number (`Property.precedes`). The next free place of a field is one behind
its last row (`Store.Sound.nextOrder_eq`), so that a row that is added there stands behind all
others (`Store.Sound.fieldRecords_addRow`).
-/

namespace TagGraph

/-- Whether a row comes in front of another one or at its place. -/
def Property.precedes (p q : Property) : Bool :=
  p.order < q.order || p.order == q.order && p.id ≤ q.id

namespace Property

theorem precedes_iff {p q : Property} :
    p.precedes q = true ↔ p.order < q.order ∨ p.order = q.order ∧ p.id ≤ q.id := by
  simp [precedes]

theorem precedes_trans {p q r : Property} (hpq : p.precedes q = true) (hqr : q.precedes r = true) :
    p.precedes r = true := by
  rw [precedes_iff] at *
  omega

theorem precedes_total (p q : Property) : (p.precedes q || q.precedes p) = true := by
  rw [Bool.or_eq_true, precedes_iff, precedes_iff]
  omega

end Property

namespace Store

theorem rowPrecedes_record (p q : Property) : rowPrecedes p.record q.record = p.precedes q := by
  show ((compare p.order q.order).then (compare p.id q.id) != .gt) = _
  rw [Bool.eq_iff_iff, Property.precedes_iff, bne_iff_ne]
  rcases Int.lt_trichotomy p.order q.order with hlt | heq | hgt
  · simp [Int.compare_eq_lt.mpr hlt, hlt]
  · simp [heq, Int.compare_ne_gt]
  · have hnot : ¬ (p.order < q.order ∨ p.order = q.order ∧ p.id ≤ q.id) := by omega
    simp [Int.compare_eq_gt.mpr hgt, hnot]

/-- Rows in order are the stored ones of the rows in order. -/
theorem inOrder_records (l : List Property) :
    inOrder (l.map Property.record) = (l.mergeSort Property.precedes).map Property.record :=
  (List.map_mergeSort fun p _ q _ => (rowPrecedes_record p q).symm).symm

theorem pairwise_mergeSort_precedes : ∀ l : List Property,
    (l.mergeSort Property.precedes).Pairwise fun p q => p.precedes q = true :=
  List.pairwise_mergeSort (fun _ _ _ => Property.precedes_trans) Property.precedes_total

/-- Rows of which no two stand at one place with one number have one order only. -/
theorem mergeSort_precedes_eq {l sorted : List Property}
    (hapart : ∀ p ∈ l, ∀ q ∈ l, p.order = q.order → p.id = q.id → p = q) (hperm : sorted.Perm l)
    (hsorted : sorted.Pairwise fun p q => p.precedes q = true) :
    l.mergeSort Property.precedes = sorted := by
  have hsort : (l.mergeSort Property.precedes).Perm l := List.mergeSort_perm _ _
  refine List.Perm.eq_of_pairwise (fun p q hp hq hpq hqp => ?_) (pairwise_mergeSort_precedes l)
    hsorted (hsort.trans hperm.symm)
  rw [Property.precedes_iff] at hpq hqp
  exact hapart p (hsort.mem_iff.mp hp) q (hperm.mem_iff.mp hq) (by omega) (by omega)

/-- A row whose place is behind those of all others stands last. -/
theorem inOrder_concat {l : List Property} {last : Property} (hids : (l.map (·.id)).Nodup)
    (hlast : ∀ p ∈ l, p.order < last.order) :
    inOrder (l.map Property.record ++ [last.record]) =
      inOrder (l.map Property.record) ++ [last.record] := by
  have hsort : (l ++ [last]).mergeSort Property.precedes =
      l.mergeSort Property.precedes ++ [last] := by
    refine mergeSort_precedes_eq ?_ ((List.mergeSort_perm l _).append_right _) ?_
    · intro p hp q hq horder hid
      rcases List.mem_append.mp hp with hp | hp <;> rcases List.mem_append.mp hq with hq | hq
      · exact List.inj_on_of_nodup_map hids hp hq hid
      · have hlt := hlast p hp
        rw [List.mem_singleton.mp hq] at horder
        omega
      · have hlt := hlast q hq
        rw [List.mem_singleton.mp hp] at horder
        omega
      · exact (List.mem_singleton.mp hp).trans (List.mem_singleton.mp hq).symm
    · rw [List.pairwise_append]
      refine ⟨pairwise_mergeSort_precedes l, List.pairwise_singleton _ _, fun p hp q hq => ?_⟩
      obtain rfl := List.mem_singleton.mp hq
      exact Property.precedes_iff.mpr (Or.inl (hlast p (List.mem_mergeSort.mp hp)))
  have hmap : l.map Property.record ++ [last.record] = (l ++ [last]).map Property.record := by
    rw [List.map_append, List.map_singleton]
  rw [hmap, inOrder_records, inOrder_records, hsort, List.map_append, List.map_singleton]

/-- Some rows in order are those among all rows in order. -/
theorem mergeSort_precedes_filter {l : List Property} (hids : (l.map (·.id)).Nodup)
    (meant : Property → Bool) :
    (l.filter meant).mergeSort Property.precedes =
      (l.mergeSort Property.precedes).filter meant := by
  refine mergeSort_precedes_eq (fun p hp q hq _ hid => ?_) ((List.mergeSort_perm l _).filter meant)
    ((pairwise_mergeSort_precedes l).filter meant)
  exact List.inj_on_of_nodup_map hids (List.mem_filter.mp hp).1 (List.mem_filter.mp hq).1 hid

namespace Sound

variable {s : Store}

/-- Stored rows stand for rows of fields with different numbers. -/
theorem exists_rows_nodup (hs : s.Sound) (meant : PropertyRecord → Bool) :
    ∃ l : List Property, s.properties.filter meant = l.map Property.record ∧
      (l.map (·.id)).Nodup := by
  obtain ⟨l, hl⟩ : ∃ l : List Property, s.properties.filter meant = l.map Property.record :=
    hs.exists_rows fun r hr => (List.mem_filter.mp hr).1
  refine ⟨l, hl, ?_⟩
  have hstored := hs.row_ids_nodup.sublist ((List.filter_sublist (p := meant)).map _)
  rw [hl, List.map_map] at hstored
  refine List.Nodup.of_map Cell.integer ?_
  rwa [List.map_map]

/-- The rows of a field stand by place and number, strictly. -/
theorem pairwise_fieldRowsOf (hs : s.Sound) (node field : NodeId) :
    (s.fieldRowsOf node field).Pairwise fun p q =>
      p.order < q.order ∨ p.order = q.order ∧ p.id < q.id := by
  obtain ⟨l, hl, hids⟩ := hs.exists_rows_nodup fun r =>
    r.nodeId == .known node && r.fieldId == .known field
  have hrows : s.fieldRowsOf node field = l.mergeSort Property.precedes := by
    refine List.map_injective_iff.mpr Property.record_injective ?_
    rw [hs.fieldRowsOf_records, fieldRecords, hl, inOrder_records]
  rw [hrows]
  have hsorted : ((l.mergeSort Property.precedes).map (·.id)).Nodup :=
    ((List.mergeSort_perm l _).map _).nodup_iff.mpr hids
  have hapart : (l.mergeSort Property.precedes).Pairwise fun p q => p.id ≠ q.id :=
    List.pairwise_map.mp hsorted
  apply List.Pairwise.imp _ ((pairwise_mergeSort_precedes l).and hapart)
  intro p q h
  obtain ⟨hprecedes, hid⟩ := h
  rw [Property.precedes_iff] at hprecedes
  omega

/-- The next place is one behind the greatest, if that is a place. -/
theorem nextOrder_eq (hs : s.Sound) (node field : NodeId) : s.nextOrder node field =
    match ((s.fieldRowsOf node field).map (·.order)).max? with
    | none => .ok 0
    | some last => if fitsLong (last + 1) then .ok (last + 1)
        else .error (.storage .orderExhausted) := by
  have horders : ((s.fieldRecords node field).map (·.order)).filter (!·.isNull) =
      ((s.fieldRowsOf node field).map (·.order)).map Cell.integer := by
    rw [← hs.fieldRowsOf_records, List.map_map, List.map_map]
    refine List.filter_eq_self.mpr fun c hc => ?_
    obtain ⟨p, -, rfl⟩ := List.mem_map.mp hc
    rfl
  have hgreatest : ∀ is : List Int, Cell.greatest (is.map .integer) = is.max?.map .integer := by
    intro is
    cases is with
    | nil => rfl
    | cons i is =>
      show some ((is.map Cell.integer).foldl Cell.max (.integer i)) =
        some (.integer (is.foldl max i))
      induction is generalizing i with
      | nil => rfl
      | cons j is ih =>
        rw [List.map_cons, List.foldl_cons, List.foldl_cons, Cell.max_integer]
        exact ih _
  rw [nextOrder, horders, hgreatest]
  cases ((s.fieldRowsOf node field).map (·.order)).max? <;> rfl

/-- The next place is behind all rows. -/
theorem order_lt_of_nextOrder (hs : s.Sound) {node field : NodeId} {place : Int}
    (h : s.nextOrder node field = .ok place) : ∀ p ∈ s.fieldRowsOf node field, p.order < place := by
  intro p hp
  rw [hs.nextOrder_eq] at h
  have hmem : p.order ∈ (s.fieldRowsOf node field).map (·.order) := List.mem_map_of_mem hp
  cases hmax : ((s.fieldRowsOf node field).map (·.order)).max? with
  | none =>
    rw [List.max?_eq_none_iff] at hmax
    rw [hmax] at hmem
    cases hmem
  | some last =>
    have hle := (List.max?_eq_some_iff.mp hmax).2 _ hmem
    rw [hmax] at h
    simp only at h
    by_cases hfits : fitsLong (last + 1) = true
    · rw [if_pos hfits] at h
      obtain rfl := Except.ok.inj h
      omega
    · rw [if_neg hfits] at h
      cases h

/-- A row that is added at the next place stands behind the others of its field. -/
theorem fieldRecords_addRow (hs : s.Sound) {node field : NodeId} {place : Int}
    (hplace : s.nextOrder node field = .ok place) (now number : Int) (raw : String) :
    (s.addRow number (newRow now number node field raw place)).fieldRecords node field =
      s.fieldRecords node field ++ [newRow now number node field raw place] := by
  have hnew : newRow now number node field raw place =
      (⟨number, node, field, raw, place, now, now⟩ : Property).record := rfl
  obtain ⟨l, hl, hids⟩ := hs.exists_rows_nodup fun r =>
    r.nodeId == .known node && r.fieldId == .known field
  have hlast : ∀ p ∈ l, p.order < place := by
    intro p hp
    refine hs.order_lt_of_nextOrder hplace p ?_
    rw [← List.mem_map_of_injective Property.record_injective, hs.fieldRowsOf_records, fieldRecords,
      mem_inOrder, hl]
    exact List.mem_map_of_mem hp
  have hlocated : [newRow now number node field raw place].filter (fun r =>
      r.nodeId == .known node && r.fieldId == .known field) =
        [newRow now number node field raw place] :=
    List.filter_eq_self.mpr fun r hr => by simp [List.mem_singleton.mp hr, newRow]
  rw [fieldRecords, Store.addRow, List.filter_append, hlocated, hl, hnew, inOrder_concat hids hlast,
    fieldRecords, hl]

end Sound

end Store

namespace Edit

open Store

variable {s s' : Store}

/-- A row without a given place is added at the next one. -/
theorem insertProperty_next (hs : s.foreign = none) {now : Int} {node field : NodeId} {raw : String}
    {p : Property} (h : insertProperty now node field raw none s = .ok p s') :
    ∃ number place, s.nextOrder node field = .ok place ∧
      s' = s.addRow number (newRow now number node field raw place) := by
  rw [insertProperty_none] at h
  obtain ⟨place, hplace, h⟩ := (Reads.ask _).ok_of_bind h
  obtain ⟨number, -, hadd⟩ := insertProperty_some_ok hs h
  exact ⟨number, place, ask_ok hplace, hadd⟩

/-- A supertag that is new to a node is assigned behind those that it has, and otherwise nothing
changes. -/
theorem attachSupertag_rows (hs : s.Sound) {now : Int} {node supertag field : NodeId}
    {added : Bool} (hfield : s.Holds (.known field) (some Handle.fieldSupertag))
    (h : attachSupertag now node supertag s = .ok added s') :
    added = false ∧ s' = s ∨
      added = true ∧ ∃ r, s'.fieldRecords node field = s.fieldRecords node field ++ [r] := by
  obtain ⟨n, -, h⟩ := (requireLive_reads node).ok_of_bind h
  obtain ⟨found, hfound, h⟩ := (requireField_reads _).ok_of_bind h
  obtain ⟨rows, -, h⟩ := (Reads.ask _).ok_of_bind h
  have hholds := hs.holds_of_found isName_fieldSupertag (requireField_ok hfound)
  obtain rfl := StoredId.known.inj (hs.holds_unique hfield hholds)
  by_cases hrefers : refersTo rows supertag
  · rw [if_pos hrefers] at h
    obtain ⟨rfl, rfl⟩ := EStateM.Result.ok.inj h
    exact Or.inl ⟨rfl, rfl⟩
  · rw [if_neg hrefers] at h
    obtain ⟨raw, -, h⟩ := (encode_reads _).ok_of_bind h
    obtain ⟨p, t, hadd, h⟩ := ok_of_bind h
    obtain ⟨_, u, htouch, h⟩ := ok_of_bind h
    obtain ⟨rfl, rfl⟩ := EStateM.Result.ok.inj h
    obtain ⟨number, place, hplace, rfl⟩ := insertProperty_next hs.native hadd
    refine Or.inr ⟨rfl, newRow now number node found.id raw place, ?_⟩
    have hproperties := touchNode_properties
      (s := s.addRow number (newRow now number node found.id raw place)) now node
    rw [after_of_ok htouch] at hproperties
    rw [← hs.fieldRecords_addRow hplace, fieldRecords, fieldRecords, hproperties]

theorem attachSupertag_prefix (hs : s.Sound) {now : Int} {node supertag field : NodeId}
    {added : Bool} (hfield : s.Holds (.known field) (some Handle.fieldSupertag))
    (h : attachSupertag now node supertag s = .ok added s') :
    s.fieldRecords node field <+: s'.fieldRecords node field := by
  rcases attachSupertag_rows hs hfield h with ⟨-, rfl⟩ | ⟨-, r, hrows⟩
  · exact List.prefix_refl _
  · rw [hrows]
    exact List.prefix_append _ _

end Edit

end TagGraph
