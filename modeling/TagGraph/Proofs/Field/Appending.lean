import TagGraph.Proofs.Field.Frame

/-!
# Adding references

A write to a field of type `nodes` adds its references one by one, each in a row of its own. The
first row stands at the place that the write asks for or else behind the last row
(`Store.placeFor`), and as many rows are added as there are numbers and places for
(`Store.room`). A write that asks for more is refused, but the rows before the one that had no room
stay (`Store.appendReferences_run`).
-/

namespace TagGraph

/-- The stored text of a reference. -/
def PropertyValue.nodeText (id : NodeId) : String :=
  (tagged "node" (idJson id)).render

theorem PropertyValue.encode?_node (id : NodeId) : (node id).encode? = some (nodeText id) := rfl

theorem PropertyValue.decode?_nodeText (id : NodeId) : decode? (nodeText id) = some (.node id) :=
  (decode?_of_encode? (encode?_node id)).trans (if_pos (Nat.zero_le 126))

namespace Store

/-! ## Room for references -/

/-- The place behind the last row of a field of a node, or the first one. -/
def nextPlace (s : Store) (node field : NodeId) : Int :=
  ((s.fieldRowsOf node field).map (·.order)).max?.elim 0 (· + 1)

/-- The place of the first row that a write adds. -/
def placeFor (s : Store) (node field : NodeId) (order : Option Int) : Int :=
  order.getD (s.nextPlace node field)

/-- For how many rows from a place on there are numbers and places. -/
def room (s : Store) (first : Int) : Nat :=
  if fitsLong first then min (2 ^ 63 - 1 - s.lastRowId).toNat (2 ^ 63 - first).toNat else 0

/-- There is room for some references. Where the places are given, another one must follow the
last. -/
def HasRoom (s : Store) (order : Option Int) (first : Int) (count : Nat) : Prop :=
  count ≤ s.room first ∧ (order.isSome → 0 < count → first + count < 2 ^ 63)

/-- Where no place is given, none is wrong. -/
theorem fitsLong_of_none : ∀ place : Int, none = some place → fitsLong place = true :=
  fun _ h => nomatch h

/-- If the place behind a given one is a place, so is any that is then given. -/
theorem fitsLong_next {s : Store} {node field : NodeId} {order : Option Int}
    (horder : ∀ place, order = some place → fitsLong place = true)
    (h : ¬ (order.isSome ∧ ¬ s.placeFor node field order + 1 < 2 ^ 63)) :
    ∀ place, order.map (· + 1) = some place → fitsLong place = true := by
  intro next hnext
  obtain ⟨place, rfl, rfl⟩ := Option.map_eq_some_iff.mp hnext
  have hfits := horder place rfl
  have hroom : place + 1 < 2 ^ 63 := by_contra fun hnot => h ⟨rfl, hnot⟩
  simp only [fitsLong, Bool.and_eq_true, decide_eq_true_eq] at hfits ⊢
  omega

theorem hasRoom_zero (s : Store) (order : Option Int) (first : Int) : s.HasRoom order first 0 :=
  ⟨Nat.zero_le _, fun _ h => absurd h (Nat.lt_irrefl 0)⟩

/-! ## What is added -/

/-- Rows of a field of a node for references, in their order and at consecutive places. -/
structure RowsFor (node field : NodeId) (first : Int) (references : List NodeId)
    (rows : List Property) : Prop where
  length : rows.length = references.length
  located : ∀ p ∈ rows, p.nodeId = node ∧ p.fieldId = field ∧ fitsLong p.order
  placed : ∀ (i : Nat) (p : Property), rows[i]? = some p → p.order = first + i
  values : rows.map (fun p => PropertyValue.decode? p.value) =
    references.map fun reference => some (.node reference)

/-- A later store has exactly one further row for each reference. -/
def Appended (s s' : Store) (node field : NodeId) (first : Int) (references : List NodeId) : Prop :=
  ∃ rows, s'.properties = s.properties ++ rows.map Property.record ∧
    RowsFor node field first references rows

/-- The store with a row for a reference, under the next number. -/
def addReference (s : Store) (now : Int) (node field : NodeId) (place : Int) (reference : NodeId) :
    Store :=
  s.addRow (s.lastRowId + 1)
    (newRow now (s.lastRowId + 1) node field (PropertyValue.nodeText reference) place)

/-- The store with rows for references, at consecutive places and under the next numbers. -/
def addReferences (s : Store) (now : Int) (node field : NodeId) : (first : Int) → List NodeId →
    Store
  | _, [] => s
  | first, reference :: rest =>
    (s.addReference now node field first reference).addReferences now node field (first + 1) rest

variable {s : Store} {now : Int} {node field : NodeId} {first : Int}

theorem RowsFor.nil (node field : NodeId) (first : Int) : RowsFor node field first [] [] :=
  ⟨rfl, fun _ h => (nomatch h), fun _ _ h => (nomatch h), rfl⟩

theorem RowsFor.append {references more : List NodeId} {rows added : List Property}
    (h : RowsFor node field first references rows)
    (h' : RowsFor node field (first + references.length) more added) :
    RowsFor node field first (references ++ more) (rows ++ added) where
  length := by rw [List.length_append, List.length_append, h.length, h'.length]
  located := List.forall_mem_append.mpr ⟨h.located, h'.located⟩
  placed i p hp := by
    rcases Nat.lt_or_ge i rows.length with hi | hi
    · rw [List.getElem?_append_left hi] at hp
      exact h.placed i p hp
    · rw [List.getElem?_append_right hi] at hp
      have hplace := h'.placed (i - rows.length) p hp
      have hlength := h.length
      omega
  values := by rw [List.map_append, List.map_append, h.values, h'.values]

theorem Appended.trans {t u : Store} {references more : List NodeId}
    (h : s.Appended t node field first references)
    (h' : t.Appended u node field (first + references.length) more) :
    s.Appended u node field first (references ++ more) := by
  obtain ⟨rows, hrows, hfor⟩ := h
  obtain ⟨added, hadded, hfor'⟩ := h'
  exact ⟨rows ++ added, by rw [hadded, hrows, List.map_append, List.append_assoc],
    hfor.append hfor'⟩

/-- Rows for some references are seen in the store. -/
theorem Appended.properties_ne {s' : Store} {references : List NodeId}
    (h : s.Appended s' node field first references) (hsome : references ≠ []) :
    s'.properties ≠ s.properties := by
  obtain ⟨rows, hproperties, hrows⟩ := h
  intro hsame
  have hempty : rows = [] :=
    List.map_eq_nil_iff.mp (List.append_right_eq_self.mp (hproperties.symm.trans hsame))
  have hlength := hrows.length
  rw [hempty] at hlength
  exact hsome (List.length_eq_zero_iff.mp hlength.symm)

theorem addReference_appended (s : Store) (now : Int) (node field : NodeId) (reference : NodeId)
    (hfits : fitsLong first = true) :
    s.Appended (s.addReference now node field first reference) node field first [reference] := by
  refine ⟨[⟨s.lastRowId + 1, node, field, PropertyValue.nodeText reference, first, now, now⟩], rfl,
    rfl, List.forall_mem_singleton.mpr ⟨rfl, rfl, hfits⟩, fun i p hp => ?_, ?_⟩
  · cases i with
    | zero =>
      obtain rfl := Option.some.inj hp
      exact (Int.add_zero first).symm
    | succ i => cases hp
  · rw [List.map_singleton, List.map_singleton, PropertyValue.decode?_nodeText]

theorem addReferences_nodes : ∀ (references : List NodeId) (s : Store) (first : Int),
    (s.addReferences now node field first references).nodes = s.nodes
  | [], _, _ => rfl
  | _ :: rest, _, _ => addReferences_nodes rest _ _

theorem room_pos_iff : 0 < s.room first ↔ fitsLong first = true ∧ s.HasNumbers 1 := by
  unfold room HasNumbers
  by_cases hfits : fitsLong first = true
  · rw [if_pos hfits, iff_true_intro hfits, true_and]
    simp only [fitsLong, Bool.and_eq_true, decide_eq_true_eq] at hfits
    omega
  · rw [if_neg hfits]
    exact iff_of_false (Nat.lt_irrefl 0) fun h => hfits h.1

/-- Behind the last place there is no room. -/
theorem room_of_not_lt (h : ¬ first < 2 ^ 63) : s.room first = 0 := by
  refine Nat.eq_zero_of_not_pos fun hpos => h ?_
  have hfits := (room_pos_iff.mp hpos).1
  simp only [fitsLong, Bool.and_eq_true, decide_eq_true_eq] at hfits
  exact hfits.2

/-- A write that there is only some room for adds a row. -/
theorem take_room_ne_nil {order : Option Int} {references : List NodeId} (hpos : 0 < s.room first)
    (hroom : ¬ s.HasRoom order first references.length) :
    references.take (s.room first) ≠ [] := by
  intro hnil
  rcases List.take_eq_nil_iff.mp hnil with hnone | rfl
  · exact Nat.ne_of_gt hpos hnone
  · exact hroom (hasRoom_zero s order first)

/-- A row takes one number and one place of those that are left. -/
theorem room_addReference (now : Int) (node field reference : NodeId) (h : 0 < s.room first) :
    (s.addReference now node field first reference).room (first + 1) + 1 = s.room first := by
  have hcount : (s.addReference now node field first reference).lastRowId = s.lastRowId + 1 := rfl
  obtain ⟨hfits, hnumbers⟩ := room_pos_iff.mp h
  rw [room, room, hcount, if_pos hfits]
  unfold HasNumbers at hnumbers
  simp only [fitsLong, Bool.and_eq_true, decide_eq_true_eq] at hfits ⊢
  by_cases hlast : first + 1 < 2 ^ 63
  · rw [if_pos ⟨by omega, hlast⟩]
    omega
  · rw [if_neg fun h => hlast h.2]
    omega

/-- As far as there is room, each reference gets its row. -/
theorem addReferences_appended (now : Int) (node field : NodeId) : ∀ {references : List NodeId}
    {s : Store} {first : Int}, references.length ≤ s.room first →
    s.Appended (s.addReferences now node field first references) node field first references
  | [], s, first, _ => ⟨[], (List.append_nil _).symm, .nil node field first⟩
  | reference :: rest, s, first, h => by
    have hpos : 0 < s.room first := Nat.lt_of_lt_of_le (Nat.succ_pos _) h
    have hroom := room_addReference now node field reference hpos
    rw [← hroom] at h
    exact (addReference_appended s now node field reference (room_pos_iff.mp hpos).1).trans
      (addReferences_appended now node field (Nat.le_of_succ_le_succ h))

/-- A store in which rows can be added to a field of a node. -/
structure TakesRows (s : Store) (node field : NodeId) : Prop where
  sound : s.Sound
  counted : s.Counted
  node : Edit.hasNode s node = true
  field : Edit.hasNode s field = true

/-- The next place is given out if it is one. -/
theorem Sound.nextOrder_eq_nextPlace (hs : s.Sound) (node field : NodeId) :
    s.nextOrder node field = if fitsLong (s.nextPlace node field)
      then .ok (s.nextPlace node field) else .error (.storage .orderExhausted) := by
  rw [hs.nextOrder_eq, nextPlace]
  cases ((s.fieldRowsOf node field).map (·.order)).max? <;> rfl

namespace TakesRows

variable (h : s.TakesRows node field) (reference : NodeId)
include h

theorem nextRowId_eq (hroom : 0 < s.room first) : s.nextRowId = .ok (s.lastRowId + 1) :=
  h.sound.nextRowId_of_lt h.counted.nonneg (room_pos_iff.mp hroom).2

theorem nextOrder_eq (hroom : 0 < s.room (s.nextPlace node field)) :
    s.nextOrder node field = .ok (s.nextPlace node field) := by
  rw [h.sound.nextOrder_eq_nextPlace, if_pos (room_pos_iff.mp hroom).1]

theorem addReference (now : Int) (hroom : 0 < s.room first) :
    (s.addReference now node field first reference).TakesRows node field where
  sound := h.sound.addRow now _ first h.node h.field (h.nextRowId_eq hroom)
  counted := ⟨Int.le_add_one h.counted.nonneg, (room_pos_iff.mp hroom).2⟩
  node := h.node
  field := h.field

/-- Behind a row at the next place comes the place after it. -/
theorem nextPlace_addReference (now : Int) (hroom : 0 < s.room (s.nextPlace node field)) :
    (s.addReference now node field (s.nextPlace node field) reference).nextPlace node field =
      s.nextPlace node field + 1 := by
  have hnext := h.nextOrder_eq hroom
  let row : Property := ⟨s.lastRowId + 1, node, field, PropertyValue.nodeText reference,
    s.nextPlace node field, now, now⟩
  have hrows : (s.addReference now node field (s.nextPlace node field) reference).fieldRowsOf
      node field = s.fieldRowsOf node field ++ [row] := by
    refine List.map_injective_iff.mpr Property.record_injective ?_
    rw [(h.addReference reference now hroom).sound.fieldRowsOf_records, List.map_append,
      h.sound.fieldRowsOf_records]
    exact h.sound.fieldRecords_addRow hnext now _ _
  have hmax : ((s.fieldRowsOf node field ++ [row]).map (·.order)).max? =
      some (s.nextPlace node field) := by
    rw [List.max?_eq_some_iff, List.map_append]
    refine ⟨List.mem_append_right _ (List.mem_singleton_self _), fun place hplace => ?_⟩
    rcases List.mem_append.mp hplace with hold | hnew
    · obtain ⟨p, hp, rfl⟩ := List.mem_map.mp hold
      exact Int.le_of_lt (h.sound.order_lt_of_nextOrder hnext p hp)
    · exact Int.le_of_eq (List.mem_singleton.mp hnew)
  rw [nextPlace, hrows, hmax]
  rfl

/-- The further rows of a write start at the place after its first row. -/
theorem placeFor_addReference (now : Int) (order : Option Int)
    (hroom : 0 < s.room (s.placeFor node field order)) :
    (s.addReference now node field (s.placeFor node field order) reference).placeFor node field
      (order.map (· + 1)) = s.placeFor node field order + 1 := by
  cases order with
  | some place => rfl
  | none => exact h.nextPlace_addReference reference now hroom

theorem texts_addReference (now : Int) (hroom : 0 < s.room (s.nextPlace node field)) :
    (s.addReference now node field (s.nextPlace node field) reference).texts node field =
      s.texts node field ++ [PropertyValue.nodeText reference] := by
  rw [texts, texts, Store.addReference, h.sound.fieldRecords_addRow (h.nextOrder_eq hroom),
    List.map_append]
  rfl

end TakesRows

/-- What rows behind the last one of a field leave. -/
structure Extended (s s' : Store) (node field : NodeId) (references : List NodeId) : Prop where
  rows : s'.TakesRows node field
  texts : s'.texts node field = s.texts node field ++ references.map PropertyValue.nodeText
  place : s'.nextPlace node field = s.nextPlace node field + references.length
  count : s'.lastRowId = s.lastRowId + references.length

theorem TakesRows.extended_addReference (h : s.TakesRows node field) (now : Int)
    (reference : NodeId) (hroom : 0 < s.room (s.nextPlace node field)) :
    s.Extended (s.addReference now node field (s.nextPlace node field) reference) node field
      [reference] where
  rows := h.addReference reference now hroom
  texts := h.texts_addReference reference now hroom
  place := h.nextPlace_addReference reference now hroom
  count := rfl

theorem Extended.trans {t u : Store} {references more : List NodeId}
    (h : s.Extended t node field references) (h' : t.Extended u node field more) :
    s.Extended u node field (references ++ more) where
  rows := h'.rows
  texts := by rw [h'.texts, h.texts, List.map_append, List.append_assoc]
  place := by rw [h'.place, h.place, List.length_append, Int.natCast_add, Int.add_assoc]
  count := by rw [h'.count, h.count, List.length_append, Int.natCast_add, Int.add_assoc]

/-- As far as there is room, the rows of references stand behind the others. -/
theorem TakesRows.extended_addReferences (now : Int) : ∀ {references : List NodeId} {s : Store}
    {first : Int}, s.TakesRows node field → first = s.nextPlace node field →
    references.length ≤ s.room first →
    s.Extended (s.addReferences now node field first references) node field references
  | [], s, _, h, _, _ => ⟨h, (List.append_nil _).symm, (Int.add_zero _).symm, (Int.add_zero _).symm⟩
  | reference :: rest, s, _, h, rfl, hroom => by
    have hpos : 0 < s.room (s.nextPlace node field) := Nat.lt_of_lt_of_le (Nat.succ_pos _) hroom
    rw [← room_addReference now node field reference hpos] at hroom
    have hfirst := h.extended_addReference now reference hpos
    exact hfirst.trans (extended_addReferences now hfirst.rows
      (h.nextPlace_addReference reference now hpos).symm (Nat.le_of_succ_le_succ hroom))

end Store

namespace Edit

open Store

variable {s : Store} {now : Int} {node field : NodeId}

/-! ## Adding references one by one -/

/-- A row is added while there is room for one. -/
theorem insertProperty_of_room (h : s.TakesRows node field) (now : Int) (raw : String)
    (order : Option Int) (hroom : 0 < s.room (s.placeFor node field order)) :
    ∃ p, insertProperty now node field raw order s = .ok p (s.addRow (s.lastRowId + 1)
      (newRow now (s.lastRowId + 1) node field raw (s.placeFor node field order))) := by
  have hnext := h.nextRowId_eq hroom
  cases order with
  | some place =>
    exact ⟨_, insertProperty_some_of h.sound.native h.node h.field hnext now raw place⟩
  | none =>
    rw [insertProperty_none, bind_of_ok (ask_of_ok (·.nextOrder node field) (h.nextOrder_eq hroom))]
    exact ⟨_, insertProperty_some_of h.sound.native h.node h.field hnext now raw _⟩

/-- Where there is no room for a row, none is added. -/
theorem insertProperty_of_no_room (h : s.TakesRows node field) (now : Int) (raw : String)
    {order : Option Int} (horder : ∀ place, order = some place → fitsLong place = true)
    (hroom : s.room (s.placeFor node field order) = 0) :
    ∃ err, insertProperty now node field raw order s = .error err s := by
  have hfull : ∀ place, s.room place = 0 → fitsLong place = true → ∀ number,
      s.nextRowId ≠ .ok number := by
    intro place hnone hfits number hnext
    obtain ⟨rfl, hlt⟩ := h.sound.nextRowId_lt hnext
    exact Nat.lt_irrefl 0 (hnone ▸ room_pos_iff.mpr ⟨hfits, hlt⟩)
  cases hadd : insertProperty now node field raw order s with
  | error err t => exact ⟨err, by rw [insertProperty_whole now node field raw order err t hadd]⟩
  | ok p t =>
    exfalso
    cases order with
    | some place =>
      obtain ⟨number, hnext, -⟩ := insertProperty_some_ok h.sound.native hadd
      exact hfull place hroom (horder place rfl) number hnext
    | none =>
      rw [insertProperty_none] at hadd
      obtain ⟨place, hplace, hadd⟩ := (Reads.ask _).ok_of_bind hadd
      obtain ⟨number, hnext, -⟩ := insertProperty_some_ok h.sound.native hadd
      have hplace := ask_ok hplace
      rw [h.sound.nextOrder_eq_nextPlace] at hplace
      by_cases hfits : fitsLong (s.nextPlace node field) = true
      · exact hfull _ hroom hfits number hnext
      · rw [if_neg hfits] at hplace
        cases hplace

/-- What a write does after the row of the first reference. -/
def appendRest (now : Int) (node field : NodeId) (order : Option Int) (rest : List NodeId) :
    Edit Unit :=
  match order with
  | none => appendReferences now node field none rest
  | some place =>
    if place + 1 < 2 ^ 63 then appendReferences now node field (some (place + 1)) rest
    else throw (.storage .orderOverflow)

theorem appendReferences_cons (order : Option Int) (reference : NodeId) (rest : List NodeId) :
    appendReferences now node field order (reference :: rest) s =
      (insertProperty now node field (PropertyValue.nodeText reference) order >>= fun _ =>
        appendRest now node field order rest) s := by
  conv_lhs => unfold appendReferences
  rw [bind_of_ok (encode_of (PropertyValue.encode?_node reference))]
  rfl

/-- The further references follow at the next place. Where the places are given there must be
one. -/
theorem appendRest_eq (s : Store) (now : Int) (node field : NodeId) (order : Option Int)
    (rest : List NodeId) :
    appendRest now node field order rest =
      if order.isSome ∧ ¬ s.placeFor node field order + 1 < 2 ^ 63
        then throw (.storage .orderOverflow)
        else appendReferences now node field (order.map (· + 1)) rest := by
  cases order with
  | none =>
    rw [if_neg fun hover => nomatch hover.1]
    rfl
  | some place =>
    have hplace : s.placeFor node field (some place) = place := rfl
    rw [hplace]
    by_cases hlast : place + 1 < 2 ^ 63
    · rw [if_neg fun hover => hover.2 hlast]
      exact if_pos hlast
    · rw [if_pos ⟨rfl, hlast⟩]
      exact if_neg hlast

/-- There is room for references if there is for the first one, and then for the rest. -/
theorem hasRoom_cons_iff (now : Int) {order : Option Int} (reference : NodeId) (count : Nat)
    (hroom : 0 < s.room (s.placeFor node field order)) :
    s.HasRoom order (s.placeFor node field order) (count + 1) ↔
      ¬ (order.isSome ∧ ¬ s.placeFor node field order + 1 < 2 ^ 63) ∧
        (s.addReference now node field (s.placeFor node field order) reference).HasRoom
          (order.map (· + 1)) (s.placeFor node field order + 1) count := by
  have hleft := room_addReference now node field reference hroom
  unfold HasRoom
  rw [Option.isSome_map, ← hleft]
  generalize s.placeFor node field order = first
  cases order with
  | none => simp
  | some place =>
    simp only [Option.isSome_some, true_and, forall_const, Decidable.not_not]
    push_cast
    omega

/-- As many references get rows as there is room for, and the write succeeds if there is room for
all. -/
theorem appendReferences_outcome (now : Int) : ∀ (references : List NodeId) {order : Option Int}
    {s : Store}, s.TakesRows node field →
    (∀ place, order = some place → fitsLong place = true) →
    (appendReferences now node field order references).after s =
      s.addReferences now node field (s.placeFor node field order)
        (references.take (s.room (s.placeFor node field order))) ∧
    (Succeeds (appendReferences now node field order references) s ↔
      s.HasRoom order (s.placeFor node field order) references.length)
  | [], order, s, _, _ => by
    rw [List.take_nil]
    exact ⟨rfl, iff_of_true (.pure () s) (hasRoom_zero s order _)⟩
  | reference :: rest, order, s, h, horder => by
    rcases Nat.eq_zero_or_pos (s.room (s.placeFor node field order)) with hnone | hpos
    · obtain ⟨err, hadd⟩ := insertProperty_of_no_room h now (PropertyValue.nodeText reference)
        horder hnone
      have herror : appendReferences now node field order (reference :: rest) s = .error err s := by
        rw [appendReferences_cons, bind_of_error hadd]
      rw [after_of_error herror, hnone]
      refine ⟨rfl, iff_of_false ?_ fun hroom => ?_⟩
      · rintro ⟨_, _, hok⟩
        cases hok.symm.trans herror
      · exact absurd hroom.1 (by rw [hnone]; exact Nat.not_succ_le_zero _)
    · obtain ⟨p, hadd⟩ :=
        insertProperty_of_room h now (PropertyValue.nodeText reference) order hpos
      have hcons : appendReferences now node field order (reference :: rest) s =
          appendRest now node field order rest
            (s.addReference now node field (s.placeFor node field order) reference) := by
        rw [appendReferences_cons, bind_of_ok hadd]
        rfl
      have hleft := room_addReference now node field reference hpos
      have hplace := h.placeFor_addReference reference now order hpos
      rw [List.length_cons, hasRoom_cons_iff now reference rest.length hpos, ← hleft,
        List.take_succ_cons, addReferences]
      unfold Succeeds after
      rw [hcons, appendRest_eq s]
      by_cases hover : order.isSome ∧ ¬ s.placeFor node field order + 1 < 2 ^ 63
      · -- The row at the last place leaves no place for another one.
        rw [if_pos hover, room_of_not_lt hover.2]
        refine ⟨rfl, iff_of_false ?_ fun hroom => hroom.1 hover⟩
        rintro ⟨_, _, hok⟩
        cases hok
      · rw [if_neg hover]
        obtain ⟨hafter, hsucceeds⟩ := appendReferences_outcome now rest
          (h.addReference reference now hpos) (fitsLong_next horder hover)
        rw [hplace] at hafter hsucceeds
        exact ⟨hafter, hsucceeds.trans (and_iff_right hover).symm⟩

/-! ## Writing to a field of type `nodes` -/

variable {n : NodeId} {name : String} {f : Node} {value : PropertyValue} {order : Option Int}

theorem setProperty_nodes (now : Int) (hadmits : s.Admits n name [value] f)
    (htype : s.fieldType? f.id = .ok (some .nodes)) (hvalue : value.conformsTo .nodes = true) :
    setProperty now n name value order s =
      (appendReferences now n f.id order value.referenced >>= fun _ => touchNode now n) s := by
  obtain ⟨found, hfound⟩ := hadmits.live
  unfold setProperty
  rw [bind_of_ok (requireLive_of hfound), bind_of_ok (requireField_of hadmits.found),
    bind_of_ok (ask_of_ok (·.fieldType? f.id) htype),
    bind_of_ok (checkTypes_of (by simpa using hvalue)),
    bind_of_ok (checkExtends_of hadmits.guarded)]
  rfl

/-- References that would close a cycle are refused before anything is written. -/
theorem setProperty_of_not_admits (now : Int) (order : Option Int) (hlive : s.IsLive n)
    (hfound : s.findLive? name = .ok (some f)) (htype : s.fieldType? f.id = .ok (some .nodes))
    (hvalue : value.conformsTo .nodes = true) (hnot : ¬ s.Admits n name [value] f) :
    ∃ err, setProperty now n name value order s = .error err s := by
  obtain ⟨found, hn⟩ := hlive
  have hchecked : setProperty now n name value order s =
      (checkExtends n f [value] >>= fun _ =>
        appendReferences now n f.id order value.referenced >>= fun _ => touchNode now n) s := by
    unfold setProperty
    rw [bind_of_ok (requireLive_of hn), bind_of_ok (requireField_of hfound),
      bind_of_ok (ask_of_ok (·.fieldType? f.id) htype),
      bind_of_ok (checkTypes_of (by simpa using hvalue))]
    rfl
  cases hguard : checkExtends n f [value] s with
  | ok _ t => exact absurd ⟨⟨found, hn⟩, hfound, checkExtends_ok hguard⟩ hnot
  | error err t =>
    have hsame := checkExtends_reads n f [value] s
    rw [after_of_error hguard] at hsame
    subst hsame
    exact ⟨err, hchecked.trans (bind_of_error hguard)⟩

end Edit

namespace Store

open Edit

variable {s s' : Store} {now : Int} {n : NodeId} {name : String} {f : Node} {value : PropertyValue}
  {order : Option Int}

theorem takesRows (hs : s.Sound) (hc : s.Counted) (hlive : s.IsLive n)
    (hfound : s.findLive? name = .ok (some f)) : s.TakesRows n f.id where
  sound := hs
  counted := hc
  node := hs.hasNode_of_isLive hlive
  field := hs.hasNode_of_isLive (hs.isLive_of_findLive? hfound)

/-- What a write to a field of type `nodes` leaves if it passes its checks. -/
theorem setProperty_admitted (hs : s.Sound) (hc : s.Counted) (now : Int)
    (hadmits : s.Admits n name [value] f) (htype : s.fieldType? f.id = .ok (some .nodes))
    (hvalue : value.conformsTo .nodes = true)
    (horder : ∀ place, order = some place → fitsLong place = true) :
    let first := s.placeFor n f.id order
    let left := s.addReferences now n f.id first (value.referenced.take (s.room first))
    (s.HasRoom order first value.referenced.length ∧
      setProperty now n name value order s = .ok () (left.updateNode n fun r =>
        { r with updatedAt := r.updatedAt.max (.integer now) })) ∨
    (¬ s.HasRoom order first value.referenced.length ∧
      ∃ err, setProperty now n name value order s = .error err left) := by
  intro first left
  have hrows := takesRows hs hc hadmits.live hadmits.found
  obtain ⟨hafter, hsucceeds⟩ :=
    appendReferences_outcome now value.referenced hrows horder
  rw [setProperty_nodes now hadmits htype hvalue, ← hsucceeds]
  cases hadd : appendReferences now n f.id order value.referenced s with
  | ok _ t =>
    rw [after_of_ok hadd] at hafter
    subst hafter
    have hlive : left.IsLive n := by
      obtain ⟨found, hfound⟩ := hadmits.live
      exact ⟨found, by rw [← hfound, node?, node?, liveRecordOf?, liveRecordOf?,
        addReferences_nodes]⟩
    exact Or.inl ⟨⟨(), _, hadd⟩, (bind_of_ok hadd).trans (touchNode_of hlive now)⟩
  | error err t =>
    rw [after_of_error hadd] at hafter
    subst hafter
    refine Or.inr ⟨?_, err, bind_of_error hadd⟩
    rintro ⟨_, _, hok⟩
    cases hok.symm.trans hadd

theorem filterMap_decode_nodeText (references : List NodeId) :
    (references.map PropertyValue.nodeText).filterMap PropertyValue.decode? =
      references.map .node := by
  induction references with
  | nil => rfl
  | cons reference rest ih =>
    rw [List.map_cons, List.filterMap_cons_some (PropertyValue.decode?_nodeText reference), ih,
      List.map_cons]

/-- References that are added behind the last row are read back behind the others. -/
theorem values_setProperty_none (hs : s.Sound) (hc : s.Counted) (hlive : s.IsLive n)
    (hfound : s.findLive? name = .ok (some f)) {references : List NodeId}
    (hroom : references.length ≤ s.room (s.nextPlace n f.id)) {change : NodeRecord → NodeRecord}
    (h : setProperty now n name value none s = .ok ()
      ((s.addReferences now n f.id (s.nextPlace n f.id) references).updateNode n change)) :
    ∃ old, s.values n name = .ok old ∧
      ((s.addReferences now n f.id (s.nextPlace n f.id) references).updateNode n change).values
        n name = .ok (old ++ references.map .node) := by
  have hextended := (takesRows hs hc hlive hfound).extended_addReferences now rfl hroom
  have hread := (setProperty_editsField now n name value none s).values_eq hs
    (hs.after (setProperty_respects .changes now n name value none)) hlive hfound
  rw [after_of_ok h] at hread
  refine ⟨_, hs.values_eq hlive hfound, hread.trans ?_⟩
  rw [← filterMap_decode_nodeText, ← List.filterMap_append, ← hextended.texts]
  rfl

/-- A write to a field of type `nodes`, on a store that any run has left, adds exactly one row for
each reference, in their order and at consecutive places, from the given one on or else behind the
last row of the field. If it fails, either nothing has changed, or the rows before the first one
without a number or a place have been added. The latter happens exactly if the write passes its
checks and there is room for some of its rows but not for all. -/
theorem appendReferences_run (steps : List Step) (now : Int)
    (hlive : (Store.empty.run steps).IsLive n)
    (hfound : (Store.empty.run steps).findLive? name = .ok (some f))
    (htype : (Store.empty.run steps).fieldType? f.id = .ok (some .nodes))
    (hvalue : value.conformsTo .nodes = true)
    (horder : ∀ place, order = some place → fitsLong place = true) :
    let s := Store.empty.run steps
    let first := s.placeFor n f.id order
    let references := value.referenced
    (∀ s', setProperty now n name value order s = .ok () s' →
      s.Appended s' n f.id first references ∧
      (order = none → ∃ old, s.values n name = .ok old ∧
        s'.values n name = .ok (old ++ references.map .node))) ∧
    (∀ err s', setProperty now n name value order s = .error err s' →
      s'.nodes = s.nodes ∧
      (s' = s ∨ s.Appended s' n f.id first (references.take (s.room first)))) ∧
    ((∃ s', setProperty now n name value order s = .ok () s') ↔
      s.Admits n name [value] f ∧ s.HasRoom order first references.length) ∧
    ((∃ err s', setProperty now n name value order s = .error err s' ∧
        s'.properties ≠ s.properties) ↔
      s.Admits n name [value] f ∧ 0 < s.room first ∧
        ¬ s.HasRoom order first references.length) := by
  intro s first references
  have hs : s.Sound := empty_sound.run steps
  have hc : s.Counted := empty_counted.run empty_sound steps
  by_cases hadmits : s.Admits n name [value] f
  · rcases setProperty_admitted hs hc now hadmits htype hvalue horder with
      ⟨hroom, h⟩ | ⟨hroom, err, h⟩
    · rw [List.take_of_length_le hroom.1] at h
      rw [h]
      refine ⟨fun s' hok => ?_, fun _ _ herr => (nomatch herr), ?_, ?_⟩
      · obtain ⟨-, rfl⟩ := EStateM.Result.ok.inj hok
        refine ⟨addReferences_appended now n f.id hroom.1, fun hnone => ?_⟩
        subst hnone
        exact values_setProperty_none hs hc hlive hfound hroom.1 h
      · exact iff_of_true ⟨_, rfl⟩ ⟨hadmits, hroom⟩
      · refine iff_of_false ?_ fun h => h.2.2 hroom
        rintro ⟨_, _, herr, -⟩
        cases herr
    · rw [h]
      have happended : s.Appended (s.addReferences now n f.id first
          (references.take (s.room first))) n f.id first (references.take (s.room first)) :=
        addReferences_appended now n f.id (List.length_take_le _ _)
      refine ⟨fun _ hok => (nomatch hok), fun _ s' herr => ?_, ?_, ?_⟩
      · obtain ⟨-, rfl⟩ := EStateM.Result.error.inj herr
        exact ⟨addReferences_nodes _ _ _, Or.inr happended⟩
      · refine iff_of_false ?_ fun h => hroom h.2
        rintro ⟨_, hok⟩
        cases hok
      · constructor
        · rintro ⟨_, _, herr, hchanged⟩
          obtain ⟨-, rfl⟩ := EStateM.Result.error.inj herr
          refine ⟨hadmits, Nat.pos_of_ne_zero fun hnone => hchanged ?_, hroom⟩
          rw [show s.room (s.placeFor n f.id order) = 0 from hnone]
          rfl
        · rintro ⟨-, hpos, -⟩
          exact ⟨_, _, rfl, happended.properties_ne (take_room_ne_nil hpos hroom)⟩
  · obtain ⟨err, h⟩ := setProperty_of_not_admits now order hlive hfound htype hvalue
      hadmits
    rw [h]
    refine ⟨fun _ hok => (nomatch hok), fun _ s' herr => ?_, ?_, ?_⟩
    · obtain ⟨-, rfl⟩ := EStateM.Result.error.inj herr
      exact ⟨rfl, Or.inl rfl⟩
    · refine iff_of_false ?_ fun h => hadmits h.1
      rintro ⟨_, hok⟩
      cases hok
    · refine iff_of_false ?_ fun h => hadmits h.1
      rintro ⟨_, _, herr, hchanged⟩
      obtain ⟨-, rfl⟩ := EStateM.Result.error.inj herr
      exact hchanged rfl

/-- The last place but one is taken by a tag, so that the first of two further ones gets the last
place, and the second one none. -/
theorem appendReferences_run_tags :
    let id (i : Nat) (h : i < 2 ^ 128) : NodeId := ⟨i, h⟩
    let create (id : NodeId) (systemId : String) : Step :=
      ⟨5, .graph (.createNode ⟨id, systemId, some systemId, none, []⟩)⟩
    let tags := id 2 (by decide)
    let milk := id 3 (by decide)
    let s := Store.empty.run [create (id 1 (by decide)) Handle.fieldFieldType,
      create tags "shop:tags", create milk "shop:milk",
      ⟨6, .graph (.setProperty tags Handle.fieldFieldType (.string "nodes") none)⟩,
      ⟨6, .graph (.setProperty milk "shop:tags" (.node tags) (some (2 ^ 63 - 2)))⟩]
    ∃ err s', setProperty 7 milk "shop:tags" (.nodes [milk, tags]) none s = .error err s' ∧
      s'.properties ≠ s.properties := by
  intro id create tags milk s
  have hs : s.Sound := empty_sound.run _
  have hname : IsName "shop:tags" := ⟨by decide +kernel, by decide +kernel⟩
  have hlive : s.IsLive milk := hs.isLive_iff.mpr ⟨some "shop:milk", by
    unfold Holds
    decide +kernel⟩
  have htags : s.Holds (.known tags) (some "shop:tags") := by
    unfold Holds
    decide +kernel
  obtain ⟨f, hfound, hid, hhandle⟩ := hs.findLive?_of_holds hname htags
  have hdeclares : s.Holds (.known (id 1 (by decide))) (some Handle.fieldFieldType) := by
    unfold Holds
    decide +kernel
  have hdeclared : typeIn? (s.texts tags (id 1 (by decide))) = some .nodes := by decide +kernel
  have htype : s.fieldType? f.id = .ok (some .nodes) := by
    rw [hid, hs.fieldType?_eq hdeclares, hdeclared]
  have hroom : s.room (s.placeFor milk f.id none) = 1 := by
    rw [hid]
    decide +kernel
  have hvalue : (PropertyValue.nodes [milk, tags]).conformsTo .nodes = true := rfl
  obtain ⟨-, -, -, hhalf⟩ := appendReferences_run _ 7 hlive hfound htype hvalue fitsLong_of_none
  refine hhalf.mpr ⟨⟨hlive, hfound, fun hextends => ?_⟩, ?_, fun hall => ?_⟩
  · rw [hhandle] at hextends
    exact absurd hextends (by decide)
  · rw [hroom]
    exact Nat.one_pos
  · have hle := hall.1
    rw [hroom] at hle
    exact absurd hle (by decide)

end Store

end TagGraph
