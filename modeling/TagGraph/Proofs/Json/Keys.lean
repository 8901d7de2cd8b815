import Mathlib.Data.List.Perm.Basic
import TagGraph.Proofs.Json.RoundTrip

/-!
# Keys of objects

A value in which no object repeats a key (`Json.KeysApart`) loses nothing when its entries are
sorted: the canonical form has the same entries in another order (`canonicalEntries_perm`) and nests
as deep (`depth_canonical`). What is sorted already repeats no key (`keysApart_of_isCanonical`).
-/

namespace TagGraph.Json

mutual

/-- No object repeats a key. -/
def KeysApart : Json → Prop
  | .array xs => ItemsApart xs
  | .object xs => (xs.map (·.1)).Nodup ∧ EntriesApart xs
  | _ => True

/-- No object in the items repeats a key. -/
def ItemsApart : List Json → Prop
  | [] => True
  | x :: xs => x.KeysApart ∧ ItemsApart xs

/-- No object in the values of the entries repeats a key. -/
def EntriesApart : List (String × Json) → Prop
  | [] => True
  | (_, x) :: xs => x.KeysApart ∧ EntriesApart xs

end

theorem itemsApart_iff {xs : List Json} : ItemsApart xs ↔ ∀ x ∈ xs, x.KeysApart := by
  induction xs with
  | nil => simp [ItemsApart]
  | cons x xs ih => simp [ItemsApart, ih]

theorem entriesApart_iff {xs : List (String × Json)} :
    EntriesApart xs ↔ ∀ e ∈ xs, e.2.KeysApart := by
  induction xs with
  | nil => simp [EntriesApart]
  | cons e xs ih => simp [EntriesApart, ih]

/-! ## Sorted entries -/

mutual

/-- Sorted entries have increasing keys, so none repeats. -/
theorem keysApart_of_isCanonical : ∀ {j : Json}, isCanonical j = true → j.KeysApart
  | .null, _ | .bool _, _ | .number _, _ | .string _, _ => by simp [KeysApart]
  | .array xs, h => by
    rw [KeysApart]
    exact itemsApart_of_allCanonical h
  | .object xs, h => by
    obtain ⟨-, hnodup, hapart⟩ := apart_of_sortedAfter h
    rw [KeysApart]
    exact ⟨hnodup, hapart⟩

theorem itemsApart_of_allCanonical : ∀ {xs : List Json}, allCanonical xs = true → ItemsApart xs
  | [], _ => by simp [ItemsApart]
  | x :: xs, h => by
    rw [allCanonical, Bool.and_eq_true] at h
    rw [ItemsApart]
    exact ⟨keysApart_of_isCanonical h.1, itemsApart_of_allCanonical h.2⟩

theorem apart_of_sortedAfter : ∀ {xs : List (String × Json)} {previous : Option String},
    sortedAfter previous xs = true →
      (∀ p, previous = some p → ∀ k ∈ xs.map (·.1), keyBefore p k = true) ∧
        (xs.map (·.1)).Nodup ∧ EntriesApart xs
  | [], _, _ => by simp [EntriesApart]
  | (k, x) :: xs, previous, h => by
    simp only [sortedAfter, Bool.and_eq_true] at h
    obtain ⟨⟨hk, hx⟩, hxs⟩ := h
    obtain ⟨hafter, hnodup, hapart⟩ := apart_of_sortedAfter hxs
    have hnot : k ∉ xs.map (·.1) := by
      intro hmem
      have hself := hafter k rfl k hmem
      rw [keyBefore, decide_eq_true_eq] at hself
      exact String.lt_irrefl k hself
    refine ⟨?_, ?_, ?_⟩
    · rintro p rfl l hl
      rcases List.mem_cons.mp hl with rfl | hl
      · exact hk
      · exact keyBefore_trans hk (hafter k rfl l hl)
    · rw [List.map_cons]
      exact List.nodup_cons.mpr ⟨hnot, hnodup⟩
    · rw [EntriesApart]
      exact ⟨keysApart_of_isCanonical hx, hapart⟩

end

/-! ## The canonical form -/

theorem canonicalItems_eq_map (xs : List Json) : canonicalItems xs = xs.map canonical := by
  induction xs with
  | nil => rfl
  | cons x xs ih => rw [canonicalItems, ih, List.map_cons]

/-- A new entry is added to the others. -/
theorem insertEntry_perm {k : String} (x : Json) :
    ∀ {xs : List (String × Json)}, k ∉ xs.map (·.1) → (insertEntry k x xs).Perm ((k, x) :: xs)
  | [], _ => List.Perm.refl _
  | (l, y) :: rest, h => by
    rw [List.map_cons, List.mem_cons, not_or] at h
    obtain ⟨hne, hrest⟩ := h
    rw [insertEntry, if_neg hne]
    split
    · exact List.Perm.refl _
    · exact ((insertEntry_perm x hrest).cons (l, y)).trans (List.Perm.swap ..)

/-- The canonical form of an entry. -/
def canonicalEntry (e : String × Json) : String × Json :=
  (e.1, e.2.canonical)

theorem canonicalEntries_perm_append : ∀ {xs sorted : List (String × Json)},
    (xs.map (·.1) ++ sorted.map (·.1)).Nodup →
      (canonicalEntries xs sorted).Perm (xs.map canonicalEntry ++ sorted)
  | [], sorted, _ => List.Perm.refl sorted
  | (k, x) :: xs, sorted, h => by
    rw [List.map_cons, List.cons_append, List.nodup_cons, List.mem_append, not_or] at h
    obtain ⟨⟨hxs, hsorted⟩, hrest⟩ := h
    have hinsert := insertEntry_perm x.canonical hsorted
    -- The keys that are left are none of those put into place, the new one included.
    have hnodup : (xs.map (·.1) ++ (insertEntry k x.canonical sorted).map (·.1)).Nodup := by
      have hkeys : ((insertEntry k x.canonical sorted).map (·.1)).Perm
          (k :: sorted.map (·.1)) := hinsert.map _
      rw [(hkeys.append_left _).nodup_iff, List.perm_middle.nodup_iff, List.nodup_cons,
        List.mem_append, not_or]
      exact ⟨⟨hxs, hsorted⟩, hrest⟩
    rw [canonicalEntries]
    calc (canonicalEntries xs (insertEntry k x.canonical sorted)).Perm _ :=
          canonicalEntries_perm_append hnodup
      _ |>.Perm (xs.map canonicalEntry ++ (k, x.canonical) :: sorted) := hinsert.append_left _
      _ |>.Perm _ := List.perm_middle

/-- Sorting puts entries with different keys into another order. -/
theorem canonicalEntries_perm {xs : List (String × Json)} (h : (xs.map (·.1)).Nodup) :
    (canonicalEntries xs []).Perm (xs.map canonicalEntry) := by
  have hperm : (canonicalEntries xs []).Perm (xs.map canonicalEntry ++ []) :=
    canonicalEntries_perm_append (by simpa using h)
  rwa [List.append_nil] at hperm

/-! ## Depth -/

theorem depthEntries_le_iff {xs : List (String × Json)} {n : Nat} :
    depthEntries xs ≤ n ↔ ∀ e ∈ xs, e.2.depth ≤ n := by
  induction xs with
  | nil => simp [depthEntries]
  | cons e xs ih => rw [depthEntries, Nat.max_le, ih, List.forall_mem_cons]

theorem depthEntries_le_of_perm {xs ys : List (String × Json)} (h : xs.Perm ys) :
    depthEntries xs ≤ depthEntries ys :=
  depthEntries_le_iff.mpr fun e he =>
    depthEntries_le_iff.mp (Nat.le_refl _) e (h.mem_iff.mp he)

theorem depthEntries_perm {xs ys : List (String × Json)} (h : xs.Perm ys) :
    depthEntries xs = depthEntries ys :=
  Nat.le_antisymm (depthEntries_le_of_perm h) (depthEntries_le_of_perm h.symm)

mutual

/-- Sorting entries with different keys does not change how deep a value nests. -/
theorem depth_canonical : ∀ {j : Json}, j.KeysApart → j.canonical.depth = j.depth
  | .null, _ | .bool _, _ | .number _, _ | .string _, _ => rfl
  | .array xs, h => by
    rw [KeysApart] at h
    rw [canonical, depth, depth, depthItems_canonical h]
  | .object xs, h => by
    rw [KeysApart] at h
    rw [canonical, depth, depth, depthEntries_perm (canonicalEntries_perm h.1),
      depthEntries_canonical h.2]

theorem depthItems_canonical : ∀ {xs : List Json}, ItemsApart xs →
    depthItems (canonicalItems xs) = depthItems xs
  | [], _ => rfl
  | x :: xs, h => by
    rw [ItemsApart] at h
    rw [canonicalItems, depthItems, depthItems, depth_canonical h.1, depthItems_canonical h.2]

theorem depthEntries_canonical : ∀ {xs : List (String × Json)}, EntriesApart xs →
    depthEntries (xs.map canonicalEntry) = depthEntries xs
  | [], _ => rfl
  | (k, x) :: xs, h => by
    rw [EntriesApart] at h
    rw [List.map_cons, canonicalEntry, depthEntries, depthEntries, depth_canonical h.1,
      depthEntries_canonical h.2]

end

end TagGraph.Json
