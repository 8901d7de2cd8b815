import TagGraph.Json.Document
import TagGraph.Proofs.Number.Reread

/-!
# Values that are written and read again

A value that is written and read again keeps its shape, its keys, its texts and its whole numbers;
its doubles are those that their notation is read as (`Json.reread`). So it comes back as it was if
and only if all doubles in it do (`Json.reread_eq_iff`).
-/

namespace TagGraph

namespace JsonNumber

/-- The number that the written form of a number is read as. -/
def reread : JsonNumber → JsonNumber
  | .whole i inRange => .whole i inRange
  | .double x => .double x.reread

/-- The double that a number is, if it is one. -/
def doubles : JsonNumber → List Binary64
  | .whole _ _ => []
  | .double x => [x]

theorem reread_eq_iff (n : JsonNumber) : n.reread = n ↔ ∀ x ∈ n.doubles, x.ReadsBack := by
  cases n with
  | whole i inRange => simp [reread, doubles]
  | double x => simp [reread, doubles, Binary64.ReadsBack]

end JsonNumber

namespace Json

mutual

/-- The value that the written form of a value is read as. -/
def reread : Json → Json
  | .null => .null
  | .bool b => .bool b
  | .number n => .number n.reread
  | .string s => .string s
  | .array xs => .array (rereadItems xs)
  | .object xs => .object (rereadEntries xs)

/-- The items of an array as they are read again. -/
def rereadItems : List Json → List Json
  | [] => []
  | x :: xs => reread x :: rereadItems xs

/-- The entries of an object as they are read again. -/
def rereadEntries : List (String × Json) → List (String × Json)
  | [] => []
  | (k, x) :: xs => (k, reread x) :: rereadEntries xs

end

mutual

/-- The doubles in a value. -/
def doubles : Json → List Binary64
  | .null | .bool _ | .string _ => []
  | .number n => n.doubles
  | .array xs => doublesItems xs
  | .object xs => doublesEntries xs

/-- The doubles in the items of an array. -/
def doublesItems : List Json → List Binary64
  | [] => []
  | x :: xs => doubles x ++ doublesItems xs

/-- The doubles in the entries of an object. -/
def doublesEntries : List (String × Json) → List Binary64
  | [] => []
  | (_, x) :: xs => doubles x ++ doublesEntries xs

end

/-- All doubles in a value are read again as they were. -/
def ReadsBack (j : Json) : Prop :=
  ∀ x ∈ j.doubles, x.ReadsBack

instance (j : Json) : Decidable j.ReadsBack :=
  inferInstanceAs (Decidable (∀ x ∈ j.doubles, x.ReadsBack))

mutual

/-- A value comes back as it was if and only if all doubles in it do. -/
theorem reread_eq_iff : ∀ j : Json, j.reread = j ↔ j.ReadsBack
  | .null | .bool _ | .string _ => by simp [reread, ReadsBack, doubles]
  | .number n => by
    rw [reread, Json.number.injEq]
    exact n.reread_eq_iff
  | .array xs => by
    rw [reread, Json.array.injEq]
    exact rereadItems_eq_iff xs
  | .object xs => by
    rw [reread, Json.object.injEq]
    exact rereadEntries_eq_iff xs

theorem rereadItems_eq_iff : ∀ xs : List Json,
    rereadItems xs = xs ↔ ∀ x ∈ doublesItems xs, x.ReadsBack
  | [] => by simp [rereadItems, doublesItems]
  | x :: xs => by
    rw [rereadItems, List.cons.injEq, doublesItems, List.forall_mem_append, rereadItems_eq_iff xs,
      reread_eq_iff x]
    rfl

theorem rereadEntries_eq_iff : ∀ xs : List (String × Json),
    rereadEntries xs = xs ↔ ∀ x ∈ doublesEntries xs, x.ReadsBack
  | [] => by simp [rereadEntries, doublesEntries]
  | (k, x) :: xs => by
    rw [rereadEntries, List.cons.injEq, Prod.mk.injEq, doublesEntries, List.forall_mem_append,
      rereadEntries_eq_iff xs, reread_eq_iff x]
    simp only [true_and]
    rfl

end

/-! ## Natural numbers -/

/-- A natural number of at most sixty-four bits is written whole. -/
theorem exists_nat_eq {n : Nat} (h : n < 2 ^ 64) :
    ∃ hrange, Json.nat n = .number (.whole n hrange) := by
  have hrange : -2 ^ 63 ≤ (n : Int) ∧ (n : Int) < 2 ^ 64 := by omega
  refine ⟨hrange, ?_⟩
  rw [Json.nat, Json.int, JsonNumber.ofInt?, dif_pos hrange]
  rfl

/-- A natural number of at most sixty-four bits is read again as it was. -/
theorem reread_nat {n : Nat} (h : n < 2 ^ 64) : (Json.nat n).reread = .nat n := by
  obtain ⟨hrange, hnat⟩ := exists_nat_eq h
  rw [hnat]
  rfl

/-! ## Shape -/

mutual

@[simp] theorem depth_reread : ∀ j : Json, j.reread.depth = j.depth
  | .null | .bool _ | .number _ | .string _ => rfl
  | .array xs => by rw [reread, depth, depth, depthItems_rereadItems xs]
  | .object xs => by rw [reread, depth, depth, depthEntries_rereadEntries xs]

theorem depthItems_rereadItems : ∀ xs : List Json, depthItems (rereadItems xs) = depthItems xs
  | [] => rfl
  | x :: xs => by rw [rereadItems, depthItems, depthItems, depth_reread x, depthItems_rereadItems xs]

theorem depthEntries_rereadEntries : ∀ xs : List (String × Json),
    depthEntries (rereadEntries xs) = depthEntries xs
  | [] => rfl
  | (k, x) :: xs => by
    rw [rereadEntries, depthEntries, depthEntries, depth_reread x, depthEntries_rereadEntries xs]

end

/-- An entry is put into the same place with what is read again. -/
theorem rereadEntries_insertEntry (k : String) (x : Json) : ∀ xs : List (String × Json),
    rereadEntries (insertEntry k x xs) = insertEntry k x.reread (rereadEntries xs)
  | [] => rfl
  | (l, y) :: xs => by
    rw [insertEntry, rereadEntries, insertEntry, ← rereadEntries_insertEntry k x xs]
    by_cases hsame : k = l
    · rw [if_pos hsame, if_pos hsame, rereadEntries]
    · rw [if_neg hsame, if_neg hsame]
      by_cases hbefore : keyBefore k l
      · rw [if_pos hbefore, if_pos hbefore, rereadEntries, rereadEntries]
      · rw [if_neg hbefore, if_neg hbefore, rereadEntries]

mutual

/-- Sorting the entries and reading again may be done in either order. -/
theorem canonical_reread : ∀ j : Json, j.reread.canonical = j.canonical.reread
  | .null | .bool _ | .number _ | .string _ => rfl
  | .array xs => by rw [reread, canonical, canonical, reread, canonicalItems_rereadItems xs]
  | .object xs => by
    rw [reread, canonical, canonical, reread]
    exact congrArg object (canonicalEntries_rereadEntries xs [])

theorem canonicalItems_rereadItems : ∀ xs : List Json,
    canonicalItems (rereadItems xs) = rereadItems (canonicalItems xs)
  | [] => rfl
  | x :: xs => by
    rw [rereadItems, canonicalItems, canonicalItems, rereadItems, canonical_reread x,
      canonicalItems_rereadItems xs]

theorem canonicalEntries_rereadEntries : ∀ xs sorted : List (String × Json),
    canonicalEntries (rereadEntries xs) (rereadEntries sorted) =
      rereadEntries (canonicalEntries xs sorted)
  | [], _ => rfl
  | (k, x) :: xs, sorted => by
    rw [rereadEntries, canonicalEntries, canonicalEntries, canonical_reread x,
      ← rereadEntries_insertEntry, canonicalEntries_rereadEntries xs]

end

mutual

@[simp] theorem isCanonical_reread : ∀ j : Json, j.reread.isCanonical = j.isCanonical
  | .null | .bool _ | .number _ | .string _ => rfl
  | .array xs => by rw [reread, isCanonical, isCanonical, allCanonical_rereadItems xs]
  | .object xs => by rw [reread, isCanonical, isCanonical, sortedAfter_rereadEntries xs none]

theorem allCanonical_rereadItems : ∀ xs : List Json,
    allCanonical (rereadItems xs) = allCanonical xs
  | [] => rfl
  | x :: xs => by
    rw [rereadItems, allCanonical, allCanonical, isCanonical_reread x, allCanonical_rereadItems xs]

theorem sortedAfter_rereadEntries : ∀ (xs : List (String × Json)) (previous : Option String),
    sortedAfter previous (rereadEntries xs) = sortedAfter previous xs
  | [], _ => rfl
  | (k, x) :: xs, previous => by
    rw [rereadEntries]
    simp only [sortedAfter, isCanonical_reread x, sortedAfter_rereadEntries xs (some k)]

end

end Json

namespace Document

/-- The document that the text of a document is read as. -/
def reread (d : Document) : Document :=
  ⟨d.json.reread, (Json.isCanonical_reread d.json).trans d.canonical⟩

theorem reread_eq_iff (d : Document) : d.reread = d ↔ d.json.ReadsBack := by
  obtain ⟨j, h⟩ := d
  rw [← Json.reread_eq_iff, reread, mk.injEq]

theorem ofJson_reread (j : Json) : ofJson j.reread = (ofJson j).reread := by
  simp only [ofJson, reread, Json.canonical_reread]

end Document

end TagGraph
