import TagGraph.Json.Reader
import TagGraph.Json.Printer

/-!
# JSON documents

A value as the store keeps it: the entries of each object in the order of their keys, each key once.
Two documents with the same content are therefore the same value and have the same text. Of entries
that repeat a key, the last one counts.
-/

namespace TagGraph

namespace Json

/-! ## Sorted entries -/

/-- Whether the first key is before the second, by code points. -/
def keyBefore (k l : String) : Bool :=
  decide (k < l)

/-- An entry put into its place; it takes the place of an entry with the same key. -/
def insertEntry (k : String) (x : Json) : List (String × Json) → List (String × Json)
  | [] => [(k, x)]
  | (l, y) :: rest =>
    if k = l then (k, x) :: rest
    else if keyBefore k l then (k, x) :: (l, y) :: rest
    else (l, y) :: insertEntry k x rest

mutual

/-- The value with sorted entries in each object. Of entries with one key the last one counts. -/
def canonical : Json → Json
  | .array xs => .array (canonicalItems xs)
  | .object xs => .object (canonicalEntries xs [])
  | j => j

/-- The items of an array in canonical form. -/
def canonicalItems : List Json → List Json
  | [] => []
  | x :: xs => canonical x :: canonicalItems xs

/-- The entries of an object, in canonical form, put one after the other into `sorted`. -/
def canonicalEntries : List (String × Json) → List (String × Json) → List (String × Json)
  | [], sorted => sorted
  | (k, x) :: xs, sorted => canonicalEntries xs (insertEntry k (canonical x) sorted)

end

mutual

/-- Whether the entries of each object stand in the order of their keys, each key once. -/
def isCanonical : Json → Bool
  | .array xs => allCanonical xs
  | .object xs => sortedAfter none xs
  | _ => true

/-- Whether all items are canonical. -/
def allCanonical : List Json → Bool
  | [] => true
  | x :: xs => isCanonical x && allCanonical xs

/-- Whether the entries are canonical, with keys that increase, all of them after `previous`. -/
def sortedAfter (previous : Option String) : List (String × Json) → Bool
  | [] => true
  | (k, x) :: xs =>
    (match previous with
      | some p => keyBefore p k
      | none => true) && isCanonical x && sortedAfter (some k) xs

end

/-! ## The canonical form is canonical -/

theorem keyBefore_of_ne {k l : String} (hne : k ≠ l) (h : keyBefore k l = false) :
    keyBefore l k = true := by
  simp only [keyBefore, decide_eq_false_iff_not, decide_eq_true_eq] at h ⊢
  exact Decidable.byContradiction fun hlk =>
    hne (String.le_antisymm (String.not_lt.mp hlk) (String.not_lt.mp h))

theorem keyBefore_trans {k l m : String} (h₁ : keyBefore k l = true)
    (h₂ : keyBefore l m = true) : keyBefore k m = true := by
  simp only [keyBefore, decide_eq_true_eq] at *
  exact String.lt_trans h₁ h₂

/-- Putting a canonical entry into its place keeps the entries sorted. -/
theorem sortedAfter_insertEntry {k : String} {x : Json} (hx : isCanonical x = true) :
    ∀ (xs : List (String × Json)) {previous : Option String},
      (∀ p, previous = some p → keyBefore p k = true) → sortedAfter previous xs = true →
        sortedAfter previous (insertEntry k x xs) = true
  | [], previous, hp, _ => by
    cases previous with
    | none => simp [insertEntry, sortedAfter, hx]
    | some p => simp [insertEntry, sortedAfter, hx, hp p rfl]
  | (l, y) :: rest, previous, hp, h => by
    simp only [sortedAfter, Bool.and_eq_true] at h
    obtain ⟨⟨hl, hy⟩, hrest⟩ := h
    unfold insertEntry
    split
    · next heq =>
      subst heq
      simp [sortedAfter, hl, hx, hrest]
    · next hne =>
      split
      · next hbefore =>
        cases previous with
        | none => simp [sortedAfter, hx, hy, hrest, hbefore]
        | some p => simp [sortedAfter, hx, hy, hrest, hbefore, hp p rfl]
      · next hafter =>
        have hlk : keyBefore l k = true := keyBefore_of_ne hne (by simpa using hafter)
        have hmore : sortedAfter (some l) (insertEntry k x rest) = true :=
          sortedAfter_insertEntry hx rest
            (fun p hp' => by obtain rfl := Option.some.inj hp'; exact hlk) hrest
        simp [sortedAfter, hl, hy, hmore]

mutual

theorem isCanonical_canonical : ∀ j : Json, isCanonical (canonical j) = true
  | .null | .bool _ | .number _ | .string _ => rfl
  | .array xs => by simpa [canonical, isCanonical] using allCanonical_canonicalItems xs
  | .object xs => by
    simpa [canonical, isCanonical] using sortedAfter_canonicalEntries xs [] rfl

theorem allCanonical_canonicalItems : ∀ xs : List Json, allCanonical (canonicalItems xs) = true
  | [] => rfl
  | x :: xs => by
    simp [canonicalItems, allCanonical, isCanonical_canonical x, allCanonical_canonicalItems xs]

theorem sortedAfter_canonicalEntries :
    ∀ xs sorted : List (String × Json), sortedAfter none sorted = true →
      sortedAfter none (canonicalEntries xs sorted) = true
  | [], _, h => h
  | (_, x) :: xs, sorted, h => by
    unfold canonicalEntries
    exact sortedAfter_canonicalEntries xs _
      (sortedAfter_insertEntry (isCanonical_canonical x) sorted (fun _ hp => nomatch hp) h)

end

end Json

/-! ## Documents -/

/-- A JSON value with sorted entries. -/
structure Document where
  json : Json
  canonical : json.isCanonical = true

namespace Document

/-- The document with the content of a value. -/
def ofJson (j : Json) : Document :=
  ⟨j.canonical, j.isCanonical_canonical⟩

instance : Inhabited Document := ⟨⟨.null, rfl⟩⟩

/-- The empty document. -/
def null : Document :=
  ⟨.null, rfl⟩

/-- The document that a text writes. -/
def ofString? (s : String) : Option Document :=
  (Json.ofString? s).map ofJson

/-- Whether two documents are equal, with numbers compared by value. -/
def same (a b : Document) : Bool :=
  a.json.same b.json

end Document

end TagGraph
