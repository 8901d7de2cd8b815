import TagGraph.Disk.Path

/-!
# Paths as texts

A text is read as a path part by part: the parts stand between slashes, and those that are empty or
a single dot mean nothing (`Path.SpelledBy`). Each text has components in this sense, and only one
list of them, which is the one that is computed (`spelledBy_iff`). So two texts write one path if
and only if their components are computed to be the same (`same_iff`).
-/

namespace TagGraph.Path

/-! ## Parts -/

theorem splitSlashes_ne_nil (cs : List Char) : splitSlashes cs ≠ [] := by
  cases cs with
  | nil => exact List.cons_ne_nil _ _
  | cons c cs =>
    unfold splitSlashes
    split
    · split <;> exact List.cons_ne_nil _ _
    · exact List.cons_ne_nil _ _

theorem splitSlashes_slash (cs : List Char) : splitSlashes ('/' :: cs) = [] :: splitSlashes cs := by
  obtain ⟨part, rest, h⟩ := List.exists_cons_of_ne_nil (splitSlashes_ne_nil cs)
  rw [splitSlashes, h]
  rfl

theorem splitSlashes_cons {c : Char} (hc : c ≠ '/') {cs part : List Char} {rest : List (List Char)}
    (h : splitSlashes cs = part :: rest) : splitSlashes (c :: cs) = (c :: part) :: rest := by
  rw [splitSlashes, h]
  exact if_neg hc

theorem splitSlashes_of_notMem {part : List Char} (h : '/' ∉ part) :
    splitSlashes part = [part] := by
  induction part with
  | nil => rfl
  | cons c part ih =>
    rw [List.mem_cons, not_or] at h
    exact splitSlashes_cons (Ne.symm h.1) (ih h.2)

theorem splitSlashes_append {part : List Char} (h : '/' ∉ part) (rest : List Char) :
    splitSlashes (part ++ '/' :: rest) = part :: splitSlashes rest := by
  induction part with
  | nil => exact splitSlashes_slash rest
  | cons c part ih =>
    rw [List.mem_cons, not_or] at h
    exact splitSlashes_cons (Ne.symm h.1) (ih h.2)

/-! ## Components -/

/-- What a part adds to the components of a path: nothing if it is empty or a single dot. -/
def partComponents (part : List Char) : List String :=
  if part = [] ∨ part = ['.'] then [] else [String.ofList part]

/-- The components of a path are what its parts add, one after the other. -/
theorem components_eq (path : String) :
    components path = (splitSlashes path.toList).flatMap partComponents := by
  unfold components parts
  induction splitSlashes path.toList with
  | nil => rfl
  | cons part rest ih =>
    have hempty : String.ofList part = "" ↔ part = [] := by
      rw [← String.toList_inj, String.toList_ofList]
      rfl
    have hdot : String.ofList part = "." ↔ part = ['.'] := by
      rw [← String.toList_inj, String.toList_ofList]
      rfl
    rw [List.flatMap_cons, ← ih, List.map_cons, partComponents]
    by_cases h : part = []
    · simp [h]
    · by_cases h' : part = ['.']
      · simp [h']
      · simp [hempty, hdot, h, h']

/-- A text writes the path with these components. -/
inductive SpelledBy : List String → List Char → Prop where
  | last {part : List Char} (h : '/' ∉ part) : SpelledBy (partComponents part) part
  | next {part rest : List Char} {components : List String} (h : '/' ∉ part)
    (hrest : SpelledBy components rest) :
    SpelledBy (partComponents part ++ components) (part ++ '/' :: rest)

theorem SpelledBy.eq_flatMap {components : List String} {cs : List Char}
    (h : SpelledBy components cs) : components = (splitSlashes cs).flatMap partComponents := by
  induction h with
  | last h => rw [splitSlashes_of_notMem h, List.flatMap_singleton]
  | next h _ ih => rw [splitSlashes_append h, List.flatMap_cons, ← ih]

/-- Each text writes a path. -/
theorem exists_spelledBy (cs : List Char) : ∃ components, SpelledBy components cs := by
  induction cs with
  | nil => exact ⟨_, .last List.not_mem_nil⟩
  | cons c cs ih =>
    obtain ⟨components, hcs⟩ := ih
    by_cases hc : c = '/'
    · subst hc
      exact ⟨_, .next List.not_mem_nil hcs⟩
    · -- Any other character belongs to the first part.
      have hnotMem {part : List Char} (h : '/' ∉ part) : '/' ∉ c :: part := by
        rw [List.mem_cons, not_or]
        exact ⟨Ne.symm hc, h⟩
      cases hcs with
      | last h => exact ⟨_, .last (hnotMem h)⟩
      | next h hrest => exact ⟨_, .next (hnotMem h) hrest⟩

theorem spelledBy_iff {path : String} {list : List String} :
    SpelledBy list path.toList ↔ list = components path := by
  rw [components_eq]
  constructor
  · exact SpelledBy.eq_flatMap
  · rintro rfl
    obtain ⟨components, h⟩ := exists_spelledBy path.toList
    rwa [← h.eq_flatMap]

/-- Two texts write one path. -/
def Same (path other : String) : Prop :=
  ∃ components, SpelledBy components path.toList ∧ SpelledBy components other.toList

theorem same_iff {path other : String} : Same path other ↔ components path = components other := by
  simp only [Same, spelledBy_iff, exists_eq_left]

/-- An absolute path is not empty. -/
theorem ne_empty_of_isAbsolute {path : String} (h : isAbsolute path = true) : path ≠ "" := by
  rintro rfl
  cases h

end TagGraph.Path
