import TagGraph.Store.Read

/-!
# Remembered answers

A table of answers found so far. A question that has been asked before is answered from the table,
so that one look-up serves many nodes of one reading.
-/

namespace TagGraph

/-- Questions and their answers, the newest first. -/
structure Memo (κ α : Type) where
  entries : List (κ × α)

namespace Memo

variable {κ α : Type} [BEq κ]

/-- The table without entries. -/
def empty : Memo κ α := ⟨[]⟩

/-- The remembered answer to a question. -/
def get? (memo : Memo κ α) (key : κ) : Option α :=
  memo.entries.lookup key

/-- Remembers an answer. -/
def insert (memo : Memo κ α) (key : κ) (answer : α) : Memo κ α :=
  ⟨(key, answer) :: memo.entries⟩

/-- The answer to a question, looked up unless it is remembered, and the table that holds it. -/
def consult (memo : Memo κ α) (key : κ) (look : Reading α) : Reading (α × Memo κ α) :=
  match memo.get? key with
  | some answer => .ok (answer, memo)
  | none => do
    let answer ← look
    return (answer, memo.insert key answer)

@[simp] theorem get?_empty (key : κ) : (empty : Memo κ α).get? key = none := rfl

theorem get?_insert_self [LawfulBEq κ] (memo : Memo κ α) (key : κ) (answer : α) :
    (memo.insert key answer).get? key = some answer := by
  simp [insert, get?]

theorem get?_insert_of_ne [LawfulBEq κ] (memo : Memo κ α) {key other : κ} (answer : α)
    (h : other ≠ key) : (memo.insert key answer).get? other = memo.get? other := by
  have hne : (other == key) = false := by simpa using h
  unfold insert get?
  rw [List.lookup_cons, hne]

end Memo

end TagGraph
