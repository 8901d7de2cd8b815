import TagGraph.Memo

/-!
# Remembering changes no answer

A table of answers is faithful to the look-ups that it saves if it holds nothing else than they give
(`Memo.Faithful`). A reading that starts from faithful tables and leaves faithful tables, and gives
one answer in between whatever the tables hold, has that answer without any table (`Answers`).
-/

namespace TagGraph

namespace Memo

variable {κ α : Type} [BEq κ] {memo : Memo κ α} {look : κ → Reading α}

/-- Every remembered answer is the one that a look-up gives. -/
def Faithful (memo : Memo κ α) (look : κ → Reading α) : Prop :=
  ∀ key answer, memo.get? key = some answer → look key = .ok answer

theorem faithful_empty (look : κ → Reading α) : (empty : Memo κ α).Faithful look := by
  intro key answer h
  rw [get?_empty] at h
  cases h

theorem Faithful.insert [LawfulBEq κ] (h : memo.Faithful look) {key : κ} {answer : α}
    (hlook : look key = .ok answer) : (memo.insert key answer).Faithful look := by
  intro other found hfound
  by_cases heq : other = key
  · subst heq
    rw [get?_insert_self] at hfound
    rw [hlook, Option.some.inj hfound]
  · rw [get?_insert_of_ne memo answer heq] at hfound
    exact h other found hfound

/-- A faithful table gives the answer of the look-up and stays faithful. -/
theorem Faithful.consult [LawfulBEq κ] (h : memo.Faithful look) (key : κ) {answer : α}
    (hlook : look key = .ok answer) :
    ∃ memo', memo.consult key (look key) = .ok (answer, memo') ∧ memo'.Faithful look := by
  unfold Memo.consult
  cases hget : memo.get? key with
  | none =>
    rw [hlook]
    exact ⟨memo.insert key answer, rfl, h.insert hlook⟩
  | some found =>
    have heq : found = answer := by
      have hfound := h key found hget
      rw [hlook] at hfound
      exact (Except.ok.inj hfound).symm
    exact ⟨memo, by rw [heq], h⟩

end Memo

/-- A reading with tables of which something is known: it gives the answer and leaves tables of
which the same is known. -/
def Answers {μ α : Type} (Known : μ → Prop) (reading : StateT μ (Except StoreError) α)
    (answer : α) : Prop :=
  ∀ memo, Known memo → ∃ memo', reading memo = .ok (answer, memo') ∧ Known memo'

namespace Answers

variable {μ α β : Type} {Known : μ → Prop}

theorem pure (a : α) : Answers Known (pure a : StateT μ (Except StoreError) α) a :=
  fun memo h => ⟨memo, rfl, h⟩

theorem bind {e : StateT μ (Except StoreError) α} {f : α → StateT μ (Except StoreError) β} {a : α}
    {b : β} (he : Answers Known e a) (hf : Answers Known (f a) b) : Answers Known (e >>= f) b := by
  intro memo h
  obtain ⟨memo', hmemo', h'⟩ := he memo h
  obtain ⟨memo'', hmemo'', h''⟩ := hf memo' h'
  refine ⟨memo'', ?_, h''⟩
  show (e memo >>= fun p => f p.1 p.2) = .ok (b, memo'')
  rw [hmemo']
  exact hmemo''

/-- What is looked up in the store itself leaves the tables. -/
theorem lift {r : Reading α} {a : α} (h : r = .ok a) :
    Answers Known (liftM r : StateT μ (Except StoreError) α) a := by
  subst h
  exact fun memo hmemo => ⟨memo, rfl, hmemo⟩

/-- One reading for each member of a list gives one answer for each. -/
theorem mapM {f : α → StateT μ (Except StoreError) β} {g : α → β} {l : List α}
    (h : ∀ a ∈ l, Answers Known (f a) (g a)) : Answers Known (l.mapM f) (l.map g) := by
  induction l with
  | nil => exact Answers.pure []
  | cons a l ih =>
    rw [List.mapM_cons, List.map_cons]
    refine (h a (List.mem_cons_self ..)).bind ?_
    exact (ih fun b hb => h b (List.mem_cons_of_mem a hb)).bind (Answers.pure _)

end Answers

end TagGraph
