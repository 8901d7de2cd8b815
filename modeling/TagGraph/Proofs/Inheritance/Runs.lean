import Mathlib.Data.List.Induction
import TagGraph.Proofs.Inheritance.Seeded

/-!
# Runs without cycles

From a freshly seeded store on, edits of the graph leave the supertags without cycles exactly as
long as none of them closes a cycle (`Store.runGraph_acyclic_iff`): as long as no write to
`field:extends` slips past the guard with a parent above which the child stands already.
-/

namespace TagGraph

/-- An edit of the graph and the reading of the clock at which it is carried out. -/
structure GraphStep where
  now : Int
  edit : GraphEdit

namespace Store

/-- The store after a run of edits of the graph, whether they fail or not. -/
def runGraph (s : Store) (edits : List GraphStep) : Store :=
  s.run (edits.map fun g => ⟨g.now, .graph g.edit⟩)

theorem runGraph_concat (s : Store) (edits : List GraphStep) (g : GraphStep) :
    s.runGraph (edits ++ [g]) = (g.edit.edit g.now).after (s.runGraph edits) := by
  rw [runGraph, List.map_append, run_append]
  rfl

/-- Whatever is written after the seeding, the supertags are without cycles all the way if and only
if no edit on the way closes one. -/
theorem runGraph_acyclic_iff (now : Int) (fresh : Nat → NodeId) (edits : List GraphStep) :
    (∀ taken, taken <+: edits → ((seeded now fresh).runGraph taken).Acyclic) ↔
      ∀ taken next, taken ++ [next] <+: edits → ∀ child parent,
        ¬ ((seeded now fresh).runGraph taken).ClosesCycle next.now next.edit child parent := by
  have hsound : ∀ taken, ((seeded now fresh).runGraph taken).Sound :=
    fun taken => (seeded_sound now fresh).run _
  constructor
  · intro hacyclic taken next hnext
    have hbefore := hacyclic taken ((List.prefix_append taken [next]).trans hnext)
    have hafter := hacyclic _ hnext
    rw [runGraph_concat] at hafter
    exact ((hsound taken).acyclic_after_iff hbefore next.now next.edit).mp hafter
  · intro hcloses taken
    -- Induction from the seeding on: each edit of the run keeps the supertags without cycles.
    induction taken using List.reverseRecOn with
    | nil => exact fun _ => seeded_acyclic now fresh
    | append_singleton taken next ih =>
      intro hnext
      have hbefore := ih ((List.prefix_append taken [next]).trans hnext)
      rw [runGraph_concat]
      exact ((hsound taken).acyclic_after_iff hbefore next.now next.edit).mpr
        (hcloses taken next hnext)

end Store

end TagGraph
