import TagGraph.Proofs.Inheritance.Depth

/-!
# What the traversals of inheritance find

Rows of `field:extends` may form cycles, name nodes that are gone or not name any. Whatever a store
holds, both traversals end: a search downwards has found each supertag that few enough steps lead
to, once and the nearer ones first, and a climb upwards has followed one parent after the other
until there was none or it came back to itself (`Store.traversals_exact`).
-/

namespace TagGraph.Store

/-- Whatever a store holds, the traversals of inheritance end, and where its rows can be read they
give lists. A list of descendants starts with the supertag itself and has, each once and in the
order of their distances, exactly the nodes that at most 64 steps down lead to. A list of ancestors
has at most 64 live nodes, each the parent of the one before, none of them the supertag itself and
each once. If there are fewer, the last has no live parent or one that stands in the chain. -/
theorem traversals_exact (s : Store) (supertag : NodeId) :
    (s.IsReadable → (∃ below, s.descendants supertag = .ok below) ∧
      ∃ above, s.ancestors supertag = .ok above) ∧
    (∀ below, s.descendants supertag = .ok below →
      below.head? = some supertag ∧ below.Nodup ∧
      (∀ id, id ∈ below ↔ LeadsWithin s.StepsDown 64 supertag id) ∧
      below.Pairwise (Nearer s.StepsDown supertag)) ∧
    ∀ above, s.ancestors supertag = .ok above →
      (supertag :: above).IsChain (fun c p => s.parent? c = .ok (some p)) ∧
      (supertag :: above).Nodup ∧ (∀ id ∈ above, s.IsLive id) ∧ above.length ≤ 64 ∧
      (above.length < 64 → s.parent? (above.getLastD supertag) = .ok none ∨
        ∃ parent ∈ supertag :: above, s.parent? (above.getLastD supertag) = .ok (some parent)) := by
  refine ⟨fun hs => ⟨hs.descendants_succeeds supertag, hs.ancestors_succeeds supertag⟩,
    fun below hbelow => ?_, fun above habove => ?_⟩
  · obtain ⟨newest, h⟩ := searched_descendants hbelow
    exact ⟨h.first, h.nodup, h.mem_seen, h.ordered⟩
  · have h := climbed_ancestorsFrom habove
    have hapart : supertag ∉ above := fun hmem =>
      h.apart supertag hmem (List.mem_singleton_self supertag)
    refine ⟨h.chain, List.nodup_cons.mpr ⟨hapart, h.nodup⟩, isLive_of_mem_ancestorsFrom habove,
      h.bounded, fun hlength => ?_⟩
    rcases h.ended hlength with hnone | ⟨parent, hparent, hmet⟩
    · exact Or.inl hnone
    · rw [List.mem_singleton, ← List.mem_cons] at hmet
      exact Or.inr ⟨parent, hmet, hparent⟩

end TagGraph.Store
