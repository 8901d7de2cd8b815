import TagGraph.Proofs.Text.LowerCase
import TagGraph.Query.Evaluation

/-!
# Looking for texts without regard to case

A query text and the text that it is looked for in are put into lower case each on its own. What
stands in a text as it is written is found in it without regard to case, too, unless a capital sigma
at an edge of the query takes another form in the text (`caseless_tests`).
-/

namespace TagGraph

open Text

theorem contentMatches_true_iff {content query : String} :
    contentMatches content query true = true ↔ query.toList <:+: content.toList := by
  unfold contentMatches
  rw [if_pos rfl, Text.contains, occursIn_iff]

theorem contentMatches_false_iff {content query : String} :
    contentMatches content query false = true ↔
      lowerChars query.toList <:+: lowerChars content.toList := by
  unfold contentMatches
  rw [if_neg Bool.false_ne_true, Text.contains, occursIn_iff, lower, lower, String.toList_ofList,
    String.toList_ofList]

/-- The test of one stored text against a text. -/
theorem PropertyValue.anyText_string {e : Expected} {q : String} (he : e.json = .string q)
    (t : String) (wanted : String → String → Bool) :
    anyText [.string t] e wanted = wanted (lower t) (lower q) := by
  have hneedle : Expected.folded? e = some (lower q) := by
    rw [Expected.folded?, Expected.text?, he]
    rfl
  unfold anyText
  rw [hneedle]
  simp [folded?, text?]

namespace PropertyOp

variable {e : Expected} {q t : String}

/-- A stored text contains a text exactly if it would as a content. -/
theorem test_contains_string (he : e.json = .string q) :
    contains.test [.string t] e = contentMatches t q false := by
  rw [test, PropertyValue.anyText_string he]
  rfl

theorem test_startsWith_string (he : e.json = .string q) :
    startsWith.test [.string t] e = true ↔ lowerChars q.toList <+: lowerChars t.toList := by
  rw [test, PropertyValue.anyText_string he, Text.startsWith, List.isPrefixOf_iff_prefix, lower,
    lower, String.toList_ofList, String.toList_ofList]

theorem test_endsWith_string (he : e.json = .string q) :
    endsWith.test [.string t] e = true ↔ lowerChars q.toList <:+ lowerChars t.toList := by
  rw [test, PropertyValue.anyText_string he, Text.endsWith, List.isSuffixOf_iff_suffix, lower,
    lower, String.toList_ofList, String.toList_ofList]

end PropertyOp

/-- A query that stands in a content is found there without regard to case if each of its sigmas has
the small form there that it has in the query. The queries that are found in every content that they
stand in are those without a capital sigma at an edge, whether they are looked for in contents or in
stored texts. A stored text begins with what stands at its beginning unless this closes on a sigma
and the word goes on, and ends with what stands at its end unless this opens on a sigma and goes on
a word. -/
theorem caseless_tests (q : String) :
    (∀ front rest, KeepsForm front.reverse rest q.toList →
      contentMatches (String.ofList (front ++ q.toList ++ rest)) q false = true) ∧
    ((∀ content, contentMatches content q true = true → contentMatches content q false = true) ↔
      ¬ OpensOnSigma q.toList ∧ ¬ ClosesOnSigma q.toList) ∧
    ∀ e : Expected, e.json = .string q → ∀ t : String,
      PropertyOp.contains.test [.string t] e = contentMatches t q false ∧
      (∀ rest, t.toList = q.toList ++ rest → (PropertyOp.startsWith.test [.string t] e = true ↔
        ¬ (ClosesOnSigma q.toList ∧ facesLetter rest = true))) ∧
      ∀ front, t.toList = front ++ q.toList → (PropertyOp.endsWith.test [.string t] e = true ↔
        ¬ (OpensOnSigma q.toList ∧ facesLetter front.reverse = true)) := by
  refine ⟨?_, ?_, ?_⟩
  · intro front rest hkeeps
    rw [contentMatches_false_iff, String.toList_ofList]
    exact lowerChars_infix hkeeps
  · rw [← lowerChars_infix_iff]
    simp only [contentMatches_true_iff, contentMatches_false_iff]
    constructor
    · intro h whole hstands
      have hfound := h (String.ofList whole)
      rw [String.toList_ofList] at hfound
      exact hfound hstands
    · intro h content hstands
      exact h content.toList hstands
  · intro e he t
    refine ⟨PropertyOp.test_contains_string he, ?_, ?_⟩
    · intro rest ht
      rw [PropertyOp.test_startsWith_string he, ht, lowerChars_prefix_iff, keepsForm_front_iff]
    · intro front ht
      rw [PropertyOp.test_endsWith_string he, ht, lowerChars_suffix_iff, keepsForm_behind_iff]

/-- A word that goes on behind its sigma. -/
example : contentMatches "ΣΟΦΟΣ ΑΝΗΡ" "ΣΟΦ" false = true ∧
    contentMatches "ΜΕΣΟΣ" "ΜΕΣ" true = true ∧ contentMatches "ΜΕΣΟΣ" "ΜΕΣ" false = false := by
  decide +kernel

end TagGraph
