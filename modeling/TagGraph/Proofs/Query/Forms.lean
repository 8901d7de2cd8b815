import TagGraph.Proofs.Field.Outcome
import TagGraph.Proofs.Query.Saved

/-!
# Definitions in two forms

A node may save its definition as a document or as a text. The two are read by different ways: a
text part by part as it stands, a document with its entries sorted and with the last one of each
key.
For a text without repeated keys that writes a value at all, both come to the same
(`QueryDefinition.ofText_eq_ofDocument`). But the document is stored by its own text, from which it
is read again: so a node that holds the document is refused for the same reason as one that holds
the text, or loads the same definition up to its doubles (`Store.loadQuery?_run_of_holdsFirst`).
-/

namespace TagGraph

/-- A text in which no object repeats a key is read as the document that it writes. -/
theorem QueryDefinition.ofText_eq_ofDocument {raw : String} {j : Json}
    (hraw : Json.ofString? raw = some j) (hkeys : j.KeysApart) :
    ofText raw = ofDocument (.ofJson j) := by
  obtain ⟨tree, htree, hjson⟩ := Option.bind_eq_some_iff.mp hraw
  have hread : readText? raw = read? j := by
    rw [readText?, htree, Option.bind_some, definitionJson?_bind_read? hjson]
  rw [ofText, ofDocument, hread, Document.ofJson, read?_canonical hkeys]

namespace Store

variable {s : Store} {node : NodeId}

/-- A node loads the text that it saves. -/
theorem loadQuery?_of_string {raw : String}
    (h : s.value? node Handle.fieldQueryDefinition = .ok (some (.string raw))) :
    s.loadQuery? node = (definitionResult (QueryDefinition.ofText raw)).map some := by
  rw [loadQuery?, h]
  show (definitionResult (QueryDefinition.ofText raw) >>= fun d => pure (some d)) = _
  cases definitionResult (QueryDefinition.ofText raw) <;> rfl

/-- A node loads the document that it saves. -/
theorem loadQuery?_of_document {d : Document}
    (h : s.value? node Handle.fieldQueryDefinition = .ok (some (.json d))) :
    s.loadQuery? node = (definitionResult (QueryDefinition.ofDocument d)).map some := by
  rw [loadQuery?, h]
  show (definitionResult (QueryDefinition.ofDocument d) >>= fun d => pure (some d)) = _
  cases definitionResult (QueryDefinition.ofDocument d) <;> rfl

/-- A text that writes a value without repeated keys is, as a definition, the same as the document
of the value. On every store that a run leaves, a live node loads it so from a string with the text.
From the document, if the tag around it does not nest it too deep, the node loads it as it is read
again: it is refused for the same reason, or all but its doubles are the same, and these are if and
only if they are read back. -/
theorem loadQuery?_run_of_holdsFirst {raw : String} {j : Json}
    (hraw : Json.ofString? raw = some j) (hkeys : j.KeysApart) :
    QueryDefinition.ofText raw = QueryDefinition.ofDocument (.ofJson j) ∧
    ∀ (steps : List Step) (node : NodeId),
      let s := Store.empty.run steps
      let found := QueryDefinition.ofText raw
      s.IsLive node →
      (s.HoldsFirst node Handle.fieldQueryDefinition (.string raw) →
        s.loadQuery? node = (definitionResult found).map some) ∧
      (j.depth ≤ 126 → s.HoldsFirst node Handle.fieldQueryDefinition (.json (.ofJson j)) →
        s.loadQuery? node = (definitionResult found).map (some ·.reread) ∧
        (s.loadQuery? node = (definitionResult found).map some ↔
          ∀ d, found = .ok d → d.ReadsBack)) := by
  have hsame := QueryDefinition.ofText_eq_ofDocument hraw hkeys
  refine ⟨hsame, fun steps node => ?_⟩
  intro s found hlive
  have hs : s.Sound := empty_sound.run steps
  constructor
  · intro hstring
    exact loadQuery?_of_string (hs.value?_of_holdsFirst hlive hstring (Nat.zero_le _))
  · intro hdepth hdocument
    -- Without repeated keys no entry is dropped, and sorting the entries keeps the depth.
    have hroom : (PropertyValue.json (.ofJson j)).payloadDepth ≤ 126 :=
      Nat.le_trans (Nat.le_of_eq (Json.depth_canonical hkeys)) hdepth
    have hload : s.loadQuery? node = (definitionResult found).map (some ·.reread) := by
      rw [loadQuery?_of_document (hs.value?_of_holdsFirst hlive hdocument hroom),
        QueryDefinition.ofDocument_reread, ← hsame]
      show (definitionResult (found.map QueryDefinition.reread)).map some = _
      cases found <;> rfl
    refine ⟨hload, ?_⟩
    rw [hload]
    cases found with
    | error fault => simp [definitionResult, Except.map]
    | ok d => simp [definitionResult, Except.map, d.reread_eq_iff]

/-- A definition in lists that compares with 1.2e+24, of which the text is read as the double below,
and the text of this one as 1.2e+24 again: of two nodes that hold the definition, as a text and as a
document, only the first one loads it. -/
theorem loadQuery?_run_of_holdsFirst_listed :
    let id (i : Nat) (h : i < 2 ^ 128) : NodeId := ⟨i, h⟩
    let create (id : NodeId) (systemId : Option String) : Step :=
      ⟨5, .graph (.createNode ⟨id, "", systemId, none, []⟩)⟩
    let save (id : NodeId) (value : PropertyValue) : Step :=
      ⟨6, .graph (.setProperty id Handle.fieldQueryDefinition value none)⟩
    let price : Binary64 := ⟨false, 8940696716308594, 27, by decide⟩
    let listed : Json := .array [.array [.array
      [.string "property", .string "price", .string "eq", .number (.double price)]]]
    let raw := listed.render
    let j := listed.reread
    let text := id 2 (by decide)
    let document := id 3 (by decide)
    let s := Store.empty.run [create (id 1 (by decide)) (some Handle.fieldQueryDefinition),
      create text none, create document none, save text (.string raw),
      save document (.json (.ofJson j))]
    Json.ofString? raw = some j ∧ ∃ d, QueryDefinition.ofText raw = .ok d ∧ d.reread ≠ d ∧
      s.loadQuery? text = .ok (some d) ∧ s.loadQuery? document = .ok (some d.reread) := by
  intro id create save price listed raw j text document s
  have hraw : Json.ofString? raw = some j := by
    rw [Json.ofString?_render, if_pos (by decide)]
  have hkeys : j.KeysApart := by
    simp [j, listed, Json.reread, Json.rereadItems, Json.KeysApart, Json.ItemsApart]
  have hs : s.Sound := empty_sound.run _
  have hlive : s.IsLive text ∧ s.IsLive document := by
    rw [hs.isLive_iff, hs.isLive_iff]
    unfold Holds
    exact ⟨⟨none, by decide +kernel⟩, ⟨none, by decide +kernel⟩⟩
  have htext : s.HoldsFirst text Handle.fieldQueryDefinition (.string raw) :=
    ⟨_, [], rfl, by decide +kernel⟩
  have hdocument : s.HoldsFirst document Handle.fieldQueryDefinition (.json (.ofJson j)) :=
    ⟨_, [], rfl, by decide +kernel⟩
  obtain ⟨-, hload⟩ := loadQuery?_run_of_holdsFirst hraw hkeys
  have hchanged : (QueryDefinition.ofText raw).toOption.map (fun d => decide d.ReadsBack) =
      some false := by decide +kernel
  cases hread : QueryDefinition.ofText raw with
  | error fault =>
    rw [hread] at hchanged
    cases hchanged
  | ok d =>
    rw [hread] at hload hchanged
    have hdiffers : d.reread ≠ d :=
      mt d.reread_eq_iff.mp (of_decide_eq_false (Option.some.inj hchanged))
    exact ⟨hraw, d, rfl, hdiffers, (hload _ text hlive.1).1 htext,
      ((hload _ document hlive.2).2 (by decide) hdocument).1⟩

end Store

end TagGraph
