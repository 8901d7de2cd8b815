import TagGraph.Proofs.Field.Frame
import TagGraph.Proofs.Query.Sparing

/-!
# Declared types

The type of a field is declared in a row of `field:fieldType`. While the rows of that field stay
what they are (`Store.SameDeclarations`), all fields keep their types, or all types are gone with
the node of `field:fieldType` (`Store.Changes.fieldType?_eq_or_gone`). A node that takes over the
handle declares nothing. An edit of the graph that is not told to write to the field leaves its rows
(`Edit.graphEdit_sameDeclarations`).
-/

namespace TagGraph

namespace Store

open Edit

variable {s s' : Store}

/-- The rows of `field:fieldType` say what they said before, those of a node that has become
`field:fieldType` included. -/
def SameDeclarations (s s' : Store) : Prop :=
  ∀ field typeField, s.Holds (.known typeField) (some Handle.fieldFieldType) ∨
    s'.Holds (.known typeField) (some Handle.fieldFieldType) →
      s'.texts field typeField = s.texts field typeField

/-- A step edits the graph or a saved query and leaves the rows of `field:fieldType`. -/
def LeavesDeclarations (s : Store) (step : Step) : Prop :=
  match step.operation with
  | .graph _ | .query _ => s.SameDeclarations (s.step step)
  | .table _ | .bootstrap _ => False

/-- The node of `field:fieldType` has been deleted. -/
def LosesTypes (s s' : Store) : Prop :=
  ∃ typeField, s.Holds (.known typeField) (some Handle.fieldFieldType) ∧
    ¬ s'.Holds (.known typeField) (some Handle.fieldFieldType)

/-- Where `field:fieldType` has no rows, no field has a type. -/
theorem Sound.fieldType?_of_texts_nil (hs : s.Sound) {field : NodeId}
    (h : ∀ typeField, s.Holds (.known typeField) (some Handle.fieldFieldType) →
      s.texts field typeField = []) : s.fieldType? field = .ok none := by
  by_cases hdeclared : ∃ typeField, s.Holds (.known typeField) (some Handle.fieldFieldType)
  · obtain ⟨typeField, htypeField⟩ := hdeclared
    rw [hs.fieldType?_eq htypeField, h typeField htypeField]
    rfl
  · exact hs.fieldType?_of_gone hdeclared field

namespace Changes

/-- A field that is new has no type. -/
theorem fieldType?_of_new (h : Changes s s') (hs : s.Sound) (hsame : SameDeclarations s s')
    {field : NodeId} (hnew : StoredId.known field ∉ s.nodes.map (·.id)) :
    s'.fieldType? field = .ok none := by
  refine (Changes.sound h hs).fieldType?_of_texts_nil fun typeField htypeField => ?_
  rw [hsame field typeField (Or.inr htypeField), hs.texts_of_new hnew]

/-- All fields keep their types, or all types are gone together. -/
theorem fieldType?_eq_or_gone (h : Changes s s') (hs : s.Sound) (hsame : SameDeclarations s s') :
    ¬ LosesTypes s s' ∧ (∀ field, s'.fieldType? field = s.fieldType? field) ∨
      LosesTypes s s' ∧ ∀ field, s'.fieldType? field = .ok none := by
  have hs' := Changes.sound h hs
  -- Unless it has been `field:fieldType` before, the node that is so now has no rows.
  have hgone : (∀ typeField, s.Holds (.known typeField) (some Handle.fieldFieldType) →
      ¬ s'.Holds (.known typeField) (some Handle.fieldFieldType)) →
        ∀ field, s'.fieldType? field = .ok none := by
    intro hlost field
    refine hs'.fieldType?_of_texts_nil fun typeField htypeField => ?_
    rcases Changes.holds_or_new h htypeField with hold | hnew
    · exact absurd htypeField (hlost typeField hold)
    · rw [hsame field typeField (Or.inr htypeField), hs.texts_of_new_field hnew]
  by_cases hlost : LosesTypes s s'
  · refine Or.inr ⟨hlost, hgone fun typeField hold => ?_⟩
    obtain ⟨lost, hheld, hnot⟩ := hlost
    obtain rfl := StoredId.known.inj (hs.holds_unique hheld hold)
    exact hnot
  · refine Or.inl ⟨hlost, fun field => ?_⟩
    by_cases hdeclared : ∃ typeField, s.Holds (.known typeField) (some Handle.fieldFieldType)
    · obtain ⟨typeField, htypeField⟩ := hdeclared
      have hkept : s'.Holds (.known typeField) (some Handle.fieldFieldType) :=
        not_not.mp fun hnot => hlost ⟨typeField, htypeField, hnot⟩
      rw [hs.fieldType?_eq htypeField, hs'.fieldType?_eq hkept, hsame field typeField (Or.inl
        htypeField)]
    · rw [hs.fieldType?_of_gone hdeclared]
      exact hgone (fun typeField hold => absurd ⟨typeField, hold⟩ hdeclared) field

/-- A type that a field has, it has had before. -/
theorem fieldType?_of_some (h : Changes s s') (hs : s.Sound) (hsame : SameDeclarations s s')
    {field : NodeId} {type : FieldType} (htype : s'.fieldType? field = .ok (some type)) :
    s.fieldType? field = .ok (some type) := by
  rcases fieldType?_eq_or_gone h hs hsame with ⟨-, heq⟩ | ⟨-, hnone⟩
  · rw [← heq, htype]
  · cases (hnone field).symm.trans htype

end Changes

end Store

namespace Edit

open Store

variable {α : Type} {s : Store} {node : NodeId} {field : String} {values : List PropertyValue}

/-- An edit of another field than `field:fieldType` declares no types. -/
theorem EditsField.sameDeclarations {e : Edit α} (he : EditsField e s node field values)
    (hs : s.Sound) (hfield : ∀ fieldNode, s.findLive? field = .ok (some fieldNode) →
      fieldNode.systemId ≠ some Handle.fieldFieldType) : SameDeclarations s (e.after s) := by
  intro declared typeField htypeField
  rw [he.holds_iff hs, or_self] at htypeField
  by_cases hfound : ∃ fieldNode, s.findLive? field = .ok (some fieldNode)
  · obtain ⟨fieldNode, hfound⟩ := hfound
    refine he.texts_beside hs hfound fun hat => hfield fieldNode hfound ?_
    have hholds := hs.holds_of_findLive? hfound
    rw [← hat.2] at hholds
    exact hs.handle_unique hholds htypeField
  · rcases he with hsame | ⟨fieldNode, hadmits, -⟩
    · rw [hsame]
    · exact absurd ⟨fieldNode, hadmits.found⟩ hfound

/-- The same, of a field that is known by its handle. -/
theorem EditsField.sameDeclarations_of_isName {e : Edit α}
    (he : EditsField e s node field values) (hs : s.Sound) (hname : IsName field)
    (hne : field ≠ Handle.fieldFieldType) : SameDeclarations s (e.after s) :=
  he.sameDeclarations hs fun fieldNode hfound hhandle => by
    rw [systemId_of_findLive? hname.trimmed hname.notId hfound] at hhandle
    exact hne (Option.some.inj hhandle)

/-- Where rows are as before, so are declarations. -/
theorem BuriesOnly.sameDeclarations {s' : Store} {meant : NodeId → Prop}
    (h : BuriesOnly meant s s') : SameDeclarations s s' :=
  fun _ _ _ => h.texts_eq _ _

/-- An edit of the graph that is not told to write to `field:fieldType` leaves its rows. -/
theorem graphEdit_sameDeclarations (now : Int) {e : GraphEdit} (hs : s.Sound)
    (h : ∀ node field fieldNode, e.direct? = some (node, field) →
      s.findLive? field = .ok (some fieldNode) →
        fieldNode.systemId ≠ some Handle.fieldFieldType) :
    SameDeclarations s ((e.edit now).after s) := by
  cases graphEdit_kind s now e with
  | createNode n =>
    have hafter : (GraphEdit.edit now (.createNode n)).after s = (createNode now n).after s :=
      after_discard _ s
    rw [hafter]
    have hkeeps := createNode_allButFields now n hs
    have hs' := hs.after (TableLaw.changes.graph.createNode now n)
    refine fun field typeField htypeField => hkeeps.texts field typeField fun hsupertag => ?_
    have htypeField' : ((createNode now n).after s).Holds (.known typeField)
        (some Handle.fieldFieldType) := htypeField.elim (hkeeps.holds _ _) id
    have hsame := hs'.handle_unique (hkeeps.holds _ _ hsupertag) htypeField'
    exact absurd (Option.some.inj hsame) (by decide)
  | updateContent id content =>
    exact (updateContent_buriesOnly now id content).sameDeclarations
  | deleteNode id => exact (deleteNode_buriesOnly now id).sameDeclarations
  | @editsField _ node field values hedits htold =>
    rcases htold with hdirect | rfl
    · exact hedits.sameDeclarations hs fun fieldNode => h node field fieldNode hdirect
    · exact hedits.sameDeclarations_of_isName hs isName_fieldSupertag (by decide)

end Edit

end TagGraph
