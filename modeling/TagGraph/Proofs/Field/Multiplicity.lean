import TagGraph.Proofs.Field.Creation
import TagGraph.Proofs.Field.Declared
import TagGraph.Proofs.Inheritance.Runs

/-!
# When a field takes a second row

A field that is not of type `nodes` ought to have one row of each node at most
(`Store.SingleValued`). A write of one value sees to it, but a write of several values does not look
at the type of the field again after it has checked the values, supertags are assigned whatever
`field:supertag` is declared to be, and without `field:fieldType` no field is of type `nodes`.
`Store.Overfills` tells what edits go wrong in this way: exactly these leave a store that has been
single-valued with a second row (`Store.Sound.singleValued_after_iff`), and a run keeps a store
single-valued exactly as long as none of them comes by (`Store.Sound.runGraph_singleValued_iff`).
-/

namespace TagGraph

namespace Store

open Edit

variable {s s' : Store}

/-- Certain fields have one row of each node at most. -/
def AtMostOne (s : Store) (fields : NodeId → Prop) : Prop :=
  ∀ node field, fields field → (s.fieldRecords node field).length ≤ 1

/-- A field is not of type `nodes`. It need not have a type. -/
def IsSingle (s : Store) (field : NodeId) : Prop :=
  s.fieldType? field ≠ .ok (some .nodes)

/-- Fields that are not of type `nodes` have one row of each node at most. -/
def SingleValued (s : Store) : Prop :=
  s.AtMostOne s.IsSingle

/-- An edit leaves several rows of a node in a field that is not of type `nodes`. -/
inductive Overfills (s : Store) (now : Int) : GraphEdit → Prop
  /-- Several values are written. -/
  | setPropertyValues {node : NodeId} {field : String} {values : List PropertyValue}
      {fieldNode : Node} (found : s.findLive? field = .ok (some fieldNode))
      (single : s.IsSingle fieldNode.id) (several : 2 ≤ values.length)
      (written : Succeeds (setPropertyValues now node field values) s) :
      Overfills s now (.setPropertyValues node field values)
  /-- Supertags are written as several values of `field:supertag`. -/
  | setSupertags {node : NodeId} {supertags : List String} {ids : List NodeId}
      (named : NamesLive s supertags ids)
      (written : Overfills s now
        (.setPropertyValues node Handle.fieldSupertag (ids.map .node))) :
      Overfills s now (.setSupertags node supertags)
  /-- A supertag is assigned behind others. -/
  | attachSupertag {node supertag field : NodeId}
      (held : s.Holds (.known field) (some Handle.fieldSupertag)) (single : s.IsSingle field)
      (filled : s.fieldRecords node field ≠ [])
      (written : ∃ s', attachSupertag now node supertag s = .ok true s') :
      Overfills s now (.attachSupertag node supertag)
  | addSupertag {node : NodeId} {supertag : String} {n : Node}
      (found : s.findLive? supertag = .ok (some n))
      (written : Overfills s now (.attachSupertag node n.id)) :
      Overfills s now (.addSupertag node supertag)
  /-- A node is created with several supertags. -/
  | createNode {n : NewNode} {ids : List NodeId} {field : NodeId}
      (held : s.Holds (.known field) (some Handle.fieldSupertag)) (single : s.IsSingle field)
      (named : NamesLive s n.supertags ids) (several : 2 ≤ (unseen [] ids).length)
      (written : Succeeds (createNode now n) s) : Overfills s now (.createNode n)
  /-- All types are deleted while some field has several rows. -/
  | deleteNode {id node field : NodeId}
      (held : s.Holds (.known id) (some Handle.fieldFieldType))
      (several : 2 ≤ (s.fieldRecords node field).length) : Overfills s now (.deleteNode id)

/-! ## Types after an edit -/

/-- Unless all types go, what is not of type `nodes` stays so, and the other way round. -/
theorem Changes.isSingle_eq (h : Changes s s') (hs : s.Sound) (hsame : SameDeclarations s s')
    (hkept : ¬ LosesTypes s s') : s'.IsSingle = s.IsSingle := by
  rcases Changes.fieldType?_eq_or_gone h hs hsame with ⟨-, heq⟩ | ⟨hlost, -⟩
  · exact funext fun field => by rw [IsSingle, IsSingle, heq]
  · exact absurd hlost hkept

/-- Where live nodes keep their handles, types do not go. -/
theorem not_losesTypes_of_holds
    (h : ∀ id handle, s.Holds id handle → s'.Holds id handle) : ¬ LosesTypes s s' := by
  rintro ⟨typeField, hheld, hlost⟩
  exact hlost (h _ _ hheld)

end Store

namespace Edit

open Store

variable {α : Type} {s s' : Store} {now : Int} {node : NodeId} {field : String}
  {values : List PropertyValue}

/-! ## Edits of one field -/

namespace EditsField

variable {e : Edit α}

/-- Other fields, and those of other nodes, keep their rows. -/
theorem fieldRecords_beside (he : EditsField e s node field values) (hs : s.Sound)
    {fieldNode : Node} (hfound : s.findLive? field = .ok (some fieldNode)) {n f : NodeId}
    (hne : ¬ (n = node ∧ f = fieldNode.id)) :
    (e.after s).fieldRecords n f = s.fieldRecords n f := by
  have honly : OnlyField node fieldNode.id s (e.after s) :=
    ⟨fun _ _ => he.holds_iff hs, (he.beside hs hfound).rows⟩
  exact honly.fieldRecords_eq hne

/-- After an edit of one field it is the rows of that field that count. -/
theorem atMostOne_after_iff (he : EditsField e s node field values) (hs : s.Sound)
    {fields : NodeId → Prop} (h : s.AtMostOne fields) :
    (e.after s).AtMostOne fields ↔ ∀ fieldNode, s.findLive? field = .ok (some fieldNode) →
      fields fieldNode.id → ((e.after s).fieldRecords node fieldNode.id).length ≤ 1 := by
  refine ⟨fun hafter fieldNode _ hfield => hafter node fieldNode.id hfield, fun hown n f hf => ?_⟩
  by_cases hfound : ∃ fieldNode, s.findLive? field = .ok (some fieldNode)
  · obtain ⟨fieldNode, hfound⟩ := hfound
    by_cases hat : n = node ∧ f = fieldNode.id
    · obtain ⟨rfl, rfl⟩ := hat
      exact hown fieldNode hfound hf
    · rw [he.fieldRecords_beside hs hfound hat]
      exact h n f hf
  · rcases he with hsame | ⟨fieldNode, hadmits, -⟩
    · rw [hsame]
      exact h n f hf
    · exact absurd ⟨fieldNode, hadmits.found⟩ hfound

/-- So it is for all fields that are not of type `nodes`, if the edit succeeds. -/
theorem singleValued_after_iff (he : EditsField e s node field values) (hs : s.Sound)
    (hchanges : Respects (Natively Changes) e)
    (hwhole : ∀ fieldNode, s.findLive? field = .ok (some fieldNode) → s.IsSingle fieldNode.id →
      IsWhole e s)
    (hsame : SameDeclarations s (e.after s)) (h : s.SingleValued) :
    (e.after s).SingleValued ↔ ∀ a s', e s = .ok a s' →
      ∀ fieldNode, s.findLive? field = .ok (some fieldNode) → s.IsSingle fieldNode.id →
        (s'.fieldRecords node fieldNode.id).length ≤ 1 := by
  rw [SingleValued, Changes.isSingle_eq (hchanges s hs.native).2 hs hsame
    (not_losesTypes_of_holds fun _ _ => (he.holds_iff hs).mpr), he.atMostOne_after_iff hs h]
  constructor
  · intro hone a s' hrun fieldNode hfound hsingle
    rw [← after_of_ok hrun]
    exact hone fieldNode hfound hsingle
  · intro hone fieldNode hfound hsingle
    cases hrun : e s with
    | ok a s' =>
      rw [after_of_ok hrun]
      exact hone a s' hrun fieldNode hfound hsingle
    | error err s' =>
      rw [after_of_error hrun, hwhole fieldNode hfound hsingle err s' hrun]
      exact h node fieldNode.id hsingle

end EditsField

/-- After a write of one value a field that takes one has one row. -/
theorem setProperty_length (hs : s.Sound) {value : PropertyValue} {order : Option Int}
    (h : setProperty now node field value order s = .ok () s') {fieldNode : Node}
    (hfound : s.findLive? field = .ok (some fieldNode))
    (hone : ∀ type, Sets s s' node value field fieldNode type → TakesOne type) :
    (s'.fieldRecords node fieldNode.id).length = 1 := by
  obtain ⟨fieldNode', type, hsets⟩ := setProperty_ok hs h
  obtain rfl := Option.some.inj (Except.ok.inj (hsets.admits.found.symm.trans hfound))
  obtain ⟨raw, -, htexts⟩ := hsets.written (hone type hsets)
  rw [length_fieldRecords, htexts]
  rfl

/-- A write of one value keeps a store single-valued. -/
theorem setProperty_singleValued (hs : s.Sound) {value : PropertyValue} {order : Option Int}
    (hsame : SameDeclarations s ((setProperty now node field value order).after s))
    (h : s.SingleValued) : ((setProperty now node field value order).after s).SingleValued := by
  have hwhole : ∀ fieldNode, s.findLive? field = .ok (some fieldNode) →
      s.IsSingle fieldNode.id → IsWhole (setProperty now node field value order) s := by
    intro fieldNode hfound hsingle
    refine setProperty_whole hs now node value order fun fieldNode' hfound' _ => ?_
    obtain rfl := Option.some.inj (Except.ok.inj (hfound'.symm.trans hfound))
    exact hsingle
  refine ((setProperty_editsField now node field value order s).singleValued_after_iff hs
    (setProperty_respects .changes now node field value order) hwhole hsame h).mpr
    fun _ s' hrun fieldNode hfound hsingle => ?_
  exact Nat.le_of_eq (setProperty_length hs hrun hfound fun type hsets =>
    takesOne_of_ne fun hnodes => hsingle (hnodes ▸ hsets.declared))

/-- After a write of several values there are as many rows. -/
theorem setPropertyValues_length (hs : s.Sound)
    (h : setPropertyValues now node field values s = .ok () s') {fieldNode : Node}
    (hfound : s.findLive? field = .ok (some fieldNode)) :
    (s'.fieldRecords node fieldNode.id).length = values.length := by
  obtain ⟨fieldNode', type, raws, hadmits, -, -, hraws, htexts⟩ := setPropertyValues_ok hs h
  obtain rfl := Option.some.inj (Except.ok.inj (hadmits.found.symm.trans hfound))
  rw [length_fieldRecords, htexts, hraws.length_eq]

theorem setPropertyValues_singleValued_iff (hs : s.Sound)
    (hsame : SameDeclarations s ((setPropertyValues now node field values).after s))
    (h : s.SingleValued) : ((setPropertyValues now node field values).after s).SingleValued ↔
      ¬ s.Overfills now (.setPropertyValues node field values) := by
  rw [(setPropertyValues_editsField now node field values s).singleValued_after_iff hs
    (setPropertyValues_respects .changes now node field values)
    (fun _ _ _ => setPropertyValues_whole hs now node field values) hsame h]
  constructor
  · intro hone hover
    cases hover with
    | setPropertyValues hfound hsingle hseveral hwritten =>
      obtain ⟨_, s', hrun⟩ := hwritten
      have hlength := hone _ s' hrun _ hfound hsingle
      rw [setPropertyValues_length hs hrun hfound] at hlength
      omega
  · intro hnot _ s' hrun fieldNode hfound hsingle
    rw [setPropertyValues_length hs hrun hfound]
    by_contra hseveral
    exact hnot (.setPropertyValues hfound hsingle (by omega) ⟨_, s', hrun⟩)

/-- Where rows are removed, no second one comes up. -/
theorem removeProperty_singleValued (hs : s.Sound)
    (hsame : SameDeclarations s ((removeProperty now node field).after s)) (h : s.SingleValued) :
    ((removeProperty now node field).after s).SingleValued := by
  refine ((removeProperty_editsField now node field s).singleValued_after_iff hs
    (removeProperty_respects .changes now node field)
    (fun _ _ _ => removeProperty_whole now node field) hsame h).mpr
    fun removed s' hrun fieldNode hfound _ => ?_
  obtain ⟨hlive, -⟩ := removeProperty_succeeds_iff.mp ⟨removed, s', hrun⟩
  obtain ⟨t, hremove, -, hnone⟩ := removeProperty_values hs now hlive hfound
  obtain ⟨-, rfl⟩ := EStateM.Result.ok.inj (hremove.symm.trans hrun)
  rw [hnone]
  exact Nat.zero_le 1

/-! ## Supertags -/

theorem attachSupertag_singleValued_iff (hs : s.Sound) {supertag : NodeId} (h : s.SingleValued) :
    ((attachSupertag now node supertag).after s).SingleValued ↔
      ¬ s.Overfills now (.attachSupertag node supertag) := by
  have hedits := attachSupertag_editsField now node supertag s
  rw [hedits.singleValued_after_iff hs (attachSupertag_respects .changes now node supertag)
    (fun _ _ _ => attachSupertag_whole hs now node supertag)
    (hedits.sameDeclarations_of_isName hs isName_fieldSupertag (by decide)) h]
  constructor
  · intro hone hover
    cases hover with
    | attachSupertag hheld hsingle hfilled hwritten =>
      obtain ⟨s', hrun⟩ := hwritten
      obtain ⟨fieldNode, hfound, rfl, -⟩ := hs.findLive?_of_holds isName_fieldSupertag hheld
      have hlength := hone _ s' hrun _ hfound hsingle
      have hpos := List.length_pos_of_ne_nil hfilled
      rcases attachSupertag_rows hs hheld hrun with ⟨hnot, -⟩ | ⟨-, r, hrows⟩
      · cases hnot
      · rw [hrows, List.length_append, List.length_singleton] at hlength
        omega
  · intro hnot added s' hrun fieldNode hfound hsingle
    have hheld := hs.holds_of_found isName_fieldSupertag hfound
    rcases attachSupertag_rows hs hheld hrun with ⟨-, rfl⟩ | ⟨rfl, r, hrows⟩
    · exact h node fieldNode.id hsingle
    · have hempty : s.fieldRecords node fieldNode.id = [] := by
        by_contra hfilled
        exact hnot (.attachSupertag hheld hsingle hfilled ⟨s', hrun⟩)
      rw [hrows, hempty]
      exact Nat.le_refl 1

/-- What goes on after a look at the store decides, if an edit that leaves several rows comes to
that. -/
theorem Reads.bind_singleValued_iff {β : Type} {look : Edit α} {rest : α → Edit β} {e : GraphEdit}
    (hlook : Reads look) (h : s.SingleValued)
    (hgiven : s.Overfills now e → Succeeds look s)
    (hrest : ∀ a, look s = .ok a s →
      (((rest a).after s).SingleValued ↔ ¬ s.Overfills now e)) :
    ((look >>= rest).after s).SingleValued ↔ ¬ s.Overfills now e := by
  cases hrun : look s with
  | error err s' =>
    have hsame := hlook s
    rw [after_of_error hrun] at hsame
    rw [after_bind_of_error hrun, hsame]
    refine iff_of_true h fun hover => ?_
    obtain ⟨_, _, hok⟩ := hgiven hover
    cases hrun.symm.trans hok
  | ok a s' =>
    obtain rfl := hlook.eq_of_ok hrun
    rw [after_bind_of_ok hrun]
    exact hrest a hrun

theorem addSupertag_singleValued_iff (hs : s.Sound) {supertag : String} (h : s.SingleValued) :
    ((addSupertag now node supertag).after s).SingleValued ↔
      ¬ s.Overfills now (.addSupertag node supertag) := by
  refine (requireSupertag_reads supertag).bind_singleValued_iff h (fun hover => ?_)
    fun tag hgiven => ?_
  · cases hover with
    | addSupertag hfound => exact ⟨_, s, requireSupertag_of hfound⟩
  · rw [attachSupertag_singleValued_iff hs h]
    have hnamed : s.findLive? supertag = .ok (some tag) :=
      ask_require_ok (·.findLive? supertag) hgiven
    refine not_congr ⟨.addSupertag hnamed, fun hover => ?_⟩
    cases hover with
    | addSupertag hfound hover =>
      obtain rfl := Option.some.inj (Except.ok.inj (hnamed.symm.trans hfound))
      exact hover

theorem setSupertags_singleValued_iff (hs : s.Sound) {supertags : List String}
    (h : s.SingleValued) : ((setSupertags now node supertags).after s).SingleValued ↔
      ¬ s.Overfills now (.setSupertags node supertags) := by
  refine (requireSupertags_reads supertags).bind_singleValued_iff h (fun hover => ?_)
    fun ids hgiven => ?_
  · cases hover with
    | setSupertags hnamed => exact ⟨_, s, requireSupertags_of hnamed⟩
  · have hedits := setPropertyValues_editsField now node Handle.fieldSupertag (ids.map .node) s
    rw [setPropertyValues_singleValued_iff hs
      (hedits.sameDeclarations_of_isName hs isName_fieldSupertag (by decide)) h]
    refine not_congr ⟨.setSupertags (requireSupertags_ok hgiven), fun hover => ?_⟩
    cases hover with
    | setSupertags hnamed hover =>
      obtain ⟨rfl, -⟩ := EStateM.Result.ok.inj (hgiven.symm.trans (requireSupertags_of hnamed))
      exact hover

/-! ## Nodes -/

theorem createNode_singleValued_iff (hs : s.Sound) {n : NewNode}
    (hsame : SameDeclarations s ((createNode now n).after s)) (h : s.SingleValued) :
    ((createNode now n).after s).SingleValued ↔ ¬ s.Overfills now (.createNode n) := by
  cases hrun : createNode now n s with
  | error err s' =>
    rw [after_of_error hrun, createNode_whole now n err s' hrun]
    refine iff_of_true h fun hover => ?_
    cases hover with
    | createNode _ _ _ _ hwritten =>
      obtain ⟨_, _, hok⟩ := hwritten
      cases hrun.symm.trans hok
  | ok id s' =>
    obtain ⟨supertags, hcreates⟩ := createNode_ok hs hrun
    have hchanges := (TableLaw.changes.graph.createNode now n s hs.native).2
    rw [after_of_ok hrun] at hsame hchanges ⊢
    rw [SingleValued, Changes.isSingle_eq hchanges hs hsame
      (not_losesTypes_of_holds fun _ _ => hcreates.holds)]
    constructor
    · intro hone hover
      cases hover with
      | @createNode _ ids field hheld hsingle hnamed hseveral =>
        have hids := (requireSupertags_of hnamed).symm.trans (requireSupertags_of hcreates.named)
        obtain ⟨rfl, -⟩ := EStateM.Result.ok.inj hids
        have hlength := hone n.id field hsingle
        rw [hcreates.length_fieldRecords hs hheld] at hlength
        omega
    · intro hnot node field hsingle
      by_cases hat : node = n.id ∧ s.Holds (.known field) (some Handle.fieldSupertag)
      · obtain ⟨rfl, hheld⟩ := hat
        rw [hcreates.length_fieldRecords hs hheld]
        by_contra hseveral
        exact hnot (.createNode hheld hsingle hcreates.named (by omega) ⟨id, s', hrun⟩)
      · rw [hcreates.fieldRecords_eq hat]
        exact h node field hsingle

/-- A node that has been deleted is not live. -/
theorem not_isLive_deleteNode (hs : s.Sound) (now : Int) (id : NodeId) :
    ¬ ((deleteNode now id).after s).IsLive id := by
  have hs' := hs.after (TableLaw.changes.deleteNode now id)
  by_cases hlive : s.IsLive id
  · obtain ⟨n, hn⟩ := hlive
    obtain ⟨-, rfl⟩ := hs.node?_eq_some_iff.mp hn
    have hdelete := hs.deleteNode_eq hn now
    rw [after_of_ok hdelete] at hs' ⊢
    exact hs'.not_isLive_of_isBuried ⟨_, hs.recordOf?_buried hn now, rfl⟩
  · intro hafter
    obtain ⟨handle, hholds⟩ := hs'.isLive_iff.mp hafter
    exact hlive (hs.isLive_iff.mpr ⟨handle, (deleteNode_buriesOnly now id).held _ _ hholds⟩)

/-- Where rows are as before, no field has a further one. -/
theorem BuriesOnly.atMostOne {meant : NodeId → Prop} {fields : NodeId → Prop}
    (hburies : BuriesOnly meant s s') (h : s.AtMostOne fields) : s'.AtMostOne fields := by
  intro n f hf
  rw [hburies.fieldRecords_eq]
  exact h n f hf

theorem deleteNode_singleValued_iff (hs : s.Sound) {id : NodeId} (h : s.SingleValued) :
    ((deleteNode now id).after s).SingleValued ↔ ¬ s.Overfills now (.deleteNode id) := by
  have hburies := deleteNode_buriesOnly (s := s) now id
  have hchanges := TableLaw.changes.deleteNode now id
  have hs' := hs.after hchanges
  have hsame := hburies.sameDeclarations
  rcases Changes.fieldType?_eq_or_gone (hchanges s hs.native).2 hs hsame with
    ⟨hkept, -⟩ | ⟨⟨typeField, hheld, hlost⟩, hnone⟩
  · rw [SingleValued, Changes.isSingle_eq (hchanges s hs.native).2 hs hsame hkept]
    refine iff_of_true (hburies.atMostOne h) fun hover => ?_
    cases hover with
    | deleteNode hheld =>
      refine hkept ⟨id, hheld, fun hafter => not_isLive_deleteNode hs now id ?_⟩
      exact hs'.isLive_iff.mpr ⟨_, hafter⟩
  · obtain rfl : typeField = id := by_contra fun hne => hlost (hburies.kept _ _ hne hheld)
    have hsingle : ∀ field, ((deleteNode now typeField).after s).IsSingle field := by
      intro field htype
      cases (hnone field).symm.trans htype
    constructor
    · intro hone hover
      cases hover with
      | @deleteNode _ node field _ hseveral =>
        have hlength := hone node field (hsingle field)
        rw [hburies.fieldRecords_eq] at hlength
        omega
    · intro hnot node field _
      rw [hburies.fieldRecords_eq]
      by_contra hlength
      have hseveral : 2 ≤ (s.fieldRecords node field).length := by omega
      exact hnot (.deleteNode hheld hseveral)

theorem updateContent_singleValued (hs : s.Sound) (id : NodeId) (content : String)
    (h : s.SingleValued) : ((updateContent now id content).after s).SingleValued := by
  have hburies := updateContent_buriesOnly (s := s) now id content
  have hchanges := TableLaw.changes.updateContent now id content
  have hkept : ¬ LosesTypes s ((updateContent now id content).after s) := by
    rintro ⟨typeField, hheld, hlost⟩
    exact hlost (hburies.kept _ _ not_false hheld)
  rw [SingleValued, Changes.isSingle_eq (hchanges s hs.native).2 hs hburies.sameDeclarations hkept]
  exact hburies.atMostOne h

end Edit

/-! ## Edits of the graph -/

/-- An edit of the graph that leaves the rows of `field:fieldType` keeps a store single-valued,
unless it is one of those that leave several rows. -/
theorem Store.Sound.singleValued_after_iff {s : Store} (hs : s.Sound) {now : Int} {e : GraphEdit}
    (hsame : s.SameDeclarations ((e.edit now).after s)) (h : s.SingleValued) :
    ((e.edit now).after s).SingleValued ↔ ¬ s.Overfills now e := by
  have hdiscard : ∀ {α : Type} (part : Edit α),
      (Functor.discard part : Edit Unit).after s = part.after s := fun part =>
    Edit.after_discard part s
  cases e with
  | createNode n =>
    rw [GraphEdit.edit, hdiscard] at hsame ⊢
    exact Edit.createNode_singleValued_iff hs hsame h
  | updateContent id content =>
    exact iff_of_true (Edit.updateContent_singleValued hs id content h) fun hover => nomatch hover
  | deleteNode id => exact Edit.deleteNode_singleValued_iff hs h
  | setProperty node field value order =>
    exact iff_of_true (Edit.setProperty_singleValued hs hsame h) fun hover => nomatch hover
  | setPropertyValues node field values =>
    exact Edit.setPropertyValues_singleValued_iff hs hsame h
  | removeProperty node field =>
    rw [GraphEdit.edit, hdiscard] at hsame ⊢
    exact iff_of_true (Edit.removeProperty_singleValued hs hsame h) fun hover => nomatch hover
  | addSupertag node supertag =>
    rw [GraphEdit.edit, hdiscard]
    exact Edit.addSupertag_singleValued_iff hs h
  | attachSupertag node supertag =>
    rw [GraphEdit.edit, hdiscard]
    exact Edit.attachSupertag_singleValued_iff hs h
  | setSupertags node supertags => exact Edit.setSupertags_singleValued_iff hs h

/-- All stores of a run that leaves the rows of `field:fieldType` are single-valued if and only if
the first one is and no edit on the way leaves several rows. -/
theorem Store.Sound.runGraph_singleValued_iff {s : Store} (hs : s.Sound) (h : s.SingleValued)
    (edits : List GraphStep)
    (hsame : ∀ taken next, taken ++ [next] <+: edits →
      (s.runGraph taken).SameDeclarations (s.runGraph (taken ++ [next]))) :
    (∀ taken, taken <+: edits → (s.runGraph taken).SingleValued) ↔
      ∀ taken next, taken ++ [next] <+: edits →
        ¬ (s.runGraph taken).Overfills next.now next.edit := by
  have hstep : ∀ taken next, taken ++ [next] <+: edits → (s.runGraph taken).SingleValued →
      ((s.runGraph (taken ++ [next])).SingleValued ↔
        ¬ (s.runGraph taken).Overfills next.now next.edit) := by
    intro taken next hnext hbefore
    have hkept := hsame taken next hnext
    rw [runGraph_concat] at hkept ⊢
    exact (hs.run _).singleValued_after_iff hkept hbefore
  constructor
  · intro hall taken next hnext
    have hbefore := hall taken ((List.prefix_append taken [next]).trans hnext)
    exact (hstep taken next hnext hbefore).mp (hall _ hnext)
  · intro hnone taken
    induction taken using List.reverseRecOn with
    | nil => exact fun _ => h
    | append_singleton taken next ih =>
      intro hnext
      have hbefore := ih ((List.prefix_append taken [next]).trans hnext)
      exact (hstep taken next hnext hbefore).mpr (hnone taken next hnext)

end TagGraph
