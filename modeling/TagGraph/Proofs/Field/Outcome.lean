import TagGraph.Proofs.Field.Handles
import TagGraph.Proofs.Whole

/-!
# When a write of a field succeeds

A write to a field of a node succeeds exactly if the node is live, the field takes the values, and
there are numbers for the rows (`Store.HasNumbers`); a value that the field holds already needs
none. Removing a field needs no number. What such an edit leaves is told by the texts of the field
and by the last number that has been given out.
-/

namespace TagGraph

namespace Store

/-! ## Numbers of rows -/

/-- The last number that has been given out is one that a row may have. -/
structure Counted (s : Store) : Prop where
  nonneg : 0 ≤ s.lastRowId
  fits : s.lastRowId < 2 ^ 63

/-- Numbers are left for some further rows. -/
def HasNumbers (s : Store) (count : Nat) : Prop :=
  s.lastRowId + count < 2 ^ 63

variable {s s' : Store}

theorem empty_counted : Store.empty.Counted :=
  ⟨Int.le_refl 0, by decide⟩

theorem Sound.nextRowId_lt (hs : s.Sound) {number : Int} (h : s.nextRowId = .ok number) :
    number = s.lastRowId + 1 ∧ number < 2 ^ 63 := by
  have hnumber := hs.nextRowId_eq h
  refine ⟨hnumber, ?_⟩
  by_contra hlarge
  have hfits : ¬ fitsLong (s.lastRowId + 1) = true := by
    simp only [fitsLong, Bool.and_eq_true, decide_eq_true_eq]
    omega
  rw [hs.nextRowId_eq_ite, if_neg hfits] at h
  cases h

theorem Change.counted (h : Change s s') (hs : s.Sound) (hc : s.Counted) : s'.Counted := by
  cases h with
  | addRow now number node field raw order _ _ hnext =>
    obtain ⟨hnumber, hlt⟩ := hs.nextRowId_lt hnext
    have hnonneg := hc.nonneg
    exact ⟨show 0 ≤ number by omega, hlt⟩
  | _ => exact ⟨hc.nonneg, hc.fits⟩

theorem Changes.counted (h : Changes s s') (hs : s.Sound) (hc : s.Counted) : s'.Counted := by
  induction h with
  | refl => exact hc
  | tail hinit hstep ih => exact hstep.counted (Changes.sound hinit hs) ih

/-- An edit that is a sequence of elementary changes gives out no number that a row may not have. -/
theorem Counted.after (hc : s.Counted) (hs : s.Sound) {α : Type} {e : Edit α}
    (he : Edit.Respects (Natively Changes) e) : (e.after s).Counted :=
  (he s hs.native).2.counted hs hc

theorem Counted.run (hc : s.Counted) (hs : s.Sound) (steps : List Step) : (s.run steps).Counted :=
  (run_changes hs.native steps).counted hs hc

/-- A row under a number that had not been given out was not there. -/
theorem Sound.properties_ne (hs : s.Sound) {number : Int} (hlt : s.lastRowId < number)
    (hrow : ∃ r ∈ s'.properties, r.id = .integer number) : s'.properties ≠ s.properties := by
  intro hsame
  obtain ⟨r, hr, hid⟩ := hrow
  rw [hsame] at hr
  obtain ⟨i, hi, hle⟩ := hs.row_id_le hr
  have heq : number = i := Cell.integer.inj (hid.symm.trans hi)
  omega

/-- A change of a live node leaves all nodes as they are exactly if it leaves that one. -/
theorem Sound.updateNode_nodes_eq_iff (hs : s.Sound) {node : NodeId} {n : Node}
    (h : s.node? node = .ok (some n)) (change : NodeRecord → NodeRecord) :
    (s.updateNode node change).nodes = s.nodes ↔ change n.record = n.record := by
  obtain ⟨hlive, rfl⟩ := hs.node?_eq_some_iff.mp h
  obtain ⟨hmem, hactive⟩ := hs.mem_liveNodes.mp hlive
  have hmeant : (n.record.id == StoredId.known n.id && n.record.isLive) = true := by
    rw [Node.isLive_record, hactive]
    exact Bool.and_eq_true_iff.mpr ⟨beq_self_eq_true _, rfl⟩
  have hall := List.map_inj_left (l := s.nodes) (f := fun (r : NodeRecord) =>
    if r.id == StoredId.known n.id && r.isLive then change r else r) (g := id)
  rw [List.map_id] at hall
  rw [Store.updateNode, hall]
  constructor
  · intro h
    have hself := h n.record hmem
    rwa [if_pos hmeant] at hself
  · intro hself r hr
    by_cases hr' : (r.id == StoredId.known n.id && r.isLive) = true
    · obtain rfl := hs.record_unique hr hmem (beq_iff_eq.mp (Bool.and_eq_true_iff.mp hr').1)
      rw [if_pos hr', hself]
      rfl
    · rw [if_neg hr']
      rfl

/-- Noting a change of a node leaves it as it is if it has been changed at that time or later. -/
theorem Sound.touched_nodes_eq_iff (hs : s.Sound) {node : NodeId} {n : Node}
    (h : s.node? node = .ok (some n)) (now : Int) :
    (s.updateNode node fun r => { r with updatedAt := r.updatedAt.max (.integer now) }).nodes =
      s.nodes ↔ now ≤ n.updatedAt := by
  rw [hs.updateNode_nodes_eq_iff h]
  show { n.record with updatedAt := (Cell.integer n.updatedAt).max (.integer now) } = n.record ↔ _
  rw [Cell.max_integer]
  constructor
  · intro heq
    have hupdated : max n.updatedAt now = n.updatedAt :=
      Cell.integer.inj (congrArg NodeRecord.updatedAt heq)
    omega
  · intro hle
    rw [Int.max_eq_left hle]
    rfl

end Store

/-- The texts are those that are stored for the values, in their order. -/
abbrev PropertyValue.StoredAs (values : List PropertyValue) (raws : List String) : Prop :=
  List.Forall₂ (fun value raw => PropertyValue.encode? value = some raw) values raws

/-- Stored values are read in their order as their texts are, those that nest too deep left out. -/
theorem PropertyValue.filterMap_decode_of_storedAs {values : List PropertyValue}
    {raws : List String} (h : PropertyValue.StoredAs values raws) :
    raws.filterMap PropertyValue.decode? =
      (values.filter (·.payloadDepth ≤ 126)).map PropertyValue.reread := by
  induction h with
  | nil => rfl
  | @cons value raw values raws hraw _ ih =>
    have hdecode := PropertyValue.decode?_of_encode? hraw
    by_cases hdepth : value.payloadDepth ≤ 126
    · rw [if_pos hdepth] at hdecode
      rw [List.filterMap_cons_some hdecode, ih, List.filter_cons_of_pos (by simpa using hdepth),
        List.map_cons]
    · rw [if_neg hdepth] at hdecode
      rw [List.filterMap_cons_none hdecode, ih, List.filter_cons_of_neg (by simpa using hdepth)]

namespace Edit

open Store

variable {s s' : Store} {now : Int} {node : NodeId}

/-! ## Replacing the rows of a field -/

/-- The rows of a field of a node are replaced, and the change of the node is noted. -/
def rewriteField (now : Int) (node field : NodeId) (raws : List String) : Edit Unit := do
  replaceFieldProperties now node field raws 0
  touchNode now node

/-- Rows are added at consecutive places if there are numbers and places for them. -/
theorem insertFrom_of {field : NodeId} : ∀ {raws : List String} {first : Int} {s : Store},
    s.Sound → s.Counted → hasNode s node = true → hasNode s field = true →
    s.HasNumbers raws.length → first + raws.length ≤ 2 ^ 63 →
    Succeeds (insertFrom now node field first raws) s
  | [], _, s, _, _, _, _, _, _ => .pure () s
  | raw :: raws, first, s, hs, hc, hnode, hfield, hnumbers, hplaces => by
    rw [HasNumbers, List.length_cons] at hnumbers
    rw [List.length_cons] at hplaces
    have hnonneg := hc.nonneg
    have hnext := hs.nextRowId_of_lt hnonneg (by omega)
    have hinsert := insertProperty_some_of hs.native hnode hfield hnext now raw first
    unfold insertFrom
    rw [if_pos (by omega)]
    refine Succeeds.bind ⟨_, _, hinsert⟩ fun _ t h => ?_
    obtain ⟨-, rfl⟩ := EStateM.Result.ok.inj (hinsert.symm.trans h)
    refine insertFrom_of (hs.addRow now raw first hnode hfield hnext)
      ⟨show 0 ≤ s.lastRowId + 1 by omega, show s.lastRowId + 1 < 2 ^ 63 by omega⟩
      hnode hfield ?_ (by omega)
    show s.lastRowId + 1 + (raws.length : Int) < 2 ^ 63
    omega

/-- What adding rows for texts leaves: each row takes the next number. -/
structure Added (s s' : Store) (raws : List String) : Prop where
  numbers : s.HasNumbers raws.length
  lastRowId : s'.lastRowId = s.lastRowId + raws.length
  nodes : s'.nodes = s.nodes
  row : raws ≠ [] → ∃ r ∈ s'.properties, r.id = .integer s'.lastRowId

theorem Added.nil (hc : s.Counted) : Added s s [] where
  numbers := by
    have hfits := hc.fits
    show s.lastRowId + (0 : Nat) < 2 ^ 63
    omega
  lastRowId := by
    show s.lastRowId = s.lastRowId + (0 : Nat)
    omega
  nodes := rfl
  row h := absurd rfl h

theorem Added.cons {number place : Int} {field : NodeId} {raw : String} {raws : List String}
    (hnumber : number = s.lastRowId + 1)
    (h : Added (s.addRow number (newRow now number node field raw place)) s' raws)
    (hlast : raws = [] → s' = s.addRow number (newRow now number node field raw place)) :
    Added s s' (raw :: raws) := by
  have hcount : (s.addRow number (newRow now number node field raw place)).lastRowId =
      s.lastRowId + 1 := hnumber
  obtain ⟨hnumbers, hlastRowId, hnodes, hrow⟩ := h
  rw [HasNumbers, hcount] at hnumbers
  rw [hcount] at hlastRowId
  refine ⟨?_, ?_, hnodes, fun _ => ?_⟩
  · rw [HasNumbers, List.length_cons]
    omega
  · rw [List.length_cons]
    omega
  · by_cases hraws : raws = []
    · rw [hlast hraws]
      exact ⟨_, List.mem_append_right _ (List.mem_singleton_self _), rfl⟩
    · exact hrow hraws

theorem insertFrom_added {field : NodeId} : ∀ {raws : List String} {first : Int} {s s' : Store},
    s.Sound → s.Counted → insertFrom now node field first raws s = .ok () s' → Added s s' raws
  | [], _, s, s', _, hc, h => by
    obtain ⟨-, rfl⟩ := EStateM.Result.ok.inj h
    exact .nil hc
  | raw :: raws, first, s, s', hs, hc, h => by
    unfold insertFrom at h
    by_cases hfirst : first < 2 ^ 63
    · simp only [hfirst, if_true] at h
      obtain ⟨p, t, hadd, h⟩ := ok_of_bind h
      have hchanges : Respects (Natively Changes)
          (insertProperty now node field raw (some first)) :=
        TableLaw.changes.insertProperty now trivial trivial (some first)
      have ht := hs.after hchanges
      have hct := hc.after hs hchanges
      rw [after_of_ok hadd] at ht hct
      obtain ⟨number, hnext, rfl⟩ := insertProperty_some_ok hs.native hadd
      refine .cons (hs.nextRowId_eq hnext) (insertFrom_added ht hct h) fun hraws => ?_
      subst hraws
      exact (EStateM.Result.ok.inj h).2.symm
    · simp only [hfirst] at h
      cases h

theorem removeRows_properties_eq_iff (s : Store) (node field : NodeId) :
    (s.removeRows node field).properties = s.properties ↔ s.texts node field = [] := by
  rw [removeRows, List.filter_eq_self, texts, fieldRecords, List.map_eq_nil_iff,
    List.eq_nil_iff_forall_not_mem]
  simp only [mem_inOrder, List.mem_filter, Bool.not_eq_true', not_and, Bool.not_eq_true]

/-- What replacing the rows of a field and noting the change leaves. The tables stay the same only
if there are no rows before and after, and no change is to be noted. -/
structure Rewritten (s s' : Store) (now : Int) (node field : NodeId) (raws : List String) :
    Prop where
  numbers : s.HasNumbers raws.length
  lastRowId : s'.lastRowId = s.lastRowId + raws.length
  texts : s'.texts node field = raws
  same : s.SameTables s' ↔ raws = [] ∧ s.texts node field = [] ∧
    ∀ n, s.node? node = .ok (some n) → now ≤ n.updatedAt

theorem rewriteField_rewritten (hs : s.Sound) (hc : s.Counted) (hnode : s.IsLive node)
    {field : NodeId} {raws : List String} (h : rewriteField now node field raws s = .ok () s') :
    Rewritten s s' now node field raws := by
  obtain ⟨_, t, hreplace, htouch⟩ := ok_of_bind h
  have htexts := replaceFieldProperties_ok hs.native hreplace
  obtain ⟨_, u, hdelete, hinsert⟩ := ok_of_bind (ok_of_atomically hreplace)
  obtain rfl : s.removeRows node field = u := (EStateM.Result.ok.inj hdelete).2
  have hadded := insertFrom_added (s := s.removeRows node field) (hs.removeRows node field)
    ⟨hc.nonneg, hc.fits⟩ hinsert
  obtain ⟨n, hn⟩ := hnode
  have hlive : t.IsLive node := ⟨n, by
    rw [← hn, node?, node?, liveRecordOf?, liveRecordOf?, hadded.nodes]
    rfl⟩
  obtain ⟨-, rfl⟩ := EStateM.Result.ok.inj ((touchNode_of hlive now).symm.trans htouch)
  have hnodes : (t.updateNode node fun r =>
      { r with updatedAt := r.updatedAt.max (.integer now) }).nodes = s.nodes ↔
        now ≤ n.updatedAt := by
    rw [← hs.touched_nodes_eq_iff hn now, updateNode, updateNode, hadded.nodes]
    rfl
  refine ⟨hadded.numbers, hadded.lastRowId, htexts, ?_⟩
  constructor
  · intro hsame
    have hraws : raws = [] := by
      by_contra hne
      refine hs.properties_ne ?_ (hadded.row hne) hsame.properties
      have hlength := List.length_pos_iff.mpr hne
      rw [hadded.lastRowId]
      show s.lastRowId < s.lastRowId + (raws.length : Int)
      omega
    refine ⟨hraws, ?_, fun m hm => ?_⟩
    · rw [← hraws, ← htexts]
      exact (hsame.texts_eq node field).symm
    · obtain rfl := Option.some.inj (Except.ok.inj (hn.symm.trans hm))
      exact hnodes.mp hsame.nodes
  · intro hnothing
    obtain ⟨hraws, hempty, htime⟩ := hnothing
    subst hraws
    obtain ⟨-, rfl⟩ := EStateM.Result.ok.inj hinsert
    exact ⟨hnodes.mpr (htime n hn), (removeRows_properties_eq_iff s node field).mpr hempty⟩

theorem rewriteField_succeeds_iff (hs : s.Sound) (hc : s.Counted) (hnode : s.IsLive node)
    {field : NodeId} (hfield : s.IsLive field) (raws : List String) :
    Succeeds (rewriteField now node field raws) s ↔ s.HasNumbers raws.length := by
  constructor
  · intro ⟨_, s', h⟩
    exact (rewriteField_rewritten hs hc hnode h).numbers
  · intro hnumbers
    have hinsert : Succeeds (insertFrom now node field 0 raws) (s.removeRows node field) := by
      apply insertFrom_of (hs.removeRows node field) ⟨hc.nonneg, hc.fits⟩
        (hs.hasNode_of_isLive hnode) (hs.hasNode_of_isLive hfield) hnumbers
      have hnonneg := hc.nonneg
      rw [HasNumbers] at hnumbers
      omega
    obtain ⟨_, t, ht⟩ := hinsert
    have hdelete : ∃ removed, deleteFieldProperties node field s =
        .ok removed (s.removeRows node field) := ⟨_, rfl⟩
    obtain ⟨removed, hdelete⟩ := hdelete
    have hreplace : replaceFieldProperties now node field raws 0 s = .ok () t :=
      atomically_of_ok ((bind_of_ok hdelete).trans ht)
    refine Succeeds.bind ⟨_, _, hreplace⟩ fun _ u hu => ?_
    exact touchNode_succeeds_after hs (fun R hR => replaceFieldProperties_respects hR now
      ⟨rfl, rfl⟩ (fun _ _ => trivial) 0) hnode now hu

/-! ## Writing fields -/

variable {field : String}

/-- A live field other than `field:extends` passes all checks of references. -/
theorem admits_of_found (hname : IsName field) (hextends : field ≠ Handle.fieldExtends)
    (hlive : s.IsLive node) {fieldNode : Node} (hfound : s.findLive? field = .ok (some fieldNode))
    (values : List PropertyValue) : s.Admits node field values fieldNode where
  live := hlive
  found := hfound
  guarded h := by
    rw [systemId_of_findLive? hname.trimmed hname.notId hfound] at h
    exact absurd (Option.some.inj h) hextends

theorem isSettled_none_iff {rows : List Property} {raw : String} :
    isSettled rows raw none = true ↔ rows.map (·.value) = [raw] := by
  match rows with
  | [] => simp [isSettled]
  | [row] => simp [isSettled]
  | _ :: _ :: _ => simp [isSettled]

/-- A write of one value that passes its checks replaces the rows unless they are settled. -/
theorem setProperty_eq_rewriteField (hs : s.Sound) (now : Int) (hname : IsName field)
    (hextends : field ≠ Handle.fieldExtends) (hlive : s.IsLive node) {value : PropertyValue}
    (htakes : s.Takes field [value]) (hvalue : value.conformsTo .nodes = false) {raw : String}
    (hraw : value.encode? = some raw) : ∃ fieldNode, s.findLive? field = .ok (some fieldNode) ∧
      setProperty now node field value none s =
        (if s.textsIn node field = [raw] then pure ()
          else rewriteField now node fieldNode.id [raw] : Edit Unit) s := by
  obtain ⟨fieldNode, type, hfound, htype, hadmits⟩ := htakes
  have hconforms : type.all (value.conformsTo ·) = true := by simpa using hadmits
  obtain ⟨rows, hrows, htexts⟩ := hs.exists_fieldRows node fieldNode.id
  refine ⟨fieldNode, hfound, ?_⟩
  rw [setProperty_checked now (admits_of_found hname hextends hlive hfound _) htype hconforms
    (takesOne_of_conforms hvalue hconforms) hraw hrows, textsIn_of_found hfound, ← htexts]
  by_cases hsettled : rows.map (·.value) = [raw]
  · rw [if_pos hsettled, if_pos (isSettled_none_iff.mpr hsettled)]
  · rw [if_neg hsettled, if_neg fun h => hsettled (isSettled_none_iff.mp h)]
    rfl

theorem setProperty_takes (hs : s.Sound) {value : PropertyValue} {order : Option Int}
    (h : setProperty now node field value order s = .ok () s') :
    s.IsLive node ∧ s.Takes field [value] := by
  obtain ⟨fieldNode, type, hadmits, htype, hconforms, -⟩ := setProperty_ok hs h
  exact ⟨hadmits.live, fieldNode, type, hadmits.found, htype, by simpa using hconforms⟩

/-- A write of one value that is no reference succeeds exactly if the node is live, the field takes
the value, and the field holds it already or there is a number for its row. -/
theorem setProperty_succeeds_iff (hs : s.Sound) (hc : s.Counted) (hname : IsName field)
    (hextends : field ≠ Handle.fieldExtends) {value : PropertyValue}
    (hvalue : value.conformsTo .nodes = false) (hfinite : value.Finite) :
    Succeeds (setProperty now node field value none) s ↔ s.IsLive node ∧
      s.Takes field [value] ∧ (s.IsSet node field value ∨ s.HasNumbers 1) := by
  obtain ⟨raw, hraw⟩ :=
    Option.isSome_iff_exists.mp ((PropertyValue.encode?_isSome_iff value).mpr hfinite)
  have hset : s.IsSet node field value ↔ s.textsIn node field = [raw] := by
    constructor
    · intro ⟨raw', hraw', htexts⟩
      rw [htexts, Option.some.inj (hraw.symm.trans hraw')]
    · exact fun htexts => ⟨raw, hraw, htexts⟩
  -- Once the checks have passed, only the numbers are left to look at.
  have hwritten : s.IsLive node → s.Takes field [value] →
      (Succeeds (setProperty now node field value none) s ↔
        s.IsSet node field value ∨ s.HasNumbers 1) := by
    intro hlive htakes
    obtain ⟨fieldNode, hfound, heq⟩ :=
      setProperty_eq_rewriteField hs now hname hextends hlive htakes hvalue hraw
    rw [hset]
    unfold Succeeds
    rw [heq]
    by_cases htexts : s.textsIn node field = [raw]
    · rw [if_pos htexts]
      exact iff_of_true ⟨_, _, rfl⟩ (Or.inl htexts)
    · rw [if_neg htexts]
      exact (rewriteField_succeeds_iff hs hc hlive (hs.isLive_of_findLive? hfound) [raw]).trans
        ⟨Or.inr, fun h => h.resolve_left htexts⟩
  constructor
  · intro hok
    obtain ⟨⟨⟩, s', h⟩ := hok
    obtain ⟨hlive, htakes⟩ := setProperty_takes hs h
    exact ⟨hlive, htakes, (hwritten hlive htakes).mp ⟨(), s', h⟩⟩
  · intro ⟨hlive, htakes, hroom⟩
    exact (hwritten hlive htakes).mpr hroom

/-- What a write of one value that is no reference leaves. -/
theorem setProperty_leaves (hs : s.Sound) (hname : IsName field)
    (hextends : field ≠ Handle.fieldExtends) {value : PropertyValue}
    (hvalue : value.conformsTo .nodes = false)
    (h : setProperty now node field value none s = .ok () s') :
    s'.IsSet node field value ∧ (s.IsSet node field value → s' = s) := by
  obtain ⟨fieldNode, type, hadmits, htype, hconforms, hwritten⟩ := setProperty_ok hs h
  obtain ⟨raw, hraw, htexts⟩ := hwritten (takesOne_of_conforms hvalue hconforms)
  have hleaves := setProperty_leavesFields now node value none hname s
  rw [after_of_ok h] at hleaves
  have hfield := hs.holds_of_found hname hadmits.found
  have hset : s'.IsSet node field value := by
    refine ⟨raw, hraw, ?_⟩
    rw [textsIn_of_holds (hleaves hs).1 hname (((hleaves hs).2.1 _ _).mpr hfield), htexts]
  refine ⟨hset, fun hbefore => ?_⟩
  obtain ⟨raw', hraw', hold⟩ := hbefore
  obtain ⟨hlive, htakes⟩ := setProperty_takes hs h
  obtain ⟨_, -, heq⟩ :=
    setProperty_eq_rewriteField hs now hname hextends hlive htakes hvalue hraw'
  rw [if_pos hold, h] at heq
  exact (EStateM.Result.ok.inj heq).2

/-- Finite values have stored texts. -/
theorem exists_encoded {values : List PropertyValue} (h : ∀ value ∈ values, value.Finite) :
    ∃ raws, PropertyValue.StoredAs values raws := by
  induction values with
  | nil => exact ⟨[], .nil⟩
  | cons value values ih =>
    obtain ⟨hfirst, hrest⟩ := List.forall_mem_cons.mp h
    obtain ⟨raws, hraws⟩ := ih hrest
    obtain ⟨raw, hraw⟩ :=
      Option.isSome_iff_exists.mp ((PropertyValue.encode?_isSome_iff value).mpr hfirst)
    exact ⟨raw :: raws, .cons hraw hraws⟩

theorem mapM_encode_ok {values : List PropertyValue} {raws : List String}
    (h : values.mapM encode s = .ok raws s') : PropertyValue.StoredAs values raws :=
  (Reads.mapM_ok encode_reads h).imp fun _ _ => encode_ok

theorem mapM_encode_of {values : List PropertyValue} {raws : List String}
    (h : PropertyValue.StoredAs values raws) : values.mapM encode s = .ok raws s :=
  Reads.mapM_of (h.imp fun _ _ => encode_of)

/-- A write of values that passes its checks replaces the rows. -/
theorem setPropertyValues_eq_rewriteField (now : Int) (hname : IsName field)
    (hextends : field ≠ Handle.fieldExtends) (hlive : s.IsLive node) {values : List PropertyValue}
    (htakes : s.Takes field values) {raws : List String}
    (hraws : PropertyValue.StoredAs values raws) :
    ∃ fieldNode, s.findLive? field = .ok (some fieldNode) ∧
      setPropertyValues now node field values s = rewriteField now node fieldNode.id raws s := by
  obtain ⟨fieldNode, type, hfound, htype, hadmits⟩ := htakes
  have hguarded := (admits_of_found hname hextends hlive hfound values).guarded
  obtain ⟨n, hn⟩ := hlive
  refine ⟨fieldNode, hfound, ?_⟩
  unfold setPropertyValues
  rw [bind_of_ok (requireLive_of hn), bind_of_ok (requireField_of hfound),
    bind_of_ok (ask_of_ok (·.fieldType? fieldNode.id) htype), bind_of_ok (checkTypes_of hadmits),
    bind_of_ok (checkExtends_of hguarded), bind_of_ok (mapM_encode_of hraws)]
  rfl

theorem setPropertyValues_takes {values : List PropertyValue}
    (h : setPropertyValues now node field values s = .ok () s') :
    s.IsLive node ∧ s.Takes field values := by
  obtain ⟨n, hlive, h⟩ := (requireLive_reads node).ok_of_bind h
  obtain ⟨fieldNode, hfound, h⟩ := (requireField_reads field).ok_of_bind h
  obtain ⟨type, htype, h⟩ := (Reads.ask _).ok_of_bind h
  obtain ⟨_, hconforms, -⟩ := (checkTypes_reads field type values).ok_of_bind h
  exact ⟨⟨n, requireLive_ok hlive⟩, fieldNode, type, requireField_ok hfound, ask_ok htype,
    checkTypes_ok hconforms⟩

/-- A write of values succeeds exactly if the node is live, the field takes the values, and there
are numbers for their rows. -/
theorem setPropertyValues_succeeds_iff (hs : s.Sound) (hc : s.Counted) (hname : IsName field)
    (hextends : field ≠ Handle.fieldExtends) {values : List PropertyValue}
    (hfinite : ∀ value ∈ values, value.Finite) :
    Succeeds (setPropertyValues now node field values) s ↔
      s.IsLive node ∧ s.Takes field values ∧ s.HasNumbers values.length := by
  obtain ⟨raws, hraws⟩ := exists_encoded hfinite
  have hwritten : s.IsLive node → s.Takes field values →
      (Succeeds (setPropertyValues now node field values) s ↔ s.HasNumbers values.length) := by
    intro hlive htakes
    obtain ⟨fieldNode, hfound, heq⟩ :=
      setPropertyValues_eq_rewriteField now hname hextends hlive htakes hraws
    unfold Succeeds
    rw [heq, hraws.length_eq]
    exact rewriteField_succeeds_iff hs hc hlive (hs.isLive_of_findLive? hfound) raws
  constructor
  · intro hok
    obtain ⟨⟨⟩, s', h⟩ := hok
    obtain ⟨hlive, htakes⟩ := setPropertyValues_takes h
    exact ⟨hlive, htakes, (hwritten hlive htakes).mp ⟨(), s', h⟩⟩
  · intro ⟨hlive, htakes, hnumbers⟩
    exact (hwritten hlive htakes).mpr hnumbers

theorem setPropertyValues_leavesFields (now : Int) (node : NodeId) (values : List PropertyValue)
    (hname : IsName field) :
    Respects (LeavesFields (· = field)) (setPropertyValues now node field values) :=
  fun s => (setPropertyValues_editsField now node field values s).leavesFields
    (setPropertyValues_respects .changes now node field values) hname

/-- What a write of values leaves: the field holds their texts in their order. -/
theorem setPropertyValues_leaves (hs : s.Sound) (hc : s.Counted) (hname : IsName field)
    (hextends : field ≠ Handle.fieldExtends) {values : List PropertyValue}
    (hfinite : ∀ value ∈ values, value.Finite)
    (h : setPropertyValues now node field values s = .ok () s') :
    PropertyValue.StoredAs values (s'.textsIn node field) ∧
      s'.lastRowId = s.lastRowId + values.length ∧
      (s.SameTables s' ↔ values = [] ∧ s.textsIn node field = [] ∧
        ∀ n, s.node? node = .ok (some n) → now ≤ n.updatedAt) := by
  obtain ⟨raws, hraws⟩ := exists_encoded hfinite
  obtain ⟨hlive, htakes⟩ := setPropertyValues_takes h
  obtain ⟨fieldNode, hfound, heq⟩ :=
    setPropertyValues_eq_rewriteField now hname hextends hlive htakes hraws
  have hrewritten := rewriteField_rewritten hs hc hlive (heq.symm.trans h)
  have hleaves := setPropertyValues_leavesFields now node values hname s
  rw [after_of_ok h] at hleaves
  have hfield := ((hleaves hs).2.1 _ _).mpr (hs.holds_of_found hname hfound)
  have hnil : values = [] ↔ raws = [] := by
    rw [← List.length_eq_zero_iff, ← List.length_eq_zero_iff, hraws.length_eq]
  refine ⟨?_, ?_, ?_⟩
  · rw [textsIn_of_holds (hleaves hs).1 hname hfield, hrewritten.texts]
    exact hraws
  · rw [hrewritten.lastRowId, hraws.length_eq]
  · rw [hrewritten.same, hnil, textsIn_of_found hfound]

/-! ## Removing fields -/

/-- Removing a field that has no rows leaves the store as it was. -/
theorem removeRows_eq_self {fieldNode : NodeId} (h : s.texts node fieldNode = []) :
    s.removeRows node fieldNode = s := by
  have hrows : s.properties.filter (fun r =>
      !(r.nodeId == .known node && r.fieldId == .known fieldNode)) = s.properties :=
    (removeRows_properties_eq_iff s node fieldNode).mpr h
  rw [removeRows, hrows]

theorem texts_removeRows (s : Store) (node fieldNode : NodeId) :
    (s.removeRows node fieldNode).texts node fieldNode = [] := by
  rw [texts, fieldRecords, filter_removeRows_self]
  simp [inOrder]

theorem removeProperty_of (now : Int) (hlive : s.IsLive node) {fieldNode : Node}
    (hfound : s.findLive? field = .ok (some fieldNode)) :
    removeProperty now node field s = .ok (s.fieldRecords node fieldNode.id).length
      (if s.texts node fieldNode.id = [] then s else
        (s.removeRows node fieldNode.id).updateNode node fun r =>
          { r with updatedAt := r.updatedAt.max (.integer now) }) := by
  have hdelete : deleteFieldProperties node fieldNode.id s =
      .ok (s.fieldRecords node fieldNode.id).length (s.removeRows node fieldNode.id) := by
    rw [fieldRecords, inOrder, List.length_mergeSort]
    rfl
  obtain ⟨n, hn⟩ := hlive
  have htouch := touchNode_of (s := s.removeRows node fieldNode.id) ⟨n, hn⟩ now
  unfold removeProperty
  rw [bind_of_ok (requireLive_of hn), bind_of_ok (requireField_of hfound), bind_of_ok hdelete]
  by_cases htexts : s.texts node fieldNode.id = []
  · have hnone : s.fieldRecords node fieldNode.id = [] := List.map_eq_nil_iff.mp htexts
    rw [hnone, if_pos htexts, removeRows_eq_self htexts]
    rfl
  · have hsome : s.fieldRecords node fieldNode.id ≠ [] := mt List.map_eq_nil_iff.mpr htexts
    rw [if_neg htexts]
    simp only [List.length_pos_of_ne_nil hsome, if_true]
    exact (bind_of_ok htouch).trans rfl

/-- Removing a field succeeds exactly if the node and the field are live. -/
theorem removeProperty_succeeds_iff :
    Succeeds (removeProperty now node field) s ↔ s.IsLive node ∧ s.HasField field := by
  constructor
  · intro ⟨_, s', h⟩
    obtain ⟨n, hlive, h⟩ := (requireLive_reads node).ok_of_bind h
    obtain ⟨fieldNode, hfound, -⟩ := (requireField_reads field).ok_of_bind h
    exact ⟨⟨n, requireLive_ok hlive⟩, fieldNode, requireField_ok hfound⟩
  · intro ⟨hlive, fieldNode, hfound⟩
    exact ⟨_, _, removeProperty_of now hlive hfound⟩

/-- What removing a field leaves. -/
theorem removeProperty_leaves (hs : s.Sound) (hname : IsName field) {removed : Nat}
    (h : removeProperty now node field s = .ok removed s') :
    s'.textsIn node field = [] ∧ (s.textsIn node field = [] → s' = s) := by
  obtain ⟨hlive, fieldNode, hfound⟩ := removeProperty_succeeds_iff.mp ⟨removed, s', h⟩
  obtain ⟨-, rfl⟩ := EStateM.Result.ok.inj ((removeProperty_of now hlive hfound).symm.trans h)
  have hleaves := removeProperty_leavesFields now node hname s hs
  rw [after_of_ok h] at hleaves
  have hfield := (hleaves.2.1 _ _).mpr (hs.holds_of_found hname hfound)
  rw [textsIn_of_holds hleaves.1 hname hfield, textsIn_of_found hfound]
  by_cases htexts : s.texts node fieldNode.id = []
  · rw [if_pos htexts]
    exact ⟨htexts, fun _ => rfl⟩
  · rw [if_neg htexts]
    exact ⟨texts_removeRows s node fieldNode.id, fun h => absurd h htexts⟩

end Edit

end TagGraph
