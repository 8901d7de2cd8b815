import TagGraph.Proofs.Alike
import TagGraph.Proofs.Assembly.Values

/-!
# Names of fields

Several fields of a node may have one name. While the rows are read, the name goes to the first of
them and is taken over by the first one with a handle. So its owner is the first field with a handle
among those of the name, or else the first one (`NameOwner.find?_ofHeld`), and what the node shows
under a name are the values of its owner (`Store.names_run`).
-/

namespace TagGraph

open Reading

namespace NameOwner

/-! ## Claims to a name -/

/-- The claim that a value makes to the name of its field. -/
def ofValue (held : HeldValue) : NameOwner :=
  ⟨held.info.key, held.field, held.info.hasHandle⟩

/-- The claim to a name that prevails: the first one of a field with a handle, or else the first. -/
def prevailing? (name : String) (claims : List NameOwner) : Option NameOwner :=
  claims.find? (fun c => c.name == name && c.hasHandle) <|> claims.find? (·.name == name)

/-- Who has a name after a further claim to it. -/
def succeed (owner : Option NameOwner) (claim : NameOwner) : NameOwner :=
  match owner with
  | some owner => if claim.hasHandle && !owner.hasHandle then claim else owner
  | none => claim

variable {name : String}

/-- What prevails is a claim to the name. -/
theorem mem_of_prevailing? {claims : List NameOwner} {owner : NameOwner}
    (h : prevailing? name claims = some owner) : owner ∈ claims ∧ owner.name = name := by
  unfold prevailing? at h
  cases hhandle : claims.find? fun c => c.name == name && c.hasHandle with
  | some found =>
    obtain rfl : found = owner := by simpa [hhandle] using h
    have hfound := List.find?_some hhandle
    rw [Bool.and_eq_true, beq_iff_eq] at hfound
    exact ⟨List.mem_of_find?_eq_some hhandle, hfound.1⟩
  | none =>
    have hfirst : claims.find? (·.name == name) = some owner := by simpa [hhandle] using h
    exact ⟨List.mem_of_find?_eq_some hfirst, by simpa using List.find?_some hfirst⟩

/-- Some claim prevails as soon as there is one. -/
theorem isSome_prevailing? {claims : List NameOwner} :
    (prevailing? name claims).isSome = true ↔ ∃ c ∈ claims, c.name = name := by
  constructor
  · intro h
    obtain ⟨owner, howner⟩ := Option.isSome_iff_exists.mp h
    exact ⟨owner, mem_of_prevailing? howner⟩
  · rintro ⟨c, hc, rfl⟩
    have hfirst : (claims.find? (·.name == c.name)).isSome = true :=
      List.find?_isSome.mpr ⟨c, hc, beq_self_eq_true _⟩
    unfold prevailing?
    cases claims.find? fun d => d.name == c.name && d.hasHandle with
    | some owner => rfl
    | none => exact hfirst

/-- A further claim to a name is weighed against the one that has prevailed so far. -/
theorem prevailing?_concat (claims : List NameOwner) (c : NameOwner) :
    prevailing? name (claims ++ [c]) =
      if c.name = name then some (succeed (prevailing? name claims) c)
      else prevailing? name claims := by
  unfold prevailing?
  rw [List.find?_append, List.find?_append, List.find?_singleton, List.find?_singleton]
  by_cases hname : c.name = name
  · rw [if_pos hname]
    cases hhandle : claims.find? fun d => d.name == name && d.hasHandle with
    | some owner =>
      -- An owner with a handle stays.
      have howner := List.find?_some hhandle
      rw [Bool.and_eq_true] at howner
      simp [succeed, howner.2]
    | none =>
      cases hfirst : claims.find? (·.name == name) with
      | none => cases hc : c.hasHandle <;> simp [succeed, hname]
      | some owner =>
        have howner := List.find?_eq_none.mp hhandle owner (List.mem_of_find?_eq_some hfirst)
        have hnone : owner.hasHandle = false := by
          have hsame : owner.name = name := by simpa using List.find?_some hfirst
          simpa [hsame] using howner
        cases hc : c.hasHandle <;> simp [succeed, hname, hc, hnone]
  · simp [hname]

/-! ## The owners of names -/

theorem ofHeld_concat (held : List HeldValue) (last : HeldValue) :
    ofHeld (held ++ [last]) = claim last (ofHeld held) := by
  rw [ofHeld, List.foldl_concat]
  rfl

theorem names_claim (held : HeldValue) (owners : List NameOwner) :
    (claim held owners).map (·.name) =
      if held.info.key ∈ owners.map (·.name) then owners.map (·.name)
      else owners.map (·.name) ++ [held.info.key] := by
  induction owners with
  | nil => rfl
  | cons owner rest ih =>
    rw [claim]
    by_cases hname : owner.name = held.info.key
    · rw [if_pos hname]
      split <;> simp [hname]
    · rw [if_neg hname, List.map_cons, ih]
      by_cases hrest : held.info.key ∈ rest.map (·.name)
      · simp [hrest]
      · simp [hrest, Ne.symm hname]

/-- Each name has one owner. -/
theorem names_ofHeld_nodup (held : List HeldValue) : ((ofHeld held).map (·.name)).Nodup := by
  induction held using List.reverseRecOn with
  | nil => exact List.nodup_nil
  | append_singleton held h ih =>
    rw [ofHeld_concat, names_claim]
    split
    · exact ih
    · next hnew => exact List.nodup_append_comm.mpr (List.nodup_cons.mpr ⟨hnew, ih⟩)

/-- A further value changes the owner of the name of its field alone. -/
theorem find?_claim (held : HeldValue) (owners : List NameOwner) :
    (claim held owners).find? (·.name == name) =
      if held.info.key = name then
        some (succeed (owners.find? (·.name == name)) (ofValue held))
      else owners.find? (·.name == name) := by
  induction owners with
  | nil =>
    by_cases hname : held.info.key = name
    · simp [claim, succeed, ofValue, hname]
    · simp [claim, hname]
  | cons owner rest ih =>
    obtain ⟨ownerName, field, hasHandle⟩ := owner
    rw [claim]
    by_cases howner : ownerName = held.info.key
    · rw [if_pos howner]
      by_cases hname : held.info.key = name
      · subst howner
        rw [if_pos hname, List.find?_cons_of_pos (by simpa using hname)]
        -- The owner of the name stands in front.
        cases hnew : held.info.hasHandle <;> cases hasHandle <;>
          simp [succeed, ofValue, hname, hnew]
      · have hother : ownerName ≠ name := howner ▸ hname
        rw [if_neg hname]
        split <;> simp [hother]
    · rw [if_neg howner]
      by_cases hname : ownerName = name
      · have hkey : held.info.key ≠ name := fun h => howner (hname.trans h.symm)
        simp [hname, hkey]
      · have hskip : ∀ others : List NameOwner,
            (⟨ownerName, field, hasHandle⟩ :: others).find? (·.name == name) =
              others.find? (·.name == name) :=
          fun others => List.find?_cons_of_neg (by simpa using hname)
        rw [hskip, hskip, ih]

/-- The owner of a name is the field of the claim that prevails. -/
theorem find?_ofHeld (held : List HeldValue) :
    (ofHeld held).find? (·.name == name) = prevailing? name (held.map ofValue) := by
  induction held using List.reverseRecOn with
  | nil => rfl
  | append_singleton held h ih =>
    rw [ofHeld_concat, find?_claim, ih, List.map_append, List.map_singleton, prevailing?_concat]
    rfl

theorem mem_ofHeld {held : List HeldValue} {owner : NameOwner} :
    owner ∈ ofHeld held ↔ prevailing? owner.name (held.map ofValue) = some owner := by
  rw [← find?_ofHeld]
  constructor
  · intro h
    cases hfind : (ofHeld held).find? (·.name == owner.name) with
    | none => exact absurd (beq_self_eq_true owner.name) (List.find?_eq_none.mp hfind owner h)
    | some found =>
      have hname : found.name = owner.name := by simpa using List.find?_some hfind
      rw [List.inj_on_of_nodup_map (names_ofHeld_nodup held) (List.mem_of_find?_eq_some hfind) h
        hname]
  · exact List.mem_of_find?_eq_some

end NameOwner

/-! ## Names in the table of a node -/

section Held

variable {held : List HeldValue} {name : String} {field : NodeId}

theorem ownersByName_perm (held : List HeldValue) :
    (ownersByName held).Perm ((NameOwner.ofHeld held).map fun owner => (owner.name, owner.field)) :=
  List.mergeSort_perm _ _

theorem names_ownersByName_nodup (held : List HeldValue) :
    ((ownersByName held).map (·.1)).Nodup := by
  refine ((ownersByName_perm held).map _).nodup_iff.mpr ?_
  rw [List.map_map]
  exact NameOwner.names_ofHeld_nodup held

/-- A name belongs to the field whose claim to it prevails. -/
theorem mem_ownersByName : (name, field) ∈ ownersByName held ↔
    (NameOwner.prevailing? name (held.map .ofValue)).map (·.field) = some field := by
  rw [(ownersByName_perm held).mem_iff, List.mem_map, Option.map_eq_some_iff]
  constructor
  · rintro ⟨owner, howner, heq⟩
    obtain ⟨rfl, rfl⟩ := Prod.mk.inj heq
    exact ⟨owner, NameOwner.mem_ofHeld.mp howner, rfl⟩
  · rintro ⟨owner, howner, rfl⟩
    obtain ⟨-, rfl⟩ := NameOwner.mem_of_prevailing? howner
    exact ⟨owner, NameOwner.mem_ofHeld.mpr howner, rfl⟩

/-- The names that belong to a field are those of its values. -/
theorem exists_held_of_mem_ownersByName (h : (name, field) ∈ ownersByName held) :
    ∃ v ∈ held, v.field = field ∧ v.info.key = name := by
  obtain ⟨owner, howner, rfl⟩ := Option.map_eq_some_iff.mp (mem_ownersByName.mp h)
  obtain ⟨hmem, rfl⟩ := NameOwner.mem_of_prevailing? howner
  obtain ⟨v, hv, rfl⟩ := List.mem_map.mp hmem
  exact ⟨v, hv, rfl, rfl⟩

/-- Where a field has one name, at most one name belongs to it. -/
theorem fields_ownersByName_nodup
    (hkey : ∀ v ∈ held, ∀ w ∈ held, v.field = w.field → v.info.key = w.info.key) :
    ((ownersByName held).map (·.2)).Nodup := by
  have hnames := names_ownersByName_nodup held
  refine List.Nodup.map_on (fun a ha b hb hfield => ?_) (List.Nodup.of_map _ hnames)
  obtain ⟨v, hv, hvfield, hvname⟩ := exists_held_of_mem_ownersByName ha
  obtain ⟨w, hw, hwfield, hwname⟩ := exists_held_of_mem_ownersByName hb
  refine List.inj_on_of_nodup_map hnames ha hb ?_
  rw [← hvname, ← hwname]
  exact hkey v hv w hw (hvfield.trans (hfield.trans hwfield.symm))

/-- In a table with different keys an entry is found by its key. -/
theorem lookup_map_of_mem {α β γ : Type} [DecidableEq α] {entries : List (α × β)}
    (hkeys : (entries.map (·.1)).Nodup) (shown : β → γ) {key : α} {value : β}
    (h : (key, value) ∈ entries) :
    (entries.map fun entry => (entry.1, shown entry.2)).lookup key = some (shown value) := by
  induction entries with
  | nil => cases h
  | cons entry rest ih =>
    rw [List.map_cons, List.nodup_cons] at hkeys
    rw [List.map_cons, List.lookup_cons]
    rcases List.mem_cons.mp h with rfl | hrest
    · rw [beq_self_eq_true]
    · have hne : key ≠ entry.1 := by
        rintro rfl
        exact hkeys.1 (List.mem_map_of_mem (f := (·.1)) hrest)
      rw [beq_false_of_ne hne]
      exact ih hkeys.2 hrest

/-- A name shows the values of the field that it belongs to. -/
theorem lookup_properties (node : Node) (h : (name, field) ∈ ownersByName held) :
    (AssembledNode.ofHeld node held).properties.lookup name =
      some ((AssembledNode.ofHeld node held).valuesByFieldId field) :=
  lookup_map_of_mem (names_ownersByName_nodup held)
    (fun field => ((valuesByField held).lookup field).getD []) h

end Held

namespace AssembledNode

variable {n : AssembledNode} {name : String} {field : NodeId}

/-- The name of a field is the one that belongs to it. -/
theorem fieldNameForId?_eq_some_iff (hfields : (n.fieldIds.map (·.2)).Nodup) :
    n.fieldNameForId? field = some name ↔ (name, field) ∈ n.fieldIds := by
  unfold fieldNameForId?
  constructor
  · intro h
    obtain ⟨entry, hentry, rfl⟩ := Option.map_eq_some_iff.mp h
    obtain rfl : entry.2 = field := by simpa using List.find?_some hentry
    exact List.mem_of_find?_eq_some hentry
  · intro h
    cases hfind : n.fieldIds.find? (·.2 == field) with
    | none => exact absurd (beq_self_eq_true field) (List.find?_eq_none.mp hfind _ h)
    | some entry =>
      have hentry : entry.2 = field := by simpa using List.find?_some hfind
      rw [List.inj_on_of_nodup_map hfields (List.mem_of_find?_eq_some hfind) h hentry]
      rfl

end AssembledNode

namespace Store

/-- The claim that a row makes to the name of its field, if the field is live and the row holds a
value. -/
def claim? (s : Store) (row : Property) : Option NameOwner :=
  match found? (s.node? row.fieldId), PropertyValue.decode? row.value with
  | some field, some _ =>
    some ⟨Handle.fieldKey field.systemId field.content, row.fieldId, field.systemId.isSome⟩
  | _, _ => none

variable {s : Store}

/-- What is known about a field is the same at each of its values. -/
theorem fieldInfo?_of_heldValue? {row : Property} {held : HeldValue}
    (h : s.heldValue? row = some held) : found? (s.fieldInfo? held.field) = some held.info := by
  rw [(of_heldValue? h).1]
  unfold heldValue? at h
  split at h
  · next info value hinfo hvalue =>
    obtain rfl := Option.some.inj h
    exact hinfo
  · cases h

theorem ofValue_heldValue? (hs : s.Sound) (row : Property) :
    (s.heldValue? row).map .ofValue = s.claim? row := by
  obtain ⟨found, hfound⟩ := hs.node?_succeeds row.fieldId
  unfold heldValue? claim?
  rw [fieldInfo?, hfound]
  cases found with
  | none => rfl
  | some field => cases PropertyValue.decode? row.value <;> rfl

theorem claim?_eq_some_iff (hs : s.Sound) {row : Property} {claim : NameOwner} :
    s.claim? row = some claim ↔ ∃ field value, s.node? row.fieldId = .ok (some field) ∧
      PropertyValue.decode? row.value = some value ∧
      claim = ⟨Handle.fieldKey field.systemId field.content, field.id, field.systemId.isSome⟩ := by
  obtain ⟨found, hfound⟩ := hs.node?_succeeds row.fieldId
  unfold claim?
  rw [hfound, found?_ok]
  cases found with
  | none => simp
  | some field =>
    obtain ⟨-, hid⟩ := hs.node?_eq_some_iff.mp hfound
    cases PropertyValue.decode? row.value with
    | none => simp
    | some value => simp [hid, eq_comm]

/-! ## The names of an assembled node -/

/-- No two names belong to one field: there is one node for it, so that it has one name. -/
theorem fieldIds_joined_nodup (s : Store) (node : Node) :
    ((s.joined node).fieldIds.map (·.2)).Nodup := by
  have hinfo : ∀ v ∈ (s.rowsOf node.id).filterMap s.heldValue?,
      found? (s.fieldInfo? v.field) = some v.info := by
    intro v hv
    obtain ⟨row, -, hrow⟩ := List.mem_filterMap.mp hv
    exact fieldInfo?_of_heldValue? hrow
  rw [joined_eq]
  refine fields_ownersByName_nodup fun v hv w hw hfield => ?_
  have heq := hinfo v hv
  rw [hfield, hinfo w hw] at heq
  rw [Option.some.inj heq]

/-- The names that a node shows are those that belong to a field. -/
theorem names_properties_joined (s : Store) (node : Node) :
    (s.joined node).properties.map (·.1) = (s.joined node).fieldIds.map (·.1) := by
  rw [joined_eq]
  exact List.map_map

namespace Sound

variable {node : Node} {name : String} {field : NodeId}

/-- A name belongs to the field whose claim to it prevails among those of the rows. -/
theorem mem_fieldIds_joined (hs : s.Sound) : (name, field) ∈ (s.joined node).fieldIds ↔
    (NameOwner.prevailing? name ((s.rowsOf node.id).filterMap s.claim?)).map (·.field) =
      some field := by
  have hclaims : ((s.rowsOf node.id).filterMap s.heldValue?).map .ofValue =
      (s.rowsOf node.id).filterMap s.claim? := by
    rw [List.map_filterMap]
    exact List.filterMap_congr fun row _ => ofValue_heldValue? hs row
  rw [joined_eq, ← hclaims]
  exact mem_ownersByName

/-- A node shows the names that its rows claim. -/
theorem mem_names_joined (hs : s.Sound) : name ∈ (s.joined node).properties.map (·.1) ↔
    ∃ claim ∈ (s.rowsOf node.id).filterMap s.claim?, claim.name = name := by
  rw [names_properties_joined, ← NameOwner.isSome_prevailing?, List.mem_map]
  constructor
  · rintro ⟨⟨name, field⟩, hentry, rfl⟩
    obtain ⟨owner, hprevails, -⟩ := Option.map_eq_some_iff.mp (hs.mem_fieldIds_joined.mp hentry)
    exact Option.isSome_iff_exists.mpr ⟨owner, hprevails⟩
  · intro hsome
    obtain ⟨owner, hprevails⟩ := Option.isSome_iff_exists.mp hsome
    exact ⟨(name, owner.field), hs.mem_fieldIds_joined.mpr (by rw [hprevails]; rfl), rfl⟩

end Sound

/-- On every store that a run leaves, every live node is assembled. The rows of live fields that
hold a value claim the names of their fields. The node shows the names that are claimed, each once;
a name belongs to the first of the fields with a handle that claim it, or, if none of them has one,
to the first of all, and shows the values of this field. No two names belong to one field, so that
the name of a field is found exactly for the one that it belongs to. -/
theorem names_run (steps : List Step) :
    let s := Store.empty.run steps
    ∀ n, s.IsLive n → ∃ node rows, s.assemble? n = .ok (some node) ∧ node.id = n ∧
      s.propertiesOf n = .ok rows ∧
      let owner? (name : String) : Option NodeId :=
        (NameOwner.prevailing? name (rows.filterMap s.claim?)).map (·.field)
      (∀ row claim, s.claim? row = some claim ↔ ∃ field value,
        s.node? row.fieldId = .ok (some field) ∧ PropertyValue.decode? row.value = some value ∧
        claim =
          ⟨Handle.fieldKey field.systemId field.content, field.id, field.systemId.isSome⟩) ∧
      (∀ name, name ∈ node.properties.map (·.1) ↔
        ∃ claim ∈ rows.filterMap s.claim?, claim.name = name) ∧
      (node.properties.map (·.1)).Nodup ∧
      (∀ name field, owner? name = some field →
        node.properties.lookup name = some (node.valuesByFieldId field)) ∧
      (∀ name name' field, owner? name = some field → owner? name' = some field → name = name') ∧
      ∀ name field, node.fieldNameForId? field = some name ↔ owner? name = some field := by
  intro s n hn
  have hs : s.Sound := empty_sound.run steps
  obtain ⟨node, hnode⟩ := hn
  obtain ⟨hmem, rfl⟩ := hs.node?_eq_some_iff.mp hnode
  obtain ⟨rows, hrows⟩ := hs.propertiesOf_succeeds node.id
  obtain rfl : s.rowsOf node.id = rows := by
    rw [rowsOf, hrows]
    rfl
  have hfields := fieldIds_joined_nodup s node
  refine ⟨s.joined node, s.rowsOf node.id, hs.assemble?_of_live hmem, rfl, hrows,
    fun row claim => claim?_eq_some_iff hs, fun name => hs.mem_names_joined, ?_,
    fun name field hfield => ?_, fun name name' field hfield hfield' => ?_, fun name field => ?_⟩
  · rw [names_properties_joined, joined_eq]
    exact names_ownersByName_nodup _
  · have hentry := hs.mem_fieldIds_joined.mpr hfield
    rw [joined_eq] at hentry ⊢
    exact lookup_properties node hentry
  · exact congrArg Prod.fst (List.inj_on_of_nodup_map hfields (hs.mem_fieldIds_joined.mpr hfield)
      (hs.mem_fieldIds_joined.mpr hfield') rfl)
  · rw [AssembledNode.fieldNameForId?_eq_some_iff hfields, hs.mem_fieldIds_joined]

/-- A field without handle that comes first loses its name to a later one with a handle. -/
theorem names_run_taken :
    let id (i : Nat) (h : i < 2 ^ 128) : NodeId := ⟨i, h⟩
    let create (id : NodeId) (content : String) (systemId : Option String) : Step :=
      ⟨5, .graph (.createNode ⟨id, content, systemId, none, []⟩)⟩
    let mood := id 1 (by decide)
    let handled := id 2 (by decide)
    let diary := id 3 (by decide)
    let steps := [create mood "mood" none, create handled "Mood" (some "field:mood"),
      create diary "diary" none, ⟨6, .table (.insertProperty diary mood "\"fair\"" none)⟩,
      ⟨6, .table (.insertProperty diary handled "\"good\"" none)⟩]
    let s := Store.empty.run steps
    s.IsLive diary ∧ ∃ node, s.assemble? diary = .ok (some node) ∧
      node.fieldNameForId? handled = some "mood" ∧
      node.properties.lookup "mood" = some (node.valuesByFieldId handled) := by
  intro id create mood handled diary steps s
  have hs : s.Sound := empty_sound.run steps
  have hdiary : s.IsLive diary := hs.isLive_of_liveRecordOf? (by decide +kernel)
  obtain ⟨node, rows, hnode, -, hrows, -, -, -, hvalues, -, howner⟩ := names_run steps diary hdiary
  have hordered : s.Ordered := ⟨by decide +kernel, by decide +kernel⟩
  have hrecords : (s.rowsOf diary).map Property.record =
      [⟨1, diary, mood, "\"fair\"", 0, 6, 6⟩, ⟨2, diary, handled, "\"good\"", 0, 6, 6⟩].map
        Property.record := by
    rw [hordered.rowsOf_records hs]
    decide +kernel
  rw [rowsOf, hrows] at hrecords
  obtain rfl := List.map_injective_iff.mpr Property.record_injective hrecords
  have hprevails := (howner "mood" handled).mpr (by decide +kernel)
  exact ⟨hdiary, node, hnode, hprevails, hvalues _ _ ((howner _ _).mp hprevails)⟩

end Store

end TagGraph
