import TagGraph.Proofs.Json.RoundTrip
import TagGraph.Proofs.Query.Reread

/-!
# Definitions survive their written forms

Every definition, valid or not, is read back from the value that it is written as
(`QueryDefinition.read?_toJson`). So a valid one comes back from its document and, unless it nests
deeper than texts may, from its text (`QueryDefinition.ofText_toText`). A text may change the
doubles in the values that filters compare with, and nothing else (`QueryDefinition.reread`).
-/

namespace TagGraph

open Json

/-! ## Parts -/

/-- The written name of an operator is found among all names. -/
theorem PropertyOp.find?_name (op : PropertyOp) : all.find? (·.name == op.name) = some op := by
  cases op <;> rfl

/-- The written name of a relation is found among all names. -/
theorem RelationKind.find?_name (kind : RelationKind) :
    all.find? (·.name == kind.name) = some kind := by
  cases kind <;> rfl

theorem TimeField.find?_name (field : TimeField) :
    all.find? (·.name == field.name) = some field := by
  cases field <;> rfl

theorem TimeOp.find?_name (op : TimeOp) : all.find? (·.name == op.name) = some op := by
  cases op <;> rfl

theorem SortDirection.find?_name (direction : SortDirection) :
    all.find? (·.name == direction.name) = some direction := by
  cases direction <;> rfl

/-- A natural number below a bound is read back with this bound. -/
theorem Json.asNatBelow?_nat {n bound : Nat} (h : n < bound) (hbound : bound ≤ 2 ^ 64) :
    asNatBelow? bound (.nat n) = some n := by
  obtain ⟨hrange, hnat⟩ := exists_nat_eq (Nat.lt_of_lt_of_le h hbound)
  rw [hnat, asNatBelow?, if_pos (by omega), Int.toNat_natCast]

/-- What is not read from `null` is read if it is there. -/
theorem Json.optional?_some {α : Type} {read? : Json → Option α} {j : Json} {a : α}
    (hnull : read? .null = none) (h : read? j = some a) :
    optional? read? (some j) = some (some a) := by
  cases j with
  | null => cases hnull.symm.trans h
  | bool b => exact congrArg (Option.map some) h
  | number n => exact congrArg (Option.map some) h
  | string s => exact congrArg (Option.map some) h
  | array xs => exact congrArg (Option.map some) h
  | object xs => exact congrArg (Option.map some) h

/-- A text that may be missing is read back. -/
theorem Json.optional?_asString?_map (text : Option String) :
    optional? asString? (text.map .string) = some text := by
  cases text <;> rfl

/-- A number of days that may be missing is read back. -/
theorem Json.optional?_asNatBelow?_map (days : Option UInt32) :
    optional? (asNatBelow? (2 ^ 32)) (days.map fun n => .nat n.toNat) =
      some (days.map UInt32.toNat) := by
  cases days with
  | none => rfl
  | some n => exact optional?_some rfl (asNatBelow?_nat n.toNat_lt (by decide))

namespace Filter

/-- Only `null` stands for a missing value. -/
theorem eq_null_of_isMissing {value : Document} (h : isMissing value = true) :
    value = Document.null := by
  obtain ⟨j, hj⟩ := value
  cases j with
  | null => rfl
  | bool b => cases h
  | number n => cases h
  | string s => cases h
  | array xs => cases h
  | object xs => cases h

/-- What stands behind the tag of a filter are its parts. -/
theorem typed?_tagged (inner : Bool) (name : String) (xs : List (String × Json))
    (h : ∀ e ∈ xs, e.1 ≠ "type") :
    typed? inner (Filter.tagged name xs) =
      (parts? (partNames name) (.object xs)).map (name, ·) := by
  have hbody : (("type", Json.string name) :: xs).filter (·.1 != "type") = xs := by
    simpa using h
  have htag : single? (("type", Json.string name) :: xs) "type" = some (some (.string name)) := by
    have hnone : xs.filter (·.1 == "type") = [] := by
      simpa using h
    rw [single?, List.filter_cons_of_pos (by rfl), hnone]
  rw [typed?, tagged, untag?, htag, hbody]
  rfl

/-- A tagged object is read as the filter that its parts make. -/
theorem readWithin?_tagged {name : String} {xs : List (String × Json)} {parts : List (Option Json)}
    (htype : ∀ e ∈ xs, e.1 ≠ "type") (hparts : parts? (partNames name) (.object xs) = some parts)
    (inner : Bool) {room : Nat} (hroom : (Filter.tagged name xs).depth ≤ room) :
    readWithin? room inner (Filter.tagged name xs) =
      ofParts? (fun items => items.asArray?.bind (·.mapM (readWithin? (room - 1) true)))
        name parts := by
  cases room with
  | zero => exact absurd hroom (Nat.not_succ_le_zero _)
  | succ room =>
    rw [readWithin?_succ, typed?_tagged inner name xs htype, hparts]
    rfl

/-- A filter over others nests two levels deeper than they do. -/
theorem depth_tagged_filters (name : String) (fs : List Filter) :
    (Filter.tagged name [("filters", .array (listToJson fs))]).depth =
      depthItems (listToJson fs) + 2 := by
  simp [Filter.tagged, depth, depthEntries]

mutual

/-- A filter is read back from the value that it is written as. -/
theorem readWithin?_toJson : ∀ (f : Filter) (inner : Bool) {room : Nat},
    f.toJson.depth ≤ room → readWithin? room inner f.toJson = some f
  | .supertag tag includeInherited, inner, room, h => by
    rw [toJson] at h ⊢
    rw [readWithin?_tagged (by simp) rfl inner h]
    rfl
  | .property field op value, inner, room, h => by
    rw [toJson] at h ⊢
    by_cases hmissing : isMissing value
    · rw [if_pos hmissing] at h ⊢
      obtain rfl := eq_null_of_isMissing hmissing
      rw [readWithin?_tagged (by simp) rfl inner h]
      simp [ofParts?, required?, asString?, choice?, op.find?_name, Document.ofJson, Document.null,
        canonical]
    · rw [if_neg hmissing] at h ⊢
      rw [readWithin?_tagged (by simp) rfl inner h]
      simp [ofParts?, required?, asString?, choice?, op.find?_name, Document.ofJson_json]
  | .content query caseSensitive, inner, room, h => by
    rw [toJson] at h ⊢
    rw [readWithin?_tagged (by simp) rfl inner h]
    rfl
  | .relation kind target field, inner, room, h => by
    rw [toJson] at h ⊢
    rw [readWithin?_tagged (by cases target <;> cases field <;> simp [optionalEntry])
      (show _ = some [some (.string kind.name), target.map .string, field.map .string] by
        cases target <;> cases field <;> rfl) inner h]
    simp [ofParts?, required?, choice?, kind.find?_name, optional?_asString?_map]
  | .temporal field op days date, inner, room, h => by
    rw [toJson] at h ⊢
    rw [readWithin?_tagged (by cases days <;> cases date <;> simp [optionalEntry])
      (show _ = some [some (.string field.name), some (.string op.name),
          days.map fun n => .nat n.toNat, date.map .string] by
        cases days <;> cases date <;> rfl) inner h]
    rw [ofParts?, optional?_asNatBelow?_map]
    simp [required?, choice?, field.find?_name, op.find?_name, optional?_asString?_map,
      Function.comp_def]
  | .hasField field negate, inner, room, h => by
    rw [toJson] at h ⊢
    rw [readWithin?_tagged (by simp) rfl inner h]
    rfl
  | .and fs, inner, room, h => by
    rw [toJson] at h ⊢
    rw [readWithin?_tagged (by simp) rfl inner h]
    rw [depth_tagged_filters] at h
    exact congrArg (Option.map and) (mapM_readWithin?_listToJson fs (by omega))
  | .or fs, inner, room, h => by
    rw [toJson] at h ⊢
    rw [readWithin?_tagged (by simp) rfl inner h]
    rw [depth_tagged_filters] at h
    exact congrArg (Option.map or) (mapM_readWithin?_listToJson fs (by omega))
  | .not fs, inner, room, h => by
    rw [toJson] at h ⊢
    rw [readWithin?_tagged (by simp) rfl inner h]
    rw [depth_tagged_filters] at h
    exact congrArg (Option.map Filter.not) (mapM_readWithin?_listToJson fs (by omega))

/-- Filters are read back from the values that they are written as. -/
theorem mapM_readWithin?_listToJson : ∀ (fs : List Filter) {room : Nat},
    depthItems (listToJson fs) ≤ room → (listToJson fs).mapM (readWithin? room true) = some fs
  | [], _, _ => rfl
  | f :: fs, room, h => by
    rw [listToJson, depthItems, Nat.max_le] at h
    rw [listToJson, List.mapM_cons, readWithin?_toJson f true h.1,
      mapM_readWithin?_listToJson fs h.2]
    rfl

end

theorem ofJson?_toJson (f : Filter) : ofJson? f.toJson = some f :=
  readWithin?_toJson f false (Nat.le_refl _)

theorem mapM_ofJson?_listToJson (fs : List Filter) :
    (listToJson fs).mapM ofJson? = some fs := by
  induction fs with
  | nil => rfl
  | cons f fs ih =>
    rw [listToJson, List.mapM_cons, ofJson?_toJson, ih]
    rfl

/-! ### Keys -/

mutual

/-- The written form of a filter repeats no key. -/
theorem keysApart_toJson : ∀ f : Filter, f.toJson.KeysApart
  | .supertag tag includeInherited => by
    simp [toJson, tagged, KeysApart, EntriesApart]
  | .property field op value => by
    have hvalue := keysApart_of_isCanonical value.canonical
    rw [toJson]
    split <;> simp [tagged, KeysApart, EntriesApart, hvalue]
  | .content query caseSensitive => by
    simp [toJson, tagged, KeysApart, EntriesApart]
  | .relation kind target field => by
    cases target <;> cases field <;>
      simp [toJson, tagged, optionalEntry, KeysApart, EntriesApart]
  | .temporal field op days date => by
    cases days <;> cases date <;>
      simp [toJson, tagged, optionalEntry, Json.nat, Json.int, KeysApart, EntriesApart]
  | .hasField field negate => by
    simp [toJson, tagged, KeysApart, EntriesApart]
  | .and fs | .or fs | .not fs => by
    simp [toJson, tagged, KeysApart, EntriesApart, itemsApart_listToJson fs]

theorem itemsApart_listToJson : ∀ fs : List Filter, ItemsApart (listToJson fs)
  | [] => by simp [listToJson, ItemsApart]
  | f :: fs => by
    rw [listToJson, ItemsApart]
    exact ⟨keysApart_toJson f, itemsApart_listToJson fs⟩

end

end Filter

/-! ## Orders and definitions -/

/-- An order is read back from the value that it is written as. -/
theorem QuerySort.ofJson?_toJson (sort : QuerySort) :
    QuerySort.ofJson? sort.toJson = some sort := by
  have hparts : parts? QuerySort.partNames sort.toJson =
      some [some (.string sort.field), some (.string sort.direction.name)] := rfl
  rw [QuerySort.ofJson?, hparts]
  simp [required?, defaulted?, asString?, choice?, sort.direction.find?_name]

namespace QueryDefinition

/-- A definition is read from its parts. -/
theorem read?_of_parts? {j limit : Json} {items : List Json} {part : Option Json}
    {filters : List Filter} {sort : Option QuerySort} {n : Nat}
    (hparts : parts? partNames j = some [some (.array items), part, some limit])
    (hfilters : items.mapM Filter.ofJson? = some filters)
    (hsort : optional? QuerySort.ofJson? part = some sort)
    (hlimit : asNatBelow? (2 ^ 64) limit = some n) :
    read? j = some ⟨filters, sort, UInt64.ofNat n⟩ := by
  rw [read?, hparts]
  simp only [defaulted?, asArray?, Option.bind_some, hfilters, hsort, hlimit]
  rfl

/-- A definition is read back from the value that it is written as. -/
theorem read?_toJson (d : QueryDefinition) : read? d.toJson = some d := by
  have hparts : parts? partNames d.toJson = some [some (.array (Filter.listToJson d.filters)),
      d.sort.map (·.toJson), some (.nat d.limit.toNat)] := by
    rw [toJson]
    cases d.sort <;> rfl
  have hsort : optional? QuerySort.ofJson? (d.sort.map (·.toJson)) = some d.sort := by
    cases d.sort with
    | none => rfl
    | some sort => exact optional?_some rfl sort.ofJson?_toJson
  have hread := read?_of_parts? hparts (Filter.mapM_ofJson?_listToJson d.filters) hsort
    (asNatBelow?_nat d.limit.toNat_lt (Nat.le_refl _))
  rwa [UInt64.ofNat_toNat] at hread

/-- The written form of a definition repeats no key. -/
theorem keysApart_toJson (d : QueryDefinition) : d.toJson.KeysApart := by
  have hfilters := Filter.itemsApart_listToJson d.filters
  rw [toJson]
  cases d.sort <;>
    simp [optionalEntry, QuerySort.toJson, Json.nat, Json.int, KeysApart, EntriesApart, hfilters]

/-- A definition is read back from its document. -/
theorem read?_toDocument (d : QueryDefinition) : read? d.toDocument.json = some d :=
  (read?_canonical d.keysApart_toJson).trans d.read?_toJson

/-! ## Definitions that are read again -/

/-- All doubles in a definition are read again as they were. -/
def ReadsBack (d : QueryDefinition) : Prop :=
  d.toJson.ReadsBack

instance (d : QueryDefinition) : Decidable d.ReadsBack :=
  inferInstanceAs (Decidable d.toJson.ReadsBack)

/-- A definition comes back as it was if and only if all doubles in it do. -/
theorem reread_eq_iff (d : QueryDefinition) : d.reread = d ↔ d.ReadsBack := by
  rw [ReadsBack, ← Json.reread_eq_iff, reread_toJson]
  refine ⟨congrArg toJson, fun h => ?_⟩
  rw [← Option.some.injEq, ← read?_toJson, h, read?_toJson]

/-- A definition is read from its text up to its doubles. -/
theorem readText?_toText {d : QueryDefinition} (h : d.toJson.depth ≤ depthLimit) :
    readText? d.toText = some d.reread := by
  obtain ⟨tree, hread, htree⟩ := Written.ofString?_render d.toJson
  have hjson : tree.toJson? depthLimit = some d.toJson.reread := by
    rw [htree, if_pos h]
  rw [readText?, toText, hread, Option.bind_some, definitionJson?_bind_read? hjson, read?_reread,
    read?_toJson, Option.map_some]

/-! ## Valid definitions -/

/-- What passes the check is what has been read, if that is valid. -/
theorem checked_eq_ok_iff {found : Option QueryDefinition} {d : QueryDefinition} :
    checked found = .ok d ↔ found = some d ∧ d.isValid = true := by
  rw [isValid, Option.isNone_iff_eq_none]
  cases found with
  | none => simp [checked]
  | some e =>
    cases hfault : e.fault? with
    | none =>
      simp only [checked, hfault, Except.ok.injEq, Option.some.injEq]
      exact ⟨fun h => ⟨h, h ▸ hfault⟩, And.left⟩
    | some fault =>
      simp only [checked, hfault, reduceCtorEq, Option.some.injEq, false_iff, not_and]
      rintro rfl h
      cases hfault.symm.trans h

/-- A valid definition is read from its text up to its doubles. -/
theorem ofText_toText_eq_reread {d : QueryDefinition} (hvalid : d.isValid = true)
    (hdepth : d.toJson.depth ≤ depthLimit) : ofText d.toText = .ok d.reread :=
  checked_eq_ok_iff.mpr ⟨readText?_toText hdepth, d.isValid_reread.trans hvalid⟩

/-- A valid definition is read back from the document it is written as. From its text it is read,
as long as that nests no deeper than texts may, with each double as its notation is read, so as it
was if its doubles are read back. The same holds for every definition that any text was read as. -/
theorem ofText_toText (d : QueryDefinition) :
    (d.isValid = true →
      ofDocument d.toDocument = .ok d ∧
      (d.toJson.depth ≤ depthLimit →
        ofText d.toText = .ok d.reread ∧ (d.ReadsBack → ofText d.toText = .ok d))) ∧
    ∀ raw, ofText raw = .ok d → d.toJson.depth ≤ depthLimit →
      ofText d.toText = .ok d.reread ∧ (d.ReadsBack → ofText d.toText = .ok d) := by
  have htext : d.isValid = true → d.toJson.depth ≤ depthLimit →
      ofText d.toText = .ok d.reread ∧ (d.ReadsBack → ofText d.toText = .ok d) := by
    intro hvalid hdepth
    have hread := ofText_toText_eq_reread hvalid hdepth
    refine ⟨hread, fun hback => ?_⟩
    rw [hread, d.reread_eq_iff.mpr hback]
  refine ⟨fun hvalid => ⟨?_, htext hvalid⟩, fun raw hraw => htext (checked_eq_ok_iff.mp hraw).2⟩
  exact checked_eq_ok_iff.mpr ⟨read?_toDocument d, hvalid⟩

/-- A text that lists the parts of a definition, and leaves out those with defaults, gives the
definition that the written text with the names of the parts gives back. -/
theorem ofText_toText_listed :
    let d : QueryDefinition := ⟨[.and [.content "milk" false]], some ⟨"name", .asc⟩, 500⟩
    let raw := "[[[\"and\", [[\"content\", \"milk\"]]]], [\"name\"]]"
    ofText raw = .ok d ∧ ofDocument d.toDocument = .ok d ∧ ofText d.toText = .ok d := by
  intro d raw
  have hdepth : d.toJson.depth ≤ depthLimit := by decide +kernel
  have hback : d.ReadsBack := by decide +kernel
  have hraw : ofText raw = .ok d := by
    have hread : (match ofText raw with
      | .ok e => decide (e.toText = d.toText ∧ e.toJson.depth ≤ depthLimit ∧ e.ReadsBack)
      | .error _ => false) = true := by decide +kernel
    cases hfound : ofText raw with
    | error fault =>
      rw [hfound] at hread
      cases hread
    | ok e =>
      rw [hfound] at hread
      obtain ⟨htext, hdeep, hsame⟩ := of_decide_eq_true hread
      -- Definitions with the same written text are the same if their doubles are read back.
      have heq : some e = some d := by
        rw [← e.reread_eq_iff.mpr hsame, ← readText?_toText hdeep, htext, readText?_toText hdepth,
          d.reread_eq_iff.mpr hback]
      rw [Option.some.inj heq]
  obtain ⟨hvalid, htext⟩ := ofText_toText d
  exact ⟨hraw, (hvalid (by decide +kernel)).1, (htext raw hraw hdepth).2 hback⟩

end QueryDefinition

end TagGraph
