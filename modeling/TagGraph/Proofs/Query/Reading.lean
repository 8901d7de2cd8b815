import TagGraph.Proofs.Json.Keys
import TagGraph.Query.Wire

/-!
# What the readers of definitions look at

The reader of a definition takes the parts of an object by their keys. In values in which no object
repeats a key, it does not depend on the order of the entries (`QueryDefinition.read?_canonical`):
so a definition reads from a stored document as it reads from the text. It also does not depend on
entries with unknown keys, which the reader of texts drops unread
(`QueryDefinition.definitionJson?_bind_read?`).
-/

namespace TagGraph

namespace Json

/-! ## Parts of objects -/

/-- Entries that can be found under a key are found in any order. -/
theorem single?_canonicalEntries {xs : List (String × Json)} (h : (xs.map (·.1)).Nodup)
    (key : String) :
    single? (canonicalEntries xs []) key = (single? xs key).map (Option.map canonical) := by
  have hperm : ((canonicalEntries xs []).filter (·.1 == key)).Perm
      ((xs.filter (·.1 == key)).map canonicalEntry) := by
    have hcomp : (fun e : String × Json => e.1 == key) ∘ canonicalEntry = (·.1 == key) := rfl
    rw [← hcomp, ← List.filter_map]
    exact (canonicalEntries_perm h).filter _
  -- At most one entry has the key.
  have hfew : (xs.filter (·.1 == key)).length ≤ 1 := by
    have hkeys : ((xs.filter (·.1 == key)).map (·.1)).Nodup := h.sublist (List.filter_sublist.map _)
    have hall : ∀ k ∈ (xs.filter (·.1 == key)).map (·.1), k = key := by
      intro k hk
      obtain ⟨e, he, rfl⟩ := List.mem_map.mp hk
      exact beq_iff_eq.mp (List.mem_filter.mp he).2
    rw [List.eq_replicate_of_mem hall, List.nodup_replicate] at hkeys
    simpa using hkeys
  rw [single?, single?]
  generalize xs.filter (·.1 == key) = found at hperm hfew
  match found, hperm, hfew with
  | [], hperm, _ =>
    rw [List.perm_nil.mp hperm]
    rfl
  | [e], hperm, _ =>
    rw [List.perm_singleton.mp hperm]
    rfl

/-- What stands under a key is one of the values. -/
theorem keysApart_of_single? {xs : List (String × Json)} (h : EntriesApart xs) {key : String}
    {x : Json} (hsingle : single? xs key = some (some x)) : x.KeysApart := by
  rw [single?] at hsingle
  split at hsingle
  · cases hsingle
  · next k value heq =>
    obtain rfl : value = x := Option.some.inj (Option.some.inj hsingle)
    have hmem : (k, value) ∈ xs.filter (·.1 == key) := heq ▸ List.mem_singleton_self _
    exact entriesApart_iff.mp h _ (List.mem_filter.mp hmem).1
  · cases hsingle

/-- No object in a part repeats a key, if the part is there. -/
def PartApart (part : Option Json) : Prop :=
  ∀ x, part = some x → x.KeysApart

/-- No object in the parts that are there repeats a key. -/
def PartsApart : List (Option Json) → Prop
  | [] => True
  | part :: parts => PartApart part ∧ PartsApart parts

theorem partsApart_iff {parts : List (Option Json)} :
    PartsApart parts ↔ ∀ part ∈ parts, PartApart part := by
  induction parts with
  | nil => simp [PartsApart]
  | cons part parts ih => rw [PartsApart, ih, List.forall_mem_cons]

theorem mapM_single?_canonicalEntries {xs : List (String × Json)} (h : (xs.map (·.1)).Nodup)
    (names : List String) :
    names.mapM (single? (canonicalEntries xs [])) =
      (names.mapM (single? xs)).map (List.map (Option.map canonical)) := by
  induction names with
  | nil => rfl
  | cons name names ih =>
    rw [List.mapM_cons, List.mapM_cons, single?_canonicalEntries h, ih]
    cases single? xs name with
    | none => rfl
    | some part => cases names.mapM (single? xs) <;> rfl

/-- The parts of the canonical form are the canonical forms of the parts. -/
theorem parts?_canonical {j : Json} (h : j.KeysApart) (names : List String) :
    parts? names j.canonical = (parts? names j).map (List.map (Option.map canonical)) := by
  cases j with
  | object xs =>
    rw [KeysApart] at h
    exact mapM_single?_canonicalEntries h.1 names
  | array xs =>
    rw [canonical, canonicalItems_eq_map, parts?, parts?, List.length_map]
    by_cases hlength : xs.length ≤ names.length
    · rw [if_pos hlength, if_pos hlength, Option.map_some, List.map_append, List.map_map,
        List.map_map, List.map_replicate]
      rfl
    · rw [if_neg hlength, if_neg hlength]
      rfl
  | null => rfl
  | bool b => rfl
  | number n => rfl
  | string s => rfl

theorem partsApart_of_mapM_single? {xs : List (String × Json)} (h : EntriesApart xs) :
    ∀ {names : List String} {parts : List (Option Json)},
      names.mapM (single? xs) = some parts → PartsApart parts
  | [], parts, hparts => by
    obtain rfl : [] = parts := Option.some.inj hparts
    exact trivial
  | name :: names, parts, hparts => by
    rw [List.mapM_cons] at hparts
    obtain ⟨part, hpart, hparts⟩ := Option.bind_eq_some_iff.mp hparts
    obtain ⟨rest, hrest, hparts⟩ := Option.bind_eq_some_iff.mp hparts
    obtain rfl : part :: rest = parts := Option.some.inj hparts
    refine ⟨?_, partsApart_of_mapM_single? h hrest⟩
    rintro x rfl
    exact keysApart_of_single? h hpart

theorem partsApart_of_parts? {j : Json} (h : j.KeysApart) {names : List String}
    {parts : List (Option Json)} (hparts : parts? names j = some parts) : PartsApart parts := by
  cases j with
  | object xs =>
    rw [KeysApart] at h
    exact partsApart_of_mapM_single? h.2 hparts
  | array xs =>
    rw [KeysApart] at h
    rw [parts?] at hparts
    split at hparts
    · obtain rfl := Option.some.inj hparts
      refine partsApart_iff.mpr ?_
      rintro part hpart x rfl
      rcases List.mem_append.mp hpart with hpart | hpart
      · obtain ⟨y, hy, hyx⟩ := List.mem_map.mp hpart
        obtain rfl := Option.some.inj hyx
        exact itemsApart_iff.mp h y hy
      · exact absurd (List.eq_of_mem_replicate hpart) (by simp)
    · cases hparts
  | null => cases hparts
  | bool b => cases hparts
  | number n => cases hparts
  | string s => cases hparts

/-! ## Readers that do not depend on the order of entries -/

/-- A reader that reads the same from a value as from its canonical form, if no object repeats a
key. -/
def IgnoresOrder {α : Type} (read? : Json → Option α) : Prop :=
  ∀ j : Json, j.KeysApart → read? j.canonical = read? j

/-- A reader of a part that reads the same from the canonical form of the part. -/
def PartIgnoresOrder {α : Type} (read? : Option Json → Option α) : Prop :=
  ∀ part : Option Json, PartApart part → read? (part.map canonical) = read? part

theorem ignoresOrder_asString? : IgnoresOrder asString? := by
  intro j _
  cases j <;> rfl

theorem ignoresOrder_asBool? : IgnoresOrder asBool? := by
  intro j _
  cases j <;> rfl

theorem ignoresOrder_asNatBelow? (bound : Nat) : IgnoresOrder (asNatBelow? bound) := by
  intro j _
  cases j <;> rfl

theorem holdsNothing_canonical (emptyObject : Bool) {j : Json} (h : j.KeysApart) :
    holdsNothing emptyObject j.canonical = holdsNothing emptyObject j := by
  cases j with
  | object xs =>
    rw [KeysApart] at h
    have hperm := canonicalEntries_perm h.1
    cases xs with
    | nil => rfl
    | cons e xs =>
      rw [canonical]
      cases hsorted : canonicalEntries (e :: xs) [] with
      | nil => exact absurd (hsorted ▸ hperm).length_eq (by simp)
      | cons e' sorted => rfl
  | null => rfl
  | bool b => rfl
  | number n => rfl
  | string s => rfl
  | array xs => rfl

theorem ignoresOrder_choice? {α : Type} (emptyObject : Bool) (all : List α) (name : α → String) :
    IgnoresOrder (choice? emptyObject all name) := by
  intro j h
  cases j with
  | object xs =>
    rw [KeysApart] at h
    obtain ⟨hnodup, hapart⟩ := h
    have hlength := (canonicalEntries_perm hnodup).length_eq
    match xs, hapart, hlength with
    | [], _, _ => rfl
    | [(key, value)], hapart, _ =>
      have hvalue : value.KeysApart := entriesApart_iff.mp hapart _ (List.mem_singleton_self _)
      have hcanonical : (object [(key, value)]).canonical = .object [(key, value.canonical)] := rfl
      rw [hcanonical, choice?, choice?, holdsNothing_canonical emptyObject hvalue]
    | e₁ :: e₂ :: xs, _, hlength =>
      rw [canonical]
      match hsorted : canonicalEntries (e₁ :: e₂ :: xs) [] with
      | [] => exact absurd (hsorted ▸ hlength) (by simp)
      | [e] => exact absurd (hsorted ▸ hlength) (by simp)
      | _ :: _ :: _ => rfl
  | null => rfl
  | bool b => rfl
  | number n => rfl
  | string s => rfl
  | array xs => rfl

theorem IgnoresOrder.required? {α : Type} {read? : Json → Option α} (h : IgnoresOrder read?) :
    PartIgnoresOrder (required? read?) := by
  rintro (_ | x) hpart
  · rfl
  · exact h x (hpart x rfl)

theorem IgnoresOrder.defaulted? {α : Type} {read? : Json → Option α} (h : IgnoresOrder read?)
    (default : α) : PartIgnoresOrder (defaulted? default read?) := by
  rintro (_ | x) hpart
  · rfl
  · exact h x (hpart x rfl)

theorem IgnoresOrder.optional? {α : Type} {read? : Json → Option α} (h : IgnoresOrder read?) :
    PartIgnoresOrder (optional? read?) := by
  rintro (_ | x) hpart
  · rfl
  · have hx := h x (hpart x rfl)
    cases x with
    | null => rfl
    | bool b => exact congrArg (Option.map some) hx
    | number n => exact congrArg (Option.map some) hx
    | string s => exact congrArg (Option.map some) hx
    | array xs => exact congrArg (Option.map some) hx
    | object xs => exact congrArg (Option.map some) hx

/-- A reader of items lifts to arrays. -/
theorem IgnoresOrder.array {α : Type} {read? : Json → Option α} (h : IgnoresOrder read?) :
    IgnoresOrder fun items => items.asArray?.bind (·.mapM read?) := by
  intro j hj
  cases j with
  | array xs =>
    rw [KeysApart] at hj
    show (canonicalItems xs).mapM read? = xs.mapM read?
    induction xs with
    | nil => rfl
    | cons x xs ih =>
      rw [ItemsApart] at hj
      rw [canonicalItems, List.mapM_cons, List.mapM_cons, h x hj.1, ih hj.2]
  | null => rfl
  | bool b => rfl
  | number n => rfl
  | string s => rfl
  | object xs => rfl

end Json

/-! ## Filters -/

namespace Filter

open Json

theorem ignoresOrder_typeOfTag? (inner : Bool) : IgnoresOrder (typeOfTag? inner) := by
  intro j _
  cases j <;> rfl

/-- The document that a part holds is in canonical form anyway. -/
theorem ofJson_getD_canonical (part : Option Json) :
    Document.ofJson ((part.map canonical).getD .null) = Document.ofJson (part.getD .null) := by
  cases part with
  | none => rfl
  | some x => exact Document.ofJson_json (Document.ofJson x)

/-- A filter is made of its parts whatever the order of their entries. -/
theorem ofParts?_canonical {children? : Json → Option (List Filter)}
    (hchildren : IgnoresOrder children?) (type : String) {parts : List (Option Json)}
    (h : PartsApart parts) :
    ofParts? children? type (parts.map (Option.map canonical)) = ofParts? children? type parts := by
  have hstring := ignoresOrder_asString?.required?
  have hname := ignoresOrder_asString?.optional?
  have hdays := (ignoresOrder_asNatBelow? (2 ^ 32)).optional?
  fun_cases ofParts? children? type parts
  case case1 tag includeInherited =>
    simp only [List.map_cons, List.map_nil, ofParts?, hstring _ h.1,
      ignoresOrder_asBool?.defaulted? _ _ h.2.1]
  case case2 field op value =>
    simp only [List.map_cons, List.map_nil, ofParts?, hstring _ h.1,
      (ignoresOrder_choice? _ _ _).required? _ h.2.1, ofJson_getD_canonical]
  case case3 query caseSensitive =>
    simp only [List.map_cons, List.map_nil, ofParts?, hstring _ h.1,
      ignoresOrder_asBool?.defaulted? _ _ h.2.1]
  case case4 kind target field =>
    simp only [List.map_cons, List.map_nil, ofParts?,
      (ignoresOrder_choice? _ _ _).required? _ h.1, hname _ h.2.1, hname _ h.2.2.1]
  case case5 field op days date =>
    simp only [List.map_cons, List.map_nil, ofParts?,
      (ignoresOrder_choice? _ _ _).required? _ h.1, (ignoresOrder_choice? _ _ _).required? _ h.2.1,
      hdays _ h.2.2.1, hname _ h.2.2.2.1]
  case case6 field negate =>
    simp only [List.map_cons, List.map_nil, ofParts?, hstring _ h.1,
      ignoresOrder_asBool?.defaulted? _ _ h.2.1]
  case case7 filters =>
    simp only [List.map_cons, List.map_nil, ofParts?, hchildren.required? _ h.1]
  case case8 filters =>
    simp only [List.map_cons, List.map_nil, ofParts?, hchildren.required? _ h.1]
  case case9 filters =>
    simp only [List.map_cons, List.map_nil, ofParts?, hchildren.required? _ h.1]
  case case10 h₁ h₂ h₃ h₄ h₅ h₆ h₇ h₈ h₉ =>
    -- The mapped list has the length of the list, so it has no shape of its own.
    rw [ofParts?] <;> intros <;> simp_all [List.map_eq_cons_iff]

/-- The type of a tagged value and the parts behind the tag. -/
def typed? (inner : Bool) (j : Json) : Option (String × List (Option Json)) :=
  j.untag?.bind fun tagged => (typeOfTag? inner tagged.1).bind fun name =>
    (tagged.2.parts? (partNames name)).map (name, ·)

theorem readWithin?_succ (room : Nat) (inner : Bool) (j : Json) :
    readWithin? (room + 1) inner j = (typed? inner j).bind fun typed =>
      ofParts? (fun items => items.asArray?.bind (·.mapM (readWithin? room true)))
        typed.1 typed.2 := by
  rw [readWithin?, typed?]
  cases j.untag? with
  | none => rfl
  | some tagged =>
    obtain ⟨tag, body⟩ := tagged
    cases htype : typeOfTag? inner tag with
    | none => simp [htype]
    | some name => cases hparts : body.parts? (partNames name) <;> simp [htype, hparts]

theorem single?_filter_ne {name other : String} (hne : name ≠ other)
    (xs : List (String × Json)) : single? (xs.filter (·.1 != other)) name = single? xs name := by
  have hboth : ∀ e : String × Json, (e.1 == name && e.1 != other) = (e.1 == name) := by
    intro e
    by_cases h : e.1 = name
    · simp [h, hne]
    · simp [h]
  rw [single?, single?, List.filter_filter, List.filter_congr fun e _ => hboth e]

theorem mapM_single?_filter_ne {other : String} (xs : List (String × Json)) :
    ∀ {names : List String}, other ∉ names →
      names.mapM (single? (xs.filter (·.1 != other))) = names.mapM (single? xs)
  | [], _ => rfl
  | name :: names, h => by
    rw [List.mem_cons, not_or] at h
    rw [List.mapM_cons, List.mapM_cons, single?_filter_ne (Ne.symm h.1),
      mapM_single?_filter_ne xs h.2]

/-- The tag of an object is none of the parts, so it may stay among them. -/
theorem typed?_object (inner : Bool) (xs : List (String × Json)) :
    typed? inner (.object xs) = (single? xs "type").bind fun tag =>
      (required? (typeOfTag? inner) tag).bind fun name =>
        (parts? (partNames name) (.object xs)).map (name, ·) := by
  have htag : ∀ name, "type" ∉ partNames name := by
    intro name
    unfold partNames
    split <;> decide
  have hparts : ∀ name, parts? (partNames name) (.object (xs.filter (·.1 != "type"))) =
      parts? (partNames name) (.object xs) :=
    fun name => mapM_single?_filter_ne xs (htag name)
  rw [typed?, untag?]
  match single? xs "type" with
  | none => rfl
  | some none => rfl
  | some (some tag) =>
    simp only [Option.bind_some, hparts]
    rfl

/-- The type of a tagged value and its parts in canonical form. -/
theorem typed?_canonical (inner : Bool) {j : Json} (h : j.KeysApart) :
    typed? inner j.canonical =
      (typed? inner j).map fun typed => (typed.1, typed.2.map (Option.map canonical)) := by
  cases j with
  | object xs =>
    have hparts := parts?_canonical h
    rw [canonical] at hparts ⊢
    rw [KeysApart] at h
    rw [typed?_object, typed?_object, single?_canonicalEntries h.1]
    cases hsingle : single? xs "type" with
    | none => rfl
    | some tag =>
      have hapart : PartApart tag := by
        rintro x rfl
        exact keysApart_of_single? h.2 hsingle
      rw [Option.map_some, Option.bind_some, Option.bind_some,
        (ignoresOrder_typeOfTag? inner).required? tag hapart]
      cases required? (typeOfTag? inner) tag with
      | none => rfl
      | some name =>
        rw [Option.bind_some, Option.bind_some, hparts, Option.map_map, Option.map_map]
        rfl
  | array xs =>
    cases xs with
    | nil => rfl
    | cons tag items =>
      rw [KeysApart, ItemsApart] at h
      have hitems : (array items).KeysApart := by
        rw [KeysApart]
        exact h.2
      have hcanonical : (array (tag :: items)).canonical.untag? =
          some (tag.canonical, (array items).canonical) := rfl
      have huntag : (array (tag :: items)).untag? = some (tag, array items) := rfl
      rw [typed?, typed?, hcanonical, huntag, Option.bind_some, Option.bind_some,
        ignoresOrder_typeOfTag? inner tag h.1]
      cases typeOfTag? inner tag with
      | none => rfl
      | some name =>
        rw [Option.bind_some, Option.bind_some, parts?_canonical hitems, Option.map_map,
          Option.map_map]
        rfl
  | null => rfl
  | bool b => rfl
  | number n => rfl
  | string s => rfl

theorem partsApart_of_typed? {inner : Bool} {j : Json} (h : j.KeysApart)
    {typed : String × List (Option Json)} (htyped : typed? inner j = some typed) :
    PartsApart typed.2 := by
  cases j with
  | object xs =>
    rw [typed?_object] at htyped
    obtain ⟨tag, -, htyped⟩ := Option.bind_eq_some_iff.mp htyped
    obtain ⟨name, -, htyped⟩ := Option.bind_eq_some_iff.mp htyped
    obtain ⟨parts, hparts, rfl⟩ := Option.map_eq_some_iff.mp htyped
    exact partsApart_of_parts? h hparts
  | array xs =>
    obtain ⟨tagged, hbody, htyped⟩ := Option.bind_eq_some_iff.mp htyped
    obtain ⟨name, -, htyped⟩ := Option.bind_eq_some_iff.mp htyped
    obtain ⟨parts, hparts, rfl⟩ := Option.map_eq_some_iff.mp htyped
    cases xs with
    | nil => cases hbody
    | cons tag items =>
      obtain rfl := Option.some.inj hbody
      rw [KeysApart, ItemsApart] at h
      refine partsApart_of_parts? ?_ hparts
      rw [KeysApart]
      exact h.2
  | null => cases htyped
  | bool b => cases htyped
  | number n => cases htyped
  | string s => cases htyped

theorem ignoresOrder_readWithin? (room : Nat) (inner : Bool) :
    IgnoresOrder (readWithin? room inner) := by
  induction room generalizing inner with
  | zero => exact fun _ _ => rfl
  | succ room ih =>
    intro j h
    rw [readWithin?_succ, readWithin?_succ, typed?_canonical inner h]
    cases htyped : typed? inner j with
    | none => rfl
    | some typed =>
      obtain ⟨type, parts⟩ := typed
      exact ofParts?_canonical (ih true).array type (partsApart_of_typed? h htyped)

theorem ignoresOrder_ofJson? : IgnoresOrder ofJson? := by
  intro j h
  rw [ofJson?, ofJson?, depth_canonical h]
  exact ignoresOrder_readWithin? j.depth false j h

end Filter

/-! ## Orders and definitions -/

open Json

theorem QuerySort.ignoresOrder_ofJson? : IgnoresOrder QuerySort.ofJson? := by
  intro j h
  rw [QuerySort.ofJson?, QuerySort.ofJson?, parts?_canonical h]
  cases hparts : j.parts? QuerySort.partNames with
  | none => rfl
  | some parts =>
    have hapart := partsApart_of_parts? h hparts
    match parts, hapart with
    | [field, direction], hapart =>
      simp only [Option.map_some, List.map_cons, List.map_nil,
        ignoresOrder_asString?.required? _ hapart.1,
        (ignoresOrder_choice? _ _ _).defaulted? _ _ hapart.2.1]
    | [], _ | [_], _ | _ :: _ :: _ :: _, _ => rfl

namespace QueryDefinition

/-- A definition is read whatever the order of the entries. -/
theorem read?_canonical {j : Json} (h : j.KeysApart) : read? j.canonical = read? j := by
  rw [read?, read?, parts?_canonical h]
  cases hparts : j.parts? partNames with
  | none => rfl
  | some parts =>
    have hapart := partsApart_of_parts? h hparts
    match parts, hapart with
    | [filters, sort, limit], hapart =>
      simp only [Option.map_some, List.map_cons, List.map_nil,
        Filter.ignoresOrder_ofJson?.array.defaulted? _ _ hapart.1,
        QuerySort.ignoresOrder_ofJson?.optional? _ hapart.2.1,
        (ignoresOrder_asNatBelow? _).defaulted? _ _ hapart.2.2.1]
    | [], _ | [_], _ | [_, _], _ | _ :: _ :: _ :: _ :: _, _ => rfl

end QueryDefinition

/-! ## Unknown keys -/

namespace Json

/-- The entries that have one of the keys, with the values that `trim` makes of theirs. -/
def trimEntries (keys : List String) (trim : String → Json → Json) (xs : List (String × Json)) :
    List (String × Json) :=
  (xs.filter (keys.contains ·.1)).map fun e => (e.1, trim e.1 e.2)

/-- Dropping unknown keys leaves what stands under a known one. -/
theorem single?_trimEntries {keys : List String} {key : String} (h : key ∈ keys)
    (trim : String → Json → Json) (xs : List (String × Json)) :
    single? (trimEntries keys trim xs) key = (single? xs key).map (Option.map (trim key)) := by
  have hcomp : (fun e : String × Json => e.1 == key) ∘
      (fun e : String × Json => (e.1, trim e.1 e.2)) = fun e => e.1 == key := rfl
  have hknown : ∀ e : String × Json, (e.1 == key && keys.contains e.1) = (e.1 == key) := by
    intro e
    by_cases he : e.1 = key
    · simp [he, h]
    · simp [he]
  rw [single?, single?, trimEntries, List.filter_map, hcomp, List.filter_filter,
    List.filter_congr fun e _ => hknown e]
  have hkeys : ∀ e ∈ xs.filter (·.1 == key), e.1 = key :=
    fun e he => beq_iff_eq.mp (List.mem_filter.mp he).2
  generalize xs.filter (·.1 == key) = found at hkeys
  match found, hkeys with
  | [], _ => rfl
  | [e], hkeys =>
    obtain rfl := hkeys e (List.mem_singleton_self e)
    rfl
  | _ :: _ :: _, _ => rfl

end Json

namespace Written

/-- The reader of known entries finds what the reader of all entries finds, without the others. -/
theorem knownEntries?_of_toJsonEntries? (keys : List String) {trim : String → Json → Json}
    {read? : String → Written → Option Json} {room : Nat}
    (hread : ∀ key tree x, tree.toJson? room = some x → read? key tree = some (trim key x)) :
    ∀ {entries : List (List StringPiece × Written)} {xs : List (String × Json)},
      toJsonEntries? room entries = some xs →
        knownEntries? keys read? entries = some (Json.trimEntries keys trim xs)
  | [], xs, h => by
    obtain rfl : [] = xs := Option.some.inj h
    rfl
  | (pieces, tree) :: entries, xs, h => by
    rw [toJsonEntries?] at h
    split at h
    · next key x rest hkey hx hrest =>
      obtain rfl := Option.some.inj h
      have ih := knownEntries?_of_toJsonEntries? keys hread hrest
      rw [knownEntries?, hkey, ih]
      by_cases hknown : key ∈ keys
      · simp [Json.trimEntries, hknown, hread key tree x hx]
      · simp [Json.trimEntries, hknown]
    · cases h

end Written

/-- An order without its unknown keys. -/
def QuerySort.trim : Json → Json
  | .object xs => .object (Json.trimEntries QuerySort.partNames (fun _ x => x) xs)
  | j => j

/-- A part of a definition without the keys that are dropped from it. -/
def QueryDefinition.trimPart (key : String) (j : Json) : Json :=
  if key = "sort" then QuerySort.trim j else j

theorem QuerySort.ofJson?_trim (j : Json) : ofJson? (trim j) = ofJson? j := by
  cases j with
  | object xs =>
    have hparts : (trim (.object xs)).parts? partNames = (Json.object xs).parts? partNames := by
      simp [trim, Json.parts?, partNames, Json.single?_trimEntries]
    rw [ofJson?, ofJson?, hparts]
  | null => rfl
  | bool b => rfl
  | number n => rfl
  | string s => rfl
  | array xs => rfl

namespace Written

theorem sortJson?_of_toJson? {room : Nat} {tree : Written} {j : Json}
    (h : tree.toJson? room = some j) : tree.sortJson? room = some (QuerySort.trim j) := by
  cases tree with
  | object entries =>
    cases room with
    | zero => cases h
    | succ room =>
      obtain ⟨xs, hxs, rfl⟩ := Option.map_eq_some_iff.mp h
      have hknown : knownEntries? QuerySort.partNames (fun _ part => part.toJson? room) entries =
          some (Json.trimEntries QuerySort.partNames (fun _ x => x) xs) :=
        knownEntries?_of_toJsonEntries? QuerySort.partNames (fun _ _ _ hx => hx) hxs
      rw [sortJson?, Nat.add_sub_cancel, hknown]
      rfl
  | array items =>
    cases room with
    | zero => cases h
    | succ room =>
      obtain ⟨xs, -, rfl⟩ := Option.map_eq_some_iff.mp h
      exact h
  | number literal =>
    obtain ⟨n, -, rfl⟩ := Option.map_eq_some_iff.mp h
    exact h
  | string pieces =>
    obtain ⟨s, -, rfl⟩ := Option.map_eq_some_iff.mp h
    exact h
  | null =>
    obtain rfl := Option.some.inj h
    rfl
  | bool b =>
    obtain rfl := Option.some.inj h
    rfl

theorem partJson?_of_toJson? {room : Nat} {tree : Written} {j : Json} (key : String)
    (h : tree.toJson? room = some j) :
    tree.partJson? room key = some (QueryDefinition.trimPart key j) := by
  rw [partJson?, QueryDefinition.trimPart]
  by_cases hkey : key = "sort"
  · rw [if_pos hkey, if_pos hkey]
    exact sortJson?_of_toJson? h
  · rw [if_neg hkey, if_neg hkey]
    exact h

theorem mapM_partJson?_of_toJsonItems? {room : Nat} :
    ∀ (names : List String) {items : List Written} {xs : List Json},
      toJsonItems? room items = some xs →
        (names.zip items).mapM (fun part => partJson? room part.1 part.2) =
          some ((names.zip xs).map fun part => QueryDefinition.trimPart part.1 part.2)
  | [], _, _, _ => rfl
  | name :: names, [], xs, h => by
    obtain rfl : [] = xs := Option.some.inj h
    rfl
  | name :: names, item :: items, xs, h => by
    rw [toJsonItems?] at h
    split at h
    · next x rest hx hrest =>
      obtain rfl := Option.some.inj h
      rw [List.zip_cons_cons, List.mapM_cons, partJson?_of_toJson? name hx,
        mapM_partJson?_of_toJsonItems? names hrest]
      rfl
    · cases h

theorem length_of_toJsonItems? {room : Nat} : ∀ {items : List Written} {xs : List Json},
    toJsonItems? room items = some xs → items.length = xs.length
  | [], xs, h => by
    obtain rfl : [] = xs := Option.some.inj h
    rfl
  | item :: items, xs, h => by
    rw [toJsonItems?] at h
    split at h
    · next x rest hx hrest =>
      obtain rfl := Option.some.inj h
      rw [List.length_cons, List.length_cons, length_of_toJsonItems? hrest]
    · cases h

end Written

namespace QueryDefinition

open Json Written

/-- The parts of a definition with the order trimmed. -/
def trimParts : List (Option Json) → List (Option Json)
  | [filters, sort, limit] => [filters, sort.map QuerySort.trim, limit]
  | parts => parts

theorem trimPart_of_ne {name : String} (h : name ≠ "sort") : trimPart name = id :=
  funext fun _ => if_neg h

theorem trimPart_sort : trimPart "sort" = QuerySort.trim :=
  funext fun _ => if_pos rfl

theorem parts?_trimEntries (xs : List (String × Json)) :
    parts? partNames (.object (trimEntries partNames trimPart xs)) =
      (parts? partNames (.object xs)).map trimParts := by
  have hsingle : ∀ name ∈ partNames, single? (trimEntries partNames trimPart xs) name =
      (single? xs name).map (Option.map (trimPart name)) :=
    fun name hname => single?_trimEntries hname trimPart xs
  have hfilters := hsingle "filters" (by decide)
  have hsort := hsingle "sort" (by decide)
  have hlimit := hsingle "limit" (by decide)
  rw [trimPart_of_ne (by decide), Option.map_id_fun] at hfilters hlimit
  rw [trimPart_sort] at hsort
  rw [parts?, parts?]
  generalize trimEntries partNames trimPart xs = trimmed at *
  simp only [partNames, List.mapM_cons, List.mapM_nil, hfilters, hsort, hlimit]
  cases single? xs "filters" with
  | none => rfl
  | some filters =>
    cases single? xs "sort" with
    | none => rfl
    | some sort => cases single? xs "limit" <;> rfl

theorem parts?_trimItems {xs : List Json} (h : xs.length ≤ partNames.length) :
    parts? partNames (.array ((partNames.zip xs).map fun part => trimPart part.1 part.2)) =
      (parts? partNames (.array xs)).map trimParts := by
  match xs, h with
  | [], _ | [_], _ | [_, _], _ | [_, _, _], _ => rfl
  | _ :: _ :: _ :: _ :: xs, h =>
    exact absurd h (by simp [partNames])

/-- The keys that are dropped from an order do not count. -/
theorem read?_trimParts {j k : Json}
    (h : parts? partNames k = (parts? partNames j).map trimParts) : read? k = read? j := by
  have hsort : ∀ part : Option Json, optional? QuerySort.ofJson? (part.map QuerySort.trim) =
      optional? QuerySort.ofJson? part := by
    rintro (_ | x)
    · rfl
    · have hx := congrArg (Option.map some) (QuerySort.ofJson?_trim x)
      cases x with
      | null => rfl
      | bool b => exact hx
      | number n => exact hx
      | string s => exact hx
      | array xs => exact hx
      | object xs => exact hx
  rw [read?, read?, h]
  match parts? partNames j with
  | none => rfl
  | some [filters, sort, limit] => simp only [Option.map_some, trimParts, hsort]
  | some [] | some [_] | some [_, _] | some (_ :: _ :: _ :: _ :: _) => rfl

/-- A text is read as the value that it writes, though some of its parts are dropped unread. -/
theorem definitionJson?_bind_read? {tree : Written} {j : Json}
    (h : tree.toJson? Json.depthLimit = some j) :
    tree.definitionJson?.bind read? = read? j := by
  cases tree with
  | object entries =>
    obtain ⟨xs, hxs, rfl⟩ := Option.map_eq_some_iff.mp h
    have hknown := knownEntries?_of_toJsonEntries? partNames
      (fun key _ _ hx => partJson?_of_toJson? key hx) hxs
    rw [definitionJson?]
    show ((knownEntries? partNames (partJson? 126) entries).map Json.object).bind read? = _
    rw [hknown]
    exact read?_trimParts (parts?_trimEntries xs)
  | array items =>
    obtain ⟨xs, hxs, rfl⟩ := Option.map_eq_some_iff.mp h
    rw [definitionJson?, length_of_toJsonItems? hxs]
    by_cases hlength : xs.length ≤ partNames.length
    · rw [if_pos hlength]
      show ((List.mapM (fun part => partJson? 126 part.1 part.2) (partNames.zip items)).map
        Json.array).bind read? = _
      rw [mapM_partJson?_of_toJsonItems? partNames hxs]
      exact read?_trimParts (parts?_trimItems hlength)
    · rw [if_neg hlength, read?, parts?, if_neg hlength]
      rfl
  | number literal =>
    obtain ⟨n, -, rfl⟩ := Option.map_eq_some_iff.mp h
    rfl
  | string pieces =>
    obtain ⟨s, -, rfl⟩ := Option.map_eq_some_iff.mp h
    rfl
  | null =>
    obtain rfl := Option.some.inj h
    rfl
  | bool b =>
    obtain rfl := Option.some.inj h
    rfl

end QueryDefinition

end TagGraph
