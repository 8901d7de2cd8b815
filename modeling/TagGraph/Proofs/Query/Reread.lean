import TagGraph.Proofs.Json.Reread
import TagGraph.Proofs.Query.Reading

/-!
# Definitions that are read again

A value that is read again may hold other doubles. The readers of definitions look at no double:
only the values that filters compare with are kept as they are. So the definition that is read from
such a value is the same up to these doubles (`QueryDefinition.read?_reread`), and what is refused
is refused for the same reason (`QueryDefinition.checked_reread`).
-/

namespace TagGraph

open Json

/-! ## Parts -/

namespace Json

/-- A reader that reads the same from a value that is read again. -/
def IgnoresDoubles {α : Type} (read? : Json → Option α) : Prop :=
  ∀ j : Json, read? j.reread = read? j

/-- A reader of a part that reads the same from a part that is read again. -/
def PartIgnoresDoubles {α : Type} (read? : Option Json → Option α) : Prop :=
  ∀ part : Option Json, read? (part.map reread) = read? part

theorem ignoresDoubles_asString? : IgnoresDoubles asString? := by
  intro j
  cases j <;> rfl

theorem ignoresDoubles_asBool? : IgnoresDoubles asBool? := by
  intro j
  cases j <;> rfl

theorem ignoresDoubles_asNatBelow? (bound : Nat) : IgnoresDoubles (asNatBelow? bound) := by
  intro j
  cases j with
  | number n => cases n <;> rfl
  | _ => rfl

theorem ignoresDoubles_choice? {α : Type} (emptyObject : Bool) (all : List α) (name : α → String) :
    IgnoresDoubles (choice? emptyObject all name) := by
  have hnothing : ∀ j : Json, holdsNothing emptyObject j.reread = holdsNothing emptyObject j := by
    intro j
    cases j with
    | object xs => cases xs <;> rfl
    | _ => rfl
  intro j
  cases j with
  | object xs =>
    obtain _ | ⟨⟨key, value⟩, _ | ⟨e, rest⟩⟩ := xs
    · rfl
    · have hreread : (object [(key, value)]).reread = .object [(key, value.reread)] := rfl
      rw [hreread, choice?, choice?, hnothing]
    · rfl
  | _ => rfl

theorem IgnoresDoubles.required? {α : Type} {read? : Json → Option α} (h : IgnoresDoubles read?) :
    PartIgnoresDoubles (required? read?) := by
  rintro (_ | x)
  · rfl
  · exact h x

theorem IgnoresDoubles.defaulted? {α : Type} {read? : Json → Option α} (h : IgnoresDoubles read?)
    (default : α) : PartIgnoresDoubles (defaulted? default read?) := by
  rintro (_ | x)
  · rfl
  · exact h x

theorem IgnoresDoubles.optional? {α : Type} {read? : Json → Option α} (h : IgnoresDoubles read?) :
    PartIgnoresDoubles (optional? read?) := by
  rintro (_ | x)
  · rfl
  · have hx := congrArg (Option.map some) (h x)
    cases x with
    | null => rfl
    | bool b => exact hx
    | number n => exact hx
    | string s => exact hx
    | array xs => exact hx
    | object xs => exact hx

theorem rereadItems_eq_map (xs : List Json) : rereadItems xs = xs.map reread := by
  induction xs with
  | nil => rfl
  | cons x xs ih => rw [rereadItems, ih, List.map_cons]

theorem rereadEntries_eq_map (xs : List (String × Json)) :
    rereadEntries xs = xs.map fun e => (e.1, e.2.reread) := by
  induction xs with
  | nil => rfl
  | cons e xs ih => rw [rereadEntries, ih, List.map_cons]

/-- What stands under a key is read again where it stands. -/
theorem single?_rereadEntries (xs : List (String × Json)) (key : String) :
    single? (rereadEntries xs) key = (single? xs key).map (Option.map reread) := by
  have hcomp : (fun e : String × Json => e.1 == key) ∘
      (fun e : String × Json => (e.1, e.2.reread)) = (·.1 == key) := rfl
  rw [single?, single?, rereadEntries_eq_map, List.filter_map, hcomp]
  generalize xs.filter (·.1 == key) = found
  obtain _ | ⟨e, _ | ⟨e', rest⟩⟩ := found <;> rfl

/-- The parts of a value are read again where they stand. -/
theorem parts?_reread (names : List String) (j : Json) :
    parts? names j.reread = (parts? names j).map (List.map (Option.map reread)) := by
  cases j with
  | object xs =>
    show names.mapM (single? (rereadEntries xs)) = (names.mapM (single? xs)).map _
    induction names with
    | nil => rfl
    | cons name names ih =>
      rw [List.mapM_cons, List.mapM_cons, single?_rereadEntries, ih]
      cases single? xs name with
      | none => rfl
      | some part => cases names.mapM (single? xs) <;> rfl
  | array xs =>
    rw [reread, rereadItems_eq_map, parts?, parts?, List.length_map]
    by_cases hlength : xs.length ≤ names.length
    · rw [if_pos hlength, if_pos hlength, Option.map_some, List.map_append, List.map_map,
        List.map_map, List.map_replicate]
      rfl
    · rw [if_neg hlength, if_neg hlength]
      rfl
  | _ => rfl

/-- A tag stays in front of what it tags. -/
theorem untag?_reread (j : Json) :
    j.reread.untag? = j.untag?.map fun tagged => (tagged.1.reread, tagged.2.reread) := by
  cases j with
  | object xs =>
    have hrest : (rereadEntries xs).filter (·.1 != "type") =
        rereadEntries (xs.filter (·.1 != "type")) := by
      rw [rereadEntries_eq_map, rereadEntries_eq_map, List.filter_map]
      rfl
    rw [reread, untag?, untag?, single?_rereadEntries, hrest]
    generalize single? xs "type" = found
    obtain _ | _ | tag := found <;> rfl
  | array xs => cases xs <;> rfl
  | _ => rfl

end Json

/-! ## Filters -/

namespace Filter

mutual

/-- The filter that the text of a filter is read as: only the values that are compared with may
change. -/
def reread : Filter → Filter
  | .supertag tag includeInherited => .supertag tag includeInherited
  | .property field op value => .property field op value.reread
  | .content query caseSensitive => .content query caseSensitive
  | .relation kind target field => .relation kind target field
  | .temporal field op days date => .temporal field op days date
  | .hasField field negate => .hasField field negate
  | .and filters => .and (rereadAll filters)
  | .or filters => .or (rereadAll filters)
  | .not filters => .not (rereadAll filters)

/-- Filters as their texts are read. -/
def rereadAll : List Filter → List Filter
  | [] => []
  | f :: rest => reread f :: rereadAll rest

end

@[simp] theorem isMissing_reread (value : Document) : isMissing value.reread = isMissing value := by
  obtain ⟨j, hj⟩ := value
  cases j <;> rfl

mutual

/-- What a filter is written as is read again as what its reading is written as. -/
theorem reread_toJson : ∀ f : Filter, f.toJson.reread = f.reread.toJson
  | .supertag tag includeInherited => rfl
  | .property field op value => by
    rw [reread, toJson, toJson, isMissing_reread]
    split <;> rfl
  | .content query caseSensitive => rfl
  | .relation kind target field => by
    cases target <;> cases field <;> rfl
  | .temporal field op days date => by
    have hdays : ∀ n : UInt32, (Json.nat n.toNat).reread = .nat n.toNat :=
      fun n => reread_nat (Nat.lt_trans n.toNat_lt (by decide))
    cases days <;> cases date <;>
      simp [toJson, reread, tagged, optionalEntry, Json.reread, rereadEntries, hdays]
  | .hasField field negate => rfl
  | .and fs | .or fs | .not fs => by
    simp [toJson, reread, tagged, Json.reread, rereadEntries, rereadItems_listToJson fs]

theorem rereadItems_listToJson : ∀ fs : List Filter,
    rereadItems (listToJson fs) = listToJson (rereadAll fs)
  | [] => rfl
  | f :: fs => by
    rw [listToJson, rereadItems, rereadAll, listToJson, reread_toJson f, rereadItems_listToJson fs]

end

mutual

/-- A filter that is read again has the same faults. -/
theorem fault?_reread : ∀ f : Filter, f.reread.fault? = f.fault?
  | .supertag _ _ | .content _ _ | .relation _ _ _ | .temporal _ _ _ _ | .hasField _ _ => rfl
  | .property field op value => by
    rw [reread, fault?, fault?, isMissing_reread]
  | .and fs | .or fs | .not fs => by
    rw [reread, fault?, fault?, firstFault?_rereadAll fs]

theorem firstFault?_rereadAll : ∀ fs : List Filter, firstFault? (rereadAll fs) = firstFault? fs
  | [] => rfl
  | f :: fs => by
    rw [rereadAll, firstFault?, firstFault?, fault?_reread f, firstFault?_rereadAll fs]

end

/-! ### Reading -/

theorem ignoresDoubles_typeOfTag? (inner : Bool) : IgnoresDoubles (typeOfTag? inner) := by
  intro j
  cases j with
  | number n => cases n <;> rfl
  | _ => rfl

/-- The type of a tagged value and its parts, which are read again. -/
theorem typed?_reread (inner : Bool) (j : Json) :
    typed? inner j.reread =
      (typed? inner j).map fun typed => (typed.1, typed.2.map (Option.map Json.reread)) := by
  rw [typed?, typed?, untag?_reread]
  cases j.untag? with
  | none => rfl
  | some tagged =>
    rw [Option.map_some, Option.bind_some, Option.bind_some, ignoresDoubles_typeOfTag?]
    cases typeOfTag? inner tagged.1 with
    | none => rfl
    | some name =>
      rw [Option.bind_some, Option.bind_some, parts?_reread, Option.map_map, Option.map_map]
      rfl

/-- A reader of filters gives what its filters are read again as. -/
def Rereads (children? : Json → Option (List Filter)) : Prop :=
  ∀ j : Json, children? j.reread = (children? j).map rereadAll

theorem Rereads.required? {children? : Json → Option (List Filter)} (h : Rereads children?)
    (part : Option Json) :
    Json.required? children? (part.map Json.reread) =
      (Json.required? children? part).map rereadAll := by
  cases part with
  | none => rfl
  | some x => exact h x

theorem Rereads.defaulted? {children? : Json → Option (List Filter)} (h : Rereads children?)
    (part : Option Json) :
    Json.defaulted? [] children? (part.map Json.reread) =
      (Json.defaulted? [] children? part).map rereadAll := by
  cases part with
  | none => rfl
  | some x => exact h x

/-- A reader of one filter that gives what the filter is read again as lifts to arrays. -/
theorem rereads_array {read? : Json → Option Filter}
    (h : ∀ j : Json, read? j.reread = (read? j).map reread) :
    Rereads fun items => items.asArray?.bind (·.mapM read?) := by
  intro j
  cases j with
  | array xs =>
    show (rereadItems xs).mapM read? = (xs.mapM read?).map rereadAll
    induction xs with
    | nil => rfl
    | cons x xs ih =>
      rw [rereadItems, List.mapM_cons, List.mapM_cons, h x, ih]
      cases read? x with
      | none => rfl
      | some f => cases xs.mapM read? <;> rfl
  | _ => rfl

/-- The document that a part holds is read again where it stands. -/
theorem ofJson_getD_reread (part : Option Json) :
    Document.ofJson ((part.map Json.reread).getD .null) =
      (Document.ofJson (part.getD .null)).reread := by
  cases part with
  | none => rfl
  | some x => exact Document.ofJson_reread x

/-- A filter is made of parts that are read again as the filter is. -/
theorem ofParts?_reread {children? : Json → Option (List Filter)} (hchildren : Rereads children?)
    (type : String) (parts : List (Option Json)) :
    ofParts? children? type (parts.map (Option.map Json.reread)) =
      (ofParts? children? type parts).map reread := by
  have hstring := ignoresDoubles_asString?.required?
  have hbool := fun default => ignoresDoubles_asBool?.defaulted? default
  have hname := ignoresDoubles_asString?.optional?
  have hdays := (ignoresDoubles_asNatBelow? (2 ^ 32)).optional?
  fun_cases ofParts? children? type parts
  case case1 tag includeInherited =>
    simp only [List.map_cons, List.map_nil, ofParts?, hstring _, hbool _ _]
    cases required? asString? tag <;> cases defaulted? true asBool? includeInherited <;> rfl
  case case2 field op value =>
    simp only [List.map_cons, List.map_nil, ofParts?, hstring _,
      (ignoresDoubles_choice? _ _ _).required? _, ofJson_getD_reread]
    cases required? asString? field <;>
      cases required? (choice? true PropertyOp.all PropertyOp.name) op <;> rfl
  case case3 query caseSensitive =>
    simp only [List.map_cons, List.map_nil, ofParts?, hstring _, hbool _ _]
    cases required? asString? query <;> cases defaulted? false asBool? caseSensitive <;> rfl
  case case4 kind target field =>
    simp only [List.map_cons, List.map_nil, ofParts?,
      (ignoresDoubles_choice? _ _ _).required? _, hname _]
    cases required? (choice? true RelationKind.all RelationKind.name) kind <;>
      cases optional? asString? target <;> cases optional? asString? field <;> rfl
  case case5 field op days date =>
    simp only [List.map_cons, List.map_nil, ofParts?,
      (ignoresDoubles_choice? _ _ _).required? _, hdays _, hname _]
    cases required? (choice? true TimeField.all TimeField.name) field <;>
      cases required? (choice? true TimeOp.all TimeOp.name) op <;>
        cases optional? (asNatBelow? (2 ^ 32)) days <;> cases optional? asString? date <;> rfl
  case case6 field negate =>
    simp only [List.map_cons, List.map_nil, ofParts?, hstring _, hbool _ _]
    cases required? asString? field <;> cases defaulted? false asBool? negate <;> rfl
  case case7 filters =>
    simp only [List.map_cons, List.map_nil, ofParts?, hchildren.required?]
    cases required? children? filters <;> rfl
  case case8 filters =>
    simp only [List.map_cons, List.map_nil, ofParts?, hchildren.required?]
    cases required? children? filters <;> rfl
  case case9 filters =>
    simp only [List.map_cons, List.map_nil, ofParts?, hchildren.required?]
    cases required? children? filters <;> rfl
  case case10 h₁ h₂ h₃ h₄ h₅ h₆ h₇ h₈ h₉ =>
    -- The mapped list has the length of the list, so it has no shape of its own.
    rw [ofParts?] <;> intros <;> simp_all [List.map_eq_cons_iff]

/-- A filter is read from a value that is read again as the filter is. -/
theorem readWithin?_reread (room : Nat) (inner : Bool) (j : Json) :
    readWithin? room inner j.reread = (readWithin? room inner j).map reread := by
  induction room generalizing inner j with
  | zero => rfl
  | succ room ih =>
    rw [readWithin?_succ, readWithin?_succ, typed?_reread]
    cases typed? inner j with
    | none => rfl
    | some typed => exact ofParts?_reread (rereads_array (ih true)) typed.1 typed.2

theorem ofJson?_reread (j : Json) : ofJson? j.reread = (ofJson? j).map reread := by
  rw [ofJson?, ofJson?, depth_reread, readWithin?_reread]

end Filter

/-! ## Orders and definitions -/

theorem QuerySort.ignoresDoubles_ofJson? : IgnoresDoubles QuerySort.ofJson? := by
  intro j
  rw [QuerySort.ofJson?, QuerySort.ofJson?, parts?_reread]
  -- Only the list of two parts is read.
  generalize j.parts? QuerySort.partNames = found
  obtain _ | _ | ⟨field, _ | ⟨direction, _ | ⟨other, rest⟩⟩⟩ := found
  case some.cons.cons.nil =>
    simp only [Option.map_some, List.map_cons, List.map_nil, ignoresDoubles_asString?.required? _,
      (ignoresDoubles_choice? _ _ _).defaulted? _ _]
  all_goals rfl

namespace QueryDefinition

/-- The definition that the text of a definition is read as. -/
def reread (d : QueryDefinition) : QueryDefinition :=
  ⟨Filter.rereadAll d.filters, d.sort, d.limit⟩

/-- A definition is written as a value that is read again as the definition is. -/
theorem reread_toJson (d : QueryDefinition) : d.toJson.reread = d.reread.toJson := by
  have hlimit : (Json.nat d.limit.toNat).reread = .nat d.limit.toNat := reread_nat d.limit.toNat_lt
  have hfilters := Filter.rereadItems_listToJson d.filters
  rw [toJson, toJson, reread]
  cases d.sort <;>
    simp [optionalEntry, QuerySort.toJson, Json.reread, rereadEntries, hlimit, hfilters]

theorem reread_toDocument (d : QueryDefinition) : d.toDocument.reread = d.reread.toDocument := by
  rw [toDocument, toDocument, ← reread_toJson, Document.ofJson_reread]

/-- A definition is read from a value that is read again as the definition is. -/
theorem read?_reread (j : Json) : read? j.reread = (read? j).map reread := by
  rw [read?, read?, parts?_reread]
  -- Only the list of three parts is read.
  generalize j.parts? partNames = found
  obtain _ | _ | ⟨filters, _ | ⟨sort, _ | ⟨limit, _ | ⟨other, rest⟩⟩⟩⟩ := found
  case some.cons.cons.cons.nil =>
    simp only [Option.map_some, List.map_cons, List.map_nil,
      (Filter.rereads_array Filter.ofJson?_reread).defaulted?,
      QuerySort.ignoresDoubles_ofJson?.optional? _, (ignoresDoubles_asNatBelow? _).defaulted? _ _]
    cases defaulted? [] (fun items => items.asArray?.bind (·.mapM Filter.ofJson?)) filters <;>
      cases optional? QuerySort.ofJson? sort <;>
        cases defaulted? defaultLimit.toNat (asNatBelow? (2 ^ 64)) limit <;> rfl
  all_goals rfl

/-- A definition that is read again has the same faults. -/
theorem fault?_reread (d : QueryDefinition) : d.reread.fault? = d.fault? := by
  rw [fault?, fault?, reread, Filter.firstFault?_rereadAll]

theorem isValid_reread (d : QueryDefinition) : d.reread.isValid = d.isValid := by
  rw [isValid, isValid, fault?_reread]

/-- A definition that is read again is refused for the same reason. -/
theorem checked_reread (found : Option QueryDefinition) :
    checked (found.map reread) = (checked found).map reread := by
  cases found with
  | none => rfl
  | some d =>
    rw [Option.map_some, checked, checked, fault?_reread]
    cases d.fault? <;> rfl

/-- A document that is read again holds the definition that is read again. -/
theorem ofDocument_reread (d : Document) : ofDocument d.reread = (ofDocument d).map reread := by
  rw [ofDocument, ofDocument, ← checked_reread, ← read?_reread]
  rfl

end QueryDefinition

end TagGraph
