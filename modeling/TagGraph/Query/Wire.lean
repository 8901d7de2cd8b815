import TagGraph.Query.Definition

/-!
# Definitions as JSON

A definition is written as an object with its filters, its order if it has one, and its limit. Each
filter is an object whose `type` tells what it tests. Parts that are left out have defaults: they
are written again unless they are optional.

Reading is lenient in fixed ways. Unknown keys are passed over. A filter, an order and a definition
may also be lists of their parts, from which parts with defaults may be missing at the end. A name
may be written as an object with one entry that holds nothing, and the type of a filter inside
another one as a number. In a text, a known key may not repeat, and unknown parts of the outermost
objects are passed over whatever they hold.
-/

namespace TagGraph

/-! ## Writing -/

/-- An entry that is left out if there is nothing to write. -/
def Json.optionalEntry (key : String) (value : Option Json) : List (String × Json) :=
  match value with
  | some value => [(key, value)]
  | none => []

/-- A filter with its type in front of its parts. -/
def Filter.tagged (type : String) (parts : List (String × Json)) : Json :=
  .object (("type", .string type) :: parts)

mutual

/-- The written form of a filter. -/
def Filter.toJson : Filter → Json
  | .supertag tag includeInherited =>
    Filter.tagged "supertag"
      [("supertagSystemId", .string tag), ("includeInherited", .bool includeInherited)]
  | .property field op value =>
    Filter.tagged "property" ([("fieldSystemId", .string field), ("op", .string op.name)] ++
      if Filter.isMissing value then [] else [("value", value.json)])
  | .content query caseSensitive =>
    Filter.tagged "content" [("query", .string query), ("caseSensitive", .bool caseSensitive)]
  | .relation kind target field =>
    Filter.tagged "relation" (("relationType", .string kind.name) ::
      (Json.optionalEntry "targetNodeId" (target.map .string) ++
        Json.optionalEntry "fieldSystemId" (field.map .string)))
  | .temporal field op days date =>
    Filter.tagged "temporal" ([("field", .string field.name), ("op", .string op.name)] ++
      (Json.optionalEntry "days" (days.map fun n => .nat n.toNat) ++
        Json.optionalEntry "date" (date.map .string)))
  | .hasField field negate =>
    Filter.tagged "hasField" [("fieldSystemId", .string field), ("negate", .bool negate)]
  | .and filters => Filter.tagged "and" [("filters", .array (Filter.listToJson filters))]
  | .or filters => Filter.tagged "or" [("filters", .array (Filter.listToJson filters))]
  | .not filters => Filter.tagged "not" [("filters", .array (Filter.listToJson filters))]

/-- The written forms of filters. -/
def Filter.listToJson : List Filter → List Json
  | [] => []
  | f :: rest => Filter.toJson f :: Filter.listToJson rest

end

/-- The written form of an order. -/
def QuerySort.toJson (sort : QuerySort) : Json :=
  .object [("field", .string sort.field), ("direction", .string sort.direction.name)]

namespace QueryDefinition

/-- The written form, with its parts in their order. -/
def toJson (d : QueryDefinition) : Json :=
  .object ([("filters", .array (Filter.listToJson d.filters))] ++
    (Json.optionalEntry "sort" (d.sort.map (·.toJson)) ++ [("limit", .nat d.limit.toNat)]))

/-- The definition as a text. -/
def toText (d : QueryDefinition) : String :=
  d.toJson.render

/-- The definition as a document, which is how it is stored. -/
def toDocument (d : QueryDefinition) : Document :=
  .ofJson d.toJson

end QueryDefinition

/-! ## Reading parts -/

namespace Json

/-- The value of a key, if it has one; a key that repeats is an error. -/
def single? (entries : List (String × Json)) (key : String) : Option (Option Json) :=
  match entries.filter (·.1 == key) with
  | [] => some none
  | [(_, value)] => some (some value)
  | _ => none

/-- The parts of an object, or of a list that has at most as many items, by their names. -/
def parts? (names : List String) : Json → Option (List (Option Json))
  | .object entries => names.mapM (single? entries)
  | .array items =>
    if items.length ≤ names.length then
      some (items.map some ++ List.replicate (names.length - items.length) none)
    else none
  | _ => none

/-- What stands in front of the parts of a tagged object or list, and the parts. -/
def untag? : Json → Option (Json × Json)
  | .object entries =>
    match single? entries "type" with
    | some (some tag) => some (tag, .object (entries.filter (·.1 != "type")))
    | _ => none
  | .array (tag :: items) => some (tag, .array items)
  | _ => none

/-- A truth value. -/
def asBool? : Json → Option Bool
  | .bool b => some b
  | _ => none

/-- The items of an array. -/
def asArray? : Json → Option (List Json)
  | .array items => some items
  | _ => none

/-- A whole number that is not negative and below a bound. -/
def asNatBelow? (bound : Nat) : Json → Option Nat
  | .number (.whole i _) => if 0 ≤ i ∧ i < bound then some i.toNat else none
  | _ => none

/-- A part that must be there. -/
def required? {α : Type} (read? : Json → Option α) : Option Json → Option α
  | some value => read? value
  | none => none

/-- A part that has a default. -/
def defaulted? {α : Type} (default : α) (read? : Json → Option α) : Option Json → Option α
  | some value => read? value
  | none => some default

/-- A part that may be missing or `null`. -/
def optional? {α : Type} (read? : Json → Option α) : Option Json → Option (Option α)
  | some .null => some none
  | some value => (read? value).map some
  | none => some none

/-- Whether a value holds nothing: it is `null` or, if `emptyObject`, an object without entries. -/
def holdsNothing (emptyObject : Bool) : Json → Bool
  | .null => true
  | .object [] => emptyObject
  | _ => false

/-- A name out of a list, alone or as the key of an object with one entry that holds nothing. -/
def choice? {α : Type} (emptyObject : Bool) (all : List α) (name : α → String) :
    Json → Option α
  | .string s => all.find? (name · == s)
  | .object [(key, value)] =>
    if holdsNothing emptyObject value then all.find? (name · == key) else none
  | _ => none

end Json

/-! ## Reading filters -/

namespace Filter

/-- The types of filters, in their order. -/
def types : List String :=
  ["supertag", "property", "content", "relation", "temporal", "hasField", "and", "or", "not"]

/-- The type that a tag names. The tag of a filter inside another one may also be the place of the
type in the list of types. -/
def typeOfTag? (inner : Bool) : Json → Option String
  | .string type => some type
  | .number (.whole place _) => if inner && 0 ≤ place then types[place.toNat]? else none
  | _ => none

/-- The names of the parts of the filters of a type. -/
def partNames : (type : String) → List String
  | "supertag" => ["supertagSystemId", "includeInherited"]
  | "property" => ["fieldSystemId", "op", "value"]
  | "content" => ["query", "caseSensitive"]
  | "relation" => ["relationType", "targetNodeId", "fieldSystemId"]
  | "temporal" => ["field", "op", "days", "date"]
  | "hasField" => ["fieldSystemId", "negate"]
  | _ => ["filters"]

/-- The filter of a type with the given parts; `children?` reads a list of filters. -/
def ofParts? (children? : Json → Option (List Filter)) (type : String)
    (parts : List (Option Json)) : Option Filter :=
  match type, parts with
  | "supertag", [tag, includeInherited] => do
    some (.supertag (← Json.required? Json.asString? tag)
      (← Json.defaulted? true Json.asBool? includeInherited))
  | "property", [field, op, value] => do
    some (.property (← Json.required? Json.asString? field)
      (← Json.required? (Json.choice? true PropertyOp.all PropertyOp.name) op)
      (.ofJson (value.getD .null)))
  | "content", [query, caseSensitive] => do
    some (.content (← Json.required? Json.asString? query)
      (← Json.defaulted? false Json.asBool? caseSensitive))
  | "relation", [kind, target, field] => do
    some (.relation
      (← Json.required? (Json.choice? true RelationKind.all RelationKind.name) kind)
      (← Json.optional? Json.asString? target) (← Json.optional? Json.asString? field))
  | "temporal", [field, op, days, date] => do
    some (.temporal (← Json.required? (Json.choice? true TimeField.all TimeField.name) field)
      (← Json.required? (Json.choice? true TimeOp.all TimeOp.name) op)
      ((← Json.optional? (Json.asNatBelow? (2 ^ 32)) days).map UInt32.ofNat)
      (← Json.optional? Json.asString? date))
  | "hasField", [field, negate] => do
    some (.hasField (← Json.required? Json.asString? field)
      (← Json.defaulted? false Json.asBool? negate))
  | "and", [filters] => (Json.required? children? filters).map .and
  | "or", [filters] => (Json.required? children? filters).map .or
  | "not", [filters] => (Json.required? children? filters).map .not
  | _, _ => none

/-- The filter that a value writes, with filters nested at most `room` deep; `inner` tells whether
it stands inside another filter. -/
def readWithin? : (room : Nat) → (inner : Bool) → Json → Option Filter
  | 0, _, _ => none
  | room + 1, inner, j => do
    let (tag, body) ← j.untag?
    let type ← typeOfTag? inner tag
    let parts ← body.parts? (partNames type)
    ofParts? (fun items => (items.asArray?).bind (·.mapM (readWithin? room true))) type parts

/-- The filter that a value writes. Filters never nest deeper than the value does. -/
def ofJson? (j : Json) : Option Filter :=
  readWithin? j.depth false j

end Filter

/-! ## Reading definitions -/

namespace QuerySort

/-- The names of the parts of an order. -/
def partNames : List String := ["field", "direction"]

/-- The order that a value writes. -/
def ofJson? (j : Json) : Option QuerySort :=
  match j.parts? partNames with
  | some [field, direction] => do
    some ⟨← Json.required? Json.asString? field,
      ← Json.defaulted? .asc (Json.choice? false SortDirection.all SortDirection.name) direction⟩
  | _ => none

end QuerySort

namespace QueryDefinition

/-- The names of the parts of a definition. -/
def partNames : List String := ["filters", "sort", "limit"]

/-- The definition that a value writes, valid or not. -/
def read? (j : Json) : Option QueryDefinition :=
  match j.parts? partNames with
  | some [filters, sort, limit] => do
    some ⟨← Json.defaulted? [] (fun items => (items.asArray?).bind (·.mapM Filter.ofJson?)) filters,
      ← Json.optional? QuerySort.ofJson? sort,
      UInt64.ofNat
        (← Json.defaulted? defaultLimit.toNat (Json.asNatBelow? (2 ^ 64)) limit)⟩
  | _ => none

/-- A definition that has been read, if it is valid. -/
def checked (d : Option QueryDefinition) : Except DefinitionFault QueryDefinition :=
  match d with
  | none => .error .unreadable
  | some d =>
    match d.fault? with
    | some fault => .error fault
    | none => .ok d

/-- The valid definition that a document holds. -/
def ofDocument (d : Document) : Except DefinitionFault QueryDefinition :=
  checked (read? d.json)

end QueryDefinition

/-! ## Definitions as texts -/

namespace Written

/-- The entries of a written object that have one of the keys, each read by `read?`. All keys must
be proper strings; what stands under other keys may be anything. -/
def knownEntries? (keys : List String) (read? : String → Written → Option Json) :
    List (List StringPiece × Written) → Option (List (String × Json))
  | [] => some []
  | (pieces, value) :: rest => do
    let key ← StringPiece.string? pieces
    let more ← knownEntries? keys read? rest
    if keys.contains key then
      let value ← read? key value
      some ((key, value) :: more)
    else some more

/-- A written order, with at most `room` levels in the parts that count. -/
def sortJson? (room : Nat) : Written → Option Json
  | .object entries =>
    (knownEntries? QuerySort.partNames (fun _ value => value.toJson? (room - 1)) entries).map
      .object
  | tree => tree.toJson? room

/-- A part of a written definition, with at most `room` levels. -/
def partJson? (room : Nat) (key : String) (tree : Written) : Option Json :=
  if key = "sort" then tree.sortJson? room else tree.toJson? room

/-- The parts that count of a written definition. -/
def definitionJson? : Written → Option Json
  | .object entries =>
    (knownEntries? QueryDefinition.partNames (partJson? (Json.depthLimit - 1)) entries).map .object
  | .array items =>
    if items.length ≤ QueryDefinition.partNames.length then
      ((QueryDefinition.partNames.zip items).mapM fun part =>
        partJson? (Json.depthLimit - 1) part.1 part.2).map .array
    else none
  | _ => none

end Written

namespace QueryDefinition

/-- The definition that a text writes, valid or not. -/
def readText? (raw : String) : Option QueryDefinition :=
  ((Written.ofString? raw).bind (·.definitionJson?)).bind read?

/-- The valid definition that a text writes. -/
def ofText (raw : String) : Except DefinitionFault QueryDefinition :=
  checked (readText? raw)

end QueryDefinition

end TagGraph
