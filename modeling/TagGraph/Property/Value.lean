import TagGraph.Calendar.Reading
import TagGraph.Json.Document
import TagGraph.NodeId
import TagGraph.Property.FieldType

/-!
# Property values

What a row of a field holds, and the views of it that typed writes, queries and feature code take.
-/

namespace TagGraph

/-- A decoded property value. -/
inductive PropertyValue where
  | string (value : String)
  | number (value : Number)
  | boolean (value : Bool)
  | node (id : NodeId)
  | nodes (ids : List NodeId)
  | json (value : Document)

namespace PropertyValue

/-! ## Views of one shape -/

/-- The text of a string. -/
def asString? : PropertyValue → Option String
  | .string s => some s
  | _ => none

/-- The number of a number. -/
def asNumber? : PropertyValue → Option Number
  | .number n => some n
  | _ => none

/-- The truth value of a boolean. -/
def asBoolean? : PropertyValue → Option Bool
  | .boolean b => some b
  | _ => none

/-- A single reference. A string that writes an identifier counts as one. -/
def asNodeId? : PropertyValue → Option NodeId
  | .node id => some id
  | .string s => NodeId.ofString? (Text.trim s)
  | _ => none

/-- A list of references. A single reference is a list of one. -/
def asNodeIds? : PropertyValue → Option (List NodeId)
  | .node id => some [id]
  | .nodes ids => some ids
  | _ => none

/-- The document of a blob. -/
def asDocument? : PropertyValue → Option Document
  | .json d => some d
  | _ => none

/-! ## Views that every value has -/

/-- The nodes that the value refers to, in order. -/
def referenced : PropertyValue → List NodeId
  | .node id => [id]
  | .nodes ids => ids
  | _ => []

/-- An identifier as a JSON string. -/
def idJson (id : NodeId) : Json :=
  .string id.toString

/-- The value as plain JSON, without its tag. A number that is not finite is `null`. -/
def plainJson : PropertyValue → Json
  | .string s => .string s
  | .number (.finite x) => .number (.double x)
  | .number _ => .null
  | .boolean b => .bool b
  | .node id => idJson id
  | .nodes ids => .array (ids.map idJson)
  | .json d => d.json

/-- The value as a text, for comparisons of texts. Lists and blobs other than strings have none. -/
def text? : PropertyValue → Option String
  | .string s => some s
  | .number n => some n.text
  | .boolean b => some (if b then "true" else "false")
  | .node id => some id.toString
  | .nodes _ => none
  | .json d => d.json.asString?

/-- Whether the value is an empty string, list or container, or white space alone. -/
def isBlank : PropertyValue → Bool
  | .string s => Text.isBlankText s
  | .nodes ids => ids.isEmpty
  | .json d =>
    match d.json with
    | .null => true
    | .array items => items.isEmpty
    | .object entries => entries.isEmpty
    | _ => false
  | _ => false

/-- Whether a field of the type may hold the value. -/
def conformsTo (v : PropertyValue) : FieldType → Bool
  | .text =>
    match v with
    | .string _ | .number _ | .boolean _ => true
    | _ => false
  | .number =>
    match v with
    | .number _ => true
    | _ => false
  | .boolean =>
    match v with
    | .boolean _ => true
    | _ => false
  | .date =>
    match v with
    | .number _ => true
    | .string s => (Calendar.ofString? s).isSome
    | _ => false
  | .node =>
    match v with
    | .node _ => true
    | _ => false
  | .nodes =>
    match v with
    | .node _ | .nodes _ => true
    | _ => false
  | .json => true

/-- A whole number as a value: the nearest double. -/
def ofInt (i : Int) : PropertyValue :=
  .number (.finite ((Binary64.ofInt? i).getD (.zero false)))

end PropertyValue

end TagGraph
