import TagGraph.Text.Blank
import TagGraph.Text.LowerCase

/-!
# Types of fields

A field node may declare the shape of its values. Fields of type `nodes` hold one row per reference
and grow with each write; all others hold one value.
-/

namespace TagGraph

/-- The declared shape of the values of a field. -/
inductive FieldType where
  | text
  | number
  | boolean
  | date
  | node
  | nodes
  | json
deriving DecidableEq, Repr

namespace FieldType

/-- All types, in the order in which they are listed. -/
def all : List FieldType := [.text, .number, .boolean, .date, .node, .nodes, .json]

/-- The name of a type as it is declared. -/
def name : FieldType → String
  | .text => "text"
  | .number => "number"
  | .boolean => "boolean"
  | .date => "date"
  | .node => "node"
  | .nodes => "nodes"
  | .json => "json"

/-- The type that a declaration names, in any case of the letters `A` to `Z` and with white space
around it. `string` is another name of `text`. -/
def ofString? (s : String) : Option FieldType :=
  let name := Text.lowerAscii (Text.trim s)
  if name = "string" then some .text else all.find? (·.name == name)

/-- Whether a write adds to the values of the field instead of replacing them. -/
def isMultiValued : FieldType → Bool
  | .nodes => true
  | _ => false

end FieldType

end TagGraph
