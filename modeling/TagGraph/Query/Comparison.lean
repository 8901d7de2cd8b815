import TagGraph.Property.Value
import TagGraph.Query.Definition
import TagGraph.Text.LowerCase
import TagGraph.Text.Search

/-!
# Comparing stored values

How the values of a field are compared with the value of a filter, and how they are put in order.
Numbers and texts that write numbers compare as numbers; everything else that has a text form
compares as text without regard to case.

Reference lists are split first, so that each reference is tested on its own.
-/

namespace TagGraph

/-! ## Views of both sides -/

/-- The finite number that a text writes, with white space around it. -/
def Number.ofText? (s : String) : Option Binary64 :=
  (Decimal.ofChars? (Text.trimChars s.toList)).bind (·.toBinary64?)

namespace PropertyValue

/-- The number that a stored value counts as. Stored numbers are finite. -/
def numeric? : PropertyValue → Option Binary64
  | .number n => n.finite?
  | .string s => Number.ofText? s
  | _ => none

/-- The text form without regard to case. -/
def folded? (v : PropertyValue) : Option String :=
  v.text?.map Text.lower

end PropertyValue

/-- The value that a filter compares with. -/
abbrev Expected : Type := Document

namespace Expected

/-- The number that an expected value counts as. -/
def numeric? (e : Expected) : Option Binary64 :=
  match e.json with
  | .number n => some n.toBinary64
  | .string s => Number.ofText? s
  | _ => none

/-- The expected value as a text. -/
def text? (e : Expected) : Option String :=
  match e.json with
  | .string s => some s
  | .number n => some n.toBinary64.text
  | .bool b => some (if b then "true" else "false")
  | _ => none

/-- The text of an expected value without regard to case. -/
def folded? (e : Expected) : Option String :=
  (text? e).map Text.lower

/-- Whether an expected value is a number. -/
def isNumber (e : Expected) : Bool :=
  match e.json with
  | .number _ => true
  | _ => false

end Expected

namespace PropertyValue

/-! ## One value -/

/-- Whether a stored value is a number. -/
def isNumber (v : PropertyValue) : Bool :=
  v.asNumber?.isSome

/-- Whether a stored blob has exactly the expected content. -/
def equalsBlob (v : PropertyValue) (e : Expected) : Bool :=
  match v with
  | .json d => d.same e
  | _ => false

/-- Whether both sides have a text form, and the same one without regard to case. -/
def equalsText (v : PropertyValue) (e : Expected) : Bool :=
  match v.folded?, Expected.folded? e with
  | some left, some right => left == right
  | _, _ => false

/-- Whether two values that are not booleans both are equal: as numbers if one of them is a number
and the other counts as one, and otherwise as texts. -/
def equalsScalar (v : PropertyValue) (e : Expected) : Bool :=
  match v.numeric?, Expected.numeric? e with
  | some left, some right =>
    if v.isNumber || Expected.isNumber e then left.sameValue right else v.equalsText e
  | _, _ => v.equalsText e

/-- Whether a stored value equals the expected one. -/
def equals (v : PropertyValue) (e : Expected) : Bool :=
  v.equalsBlob e ||
    match v, e.json with
    | .boolean left, .bool right => left == right
    | _, _ => v.equalsScalar e

/-- How a stored value compares with the expected one: as numbers if both count as numbers, else as
texts. Values without a text form do not compare. -/
def order? (v : PropertyValue) (e : Expected) : Option Ordering :=
  match v.numeric?, Expected.numeric? e with
  | some left, some right => some (left.order right)
  | _, _ =>
    match v.folded?, Expected.folded? e with
    | some left, some right => some (compare left right)
    | _, _ => none

/-! ## The values of a field -/

/-- The values with each reference list split into single references. -/
def flatten (values : List PropertyValue) : List PropertyValue :=
  values.flatMap fun
    | .nodes ids => ids.map .node
    | v => [v]

/-- Whether one of the values compares as wanted with the expected one. -/
def anyOrder (values : List PropertyValue) (e : Expected) (wanted : Ordering → Bool) : Bool :=
  values.any fun v => (v.order? e).any wanted

/-- Whether the text of one of the values stands as wanted to the expected text, both without regard
to case. -/
def anyText (values : List PropertyValue) (e : Expected) (wanted : String → String → Bool) :
    Bool :=
  match Expected.folded? e with
  | some needle => values.any fun v => v.folded?.any (wanted · needle)
  | none => false

end PropertyValue

namespace PropertyOp

/-- Whether the values of a field pass the test of an operator. -/
def test (op : PropertyOp) (values : List PropertyValue) (e : Expected) : Bool :=
  match op with
  | .isEmpty => values.all (·.isBlank)
  | .isNotEmpty => !values.all (·.isBlank)
  | .eq => values.any (·.equals e)
  | .neq => !values.any (·.equals e)
  | .gt => PropertyValue.anyOrder values e (· == .gt)
  | .gte => PropertyValue.anyOrder values e (· != .lt)
  | .lt => PropertyValue.anyOrder values e (· == .lt)
  | .lte => PropertyValue.anyOrder values e (· != .gt)
  | .contains => PropertyValue.anyText values e Text.contains
  | .startsWith => PropertyValue.anyText values e Text.startsWith
  | .endsWith => PropertyValue.anyText values e Text.endsWith

end PropertyOp

/-! ## Keys of an order -/

/-- What a node is ordered by. Numbers stand before texts. -/
inductive SortKey where
  | number (value : Binary64)
  | text (value : String)
deriving DecidableEq

namespace SortKey

/-- The key of a stored value, if it has one. -/
def ofValue? (v : PropertyValue) : Option SortKey :=
  match v.numeric? with
  | some x => some (.number x)
  | none => v.folded?.map .text

/-- The key of a time: the nearest double. -/
def ofTime (t : Int) : SortKey :=
  .number ((Binary64.ofInt? t).getD (.zero false))

/-- The order of keys. -/
def order : SortKey → SortKey → Ordering
  | .number a, .number b => a.order b
  | .text a, .text b => compare a b
  | .number _, .text _ => .lt
  | .text _, .number _ => .gt

end SortKey

end TagGraph
