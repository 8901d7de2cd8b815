import TagGraph.Number.Notation

/-!
# JSON values

Values as a reader of JSON sees them. Whole numbers that fit sixty-four bits stay whole; all others
are doubles. An object lists its entries in the order of their keys, each key once, in every value
that the store keeps: those are the `Document`s of `TagGraph.Json.Document`.
-/

namespace TagGraph

/-- A JSON number: a whole number from `-2 ^ 63` up to `2 ^ 64 - 1`, or a finite double. -/
inductive JsonNumber where
  | whole (value : Int) (inRange : -2 ^ 63 ≤ value ∧ value < 2 ^ 64)
  | double (value : Binary64)
deriving DecidableEq

namespace JsonNumber

/-- A whole number as a JSON number, if it fits. -/
def ofInt? (i : Int) : Option JsonNumber :=
  if h : -2 ^ 63 ≤ i ∧ i < 2 ^ 64 then some (.whole i h) else none

/-- The nearest double. Whole numbers in range always have one. -/
def toBinary64 : JsonNumber → Binary64
  | .whole i _ => (Binary64.ofInt? i).getD (.zero false)
  | .double x => x

/-- Equality of numbers of one kind, by value. A whole number never equals a double. -/
def same : JsonNumber → JsonNumber → Bool
  | .whole i _, .whole j _ => i == j
  | .double x, .double y => x.sameValue y
  | _, _ => false

/-- The written form. -/
def toChars : JsonNumber → List Char
  | .whole i _ => (toString i).toList
  | .double x => x.taggedText

end JsonNumber

/-- A JSON value. -/
inductive Json where
  | null
  | bool (value : Bool)
  | number (value : JsonNumber)
  | string (value : String)
  | array (items : List Json)
  | object (entries : List (String × Json))

namespace Json

instance : Inhabited Json := ⟨.null⟩

/-- A whole number as a value; one that does not fit becomes the nearest double. -/
def int (i : Int) : Json :=
  .number ((JsonNumber.ofInt? i).getD (.double ((Binary64.ofInt? i).getD (.zero false))))

/-- A natural number as a value. -/
def nat (n : Nat) : Json := .int n

/-- The value of the first entry with the key. -/
def get? (key : String) : Json → Option Json
  | .object entries => (entries.find? (·.1 == key)).map (·.2)
  | _ => none

/-- The text of a string value. -/
def asString? : Json → Option String
  | .string s => some s
  | _ => none

mutual

/-- Equality of values: entries in the same order, numbers by value. -/
def same : Json → Json → Bool
  | .null, .null => true
  | .bool a, .bool b => a == b
  | .number a, .number b => a.same b
  | .string a, .string b => a == b
  | .array xs, .array ys => sameItems xs ys
  | .object xs, .object ys => sameEntries xs ys
  | _, _ => false

/-- Equality of the items of two arrays. -/
def sameItems : List Json → List Json → Bool
  | [], [] => true
  | x :: xs, y :: ys => same x y && sameItems xs ys
  | _, _ => false

/-- Equality of the entries of two objects. -/
def sameEntries : List (String × Json) → List (String × Json) → Bool
  | [], [] => true
  | (k, x) :: xs, (l, y) :: ys => k == l && same x y && sameEntries xs ys
  | _, _ => false

end

mutual

/-- How many arrays and objects stand inside one another. -/
def depth : Json → Nat
  | .array xs => depthItems xs + 1
  | .object xs => depthEntries xs + 1
  | _ => 0

/-- The greatest depth among the items of an array. -/
def depthItems : List Json → Nat
  | [] => 0
  | x :: xs => max (depth x) (depthItems xs)

/-- The greatest depth among the entries of an object. -/
def depthEntries : List (String × Json) → Nat
  | [] => 0
  | (_, x) :: xs => max (depth x) (depthEntries xs)

end

end Json

end TagGraph
