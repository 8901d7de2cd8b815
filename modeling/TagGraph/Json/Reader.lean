import TagGraph.Json.Written

/-!
# From written JSON to values

A written tree is a value unless it nests too deep, a number lies beyond the doubles, or a string
holds half of a surrogate pair. Texts are read to a depth of 127.
-/

namespace TagGraph

/-! ## Strings -/

namespace StringPiece

/-- The first half of a surrogate pair. -/
def isHigh (u : Nat) : Bool :=
  0xD800 ≤ u && u < 0xDC00

/-- The second half of a surrogate pair. -/
def isLow (u : Nat) : Bool :=
  0xDC00 ≤ u && u < 0xE000

/-- The characters that a written string stands for. Halves of a pair stand for one together and
for none alone. -/
def decode? : List StringPiece → Option (List Char)
  | [] => some []
  | .char c :: rest => (decode? rest).map (c :: ·)
  | [.unit u] => if isHigh u || isLow u then none else some [Char.ofNat u]
  | .unit u :: .char c :: rest =>
    if isHigh u || isLow u then none
    else (decode? rest).map fun cs => Char.ofNat u :: c :: cs
  | .unit u :: .unit v :: rest =>
    if isHigh u then
      if isLow v then
        (decode? rest).map (Char.ofNat (0x10000 + (u - 0xD800) * 0x400 + (v - 0xDC00)) :: ·)
      else none
    else if isLow u then none
    else (decode? (.unit v :: rest)).map (Char.ofNat u :: ·)

/-- The string that a written string stands for. -/
def string? (pieces : List StringPiece) : Option String :=
  (decode? pieces).map String.ofList

end StringPiece

/-! ## Trees -/

namespace Written

mutual

/-- The value that a tree stands for, with arrays and objects nested at most `room` deep. Entries
keep their written order, and keys that repeat are kept. -/
def toJson? (room : Nat) : Written → Option Json
  | .null => some .null
  | .bool b => some (.bool b)
  | .number literal => literal.toJson?.map .number
  | .string pieces => (StringPiece.string? pieces).map .string
  | .array items =>
    match room with
    | 0 => none
    | room + 1 => (toJsonItems? room items).map .array
  | .object entries =>
    match room with
    | 0 => none
    | room + 1 => (toJsonEntries? room entries).map .object

/-- The values of the items of an array. -/
def toJsonItems? (room : Nat) : List Written → Option (List Json)
  | [] => some []
  | x :: xs =>
    match toJson? room x, toJsonItems? room xs with
    | some x, some xs => some (x :: xs)
    | _, _ => none

/-- The keys and values of the entries of an object. -/
def toJsonEntries? (room : Nat) :
    List (List StringPiece × Written) → Option (List (String × Json))
  | [] => some []
  | (k, x) :: xs =>
    match StringPiece.string? k, toJson? room x, toJsonEntries? room xs with
    | some k, some x, some xs => some ((k, x) :: xs)
    | _, _, _ => none

end

end Written

namespace Json

/-- How deep the arrays and objects of a text may nest. -/
def depthLimit : Nat := 127

/-- The value that a text writes, its entries in written order. -/
def ofString? (s : String) : Option Json :=
  (Written.ofString? s).bind (·.toJson? depthLimit)

end Json

end TagGraph
