import TagGraph.Number.Power

/-!
# Node identifiers

Every node is named by a number of 128 bits, written as thirty-two hexadecimal digits in groups of
8, 4, 4, 4 and 12. It is read in that form, without hyphens, in braces, or behind `urn:uuid:`, in
either case.
-/

namespace TagGraph

/-- The stable name of a node. -/
structure NodeId where
  number : Nat
  number_lt : number < 2 ^ 128
deriving DecidableEq

namespace NodeId

instance : Inhabited NodeId := ⟨⟨0, by decide⟩⟩

/-! ## Hexadecimal digits -/

/-- The hexadecimal digit of a number below sixteen. -/
def hexDigit (n : Nat) : Char :=
  if n < 10 then Char.ofNat ('0'.toNat + n) else Char.ofNat ('a'.toNat + (n - 10))

/-- The value of a hexadecimal digit, in either case. -/
def hexValue? (c : Char) : Option Nat :=
  if '0' ≤ c ∧ c ≤ '9' then some (c.toNat - '0'.toNat)
  else if 'a' ≤ c ∧ c ≤ 'f' then some (c.toNat - 'a'.toNat + 10)
  else if 'A' ≤ c ∧ c ≤ 'F' then some (c.toNat - 'A'.toNat + 10)
  else none

/-- The last `width` hexadecimal digits of a number. -/
def hexDigits : (width : Nat) → Nat → List Char
  | 0, _ => []
  | width + 1, n => hexDigits width (n / 16) ++ [hexDigit (n % 16)]

/-- The number that hexadecimal digits write, read on from `acc`. -/
def hexNumber? (acc : Nat) : List Char → Option Nat
  | [] => some acc
  | c :: cs => (hexValue? c).bind fun v => hexNumber? (16 * acc + v) cs

/-! ## Written forms -/

/-- Thirty-two digits with a hyphen after the eighth, twelfth, sixteenth and twentieth. -/
def hyphenate (digits : List Char) : List Char :=
  digits.take 8 ++ '-' :: (digits.drop 8).take 4 ++ '-' :: (digits.drop 12).take 4 ++
    '-' :: (digits.drop 16).take 4 ++ '-' :: digits.drop 20

/-- The written form, over its characters. -/
def toChars (id : NodeId) : List Char :=
  hyphenate (hexDigits 32 id.number)

/-- The written form: digits in lower case, with hyphens. -/
protected def toString (id : NodeId) : String :=
  String.ofList id.toChars

instance : ToString NodeId := ⟨NodeId.toString⟩

/-- The identifier that exactly thirty-two digits write. -/
def ofDigits? (digits : List Char) : Option NodeId :=
  if digits.length = 32 then
    (hexNumber? 0 digits).bind fun n => if h : n < 2 ^ 128 then some ⟨n, h⟩ else none
  else none

/-- The identifier that thirty-six characters with hyphens in their places write. -/
def ofHyphenated? (cs : List Char) : Option NodeId :=
  let digits := cs.take 8 ++ (cs.drop 9).take 4 ++ (cs.drop 14).take 4 ++ (cs.drop 19).take 4 ++
    cs.drop 24
  if cs.length = 36 ∧ hyphenate digits = cs then ofDigits? digits else none

/-- The text between braces. -/
def unbraced? : List Char → Option (List Char)
  | '\x7b' :: cs => if cs.getLast? = some '\x7d' then some cs.dropLast else none
  | _ => none

/-- The text behind the name space of identifiers, which may stand in either case. -/
def afterUrn? (cs : List Char) : Option (List Char) :=
  if (cs.take 9).map Char.toLower = "urn:uuid:".toList then some (cs.drop 9) else none

/-- The identifier that a text writes in any of its forms, over its characters. -/
def ofChars? (cs : List Char) : Option NodeId :=
  match ofDigits? cs, unbraced? cs, afterUrn? cs with
  | some id, _, _ => some id
  | none, some inner, _ => ofHyphenated? inner
  | none, none, some rest => ofHyphenated? rest
  | none, none, none => ofHyphenated? cs

/-- The identifier that a text writes in any of its forms. -/
def ofString? (s : String) : Option NodeId :=
  ofChars? s.toList

/-- A random identifier: of the bits of a number, all but the six that tell version and variant. -/
def ofRandom (bits : Nat) : NodeId :=
  ⟨bits / 2 ^ 80 % 2 ^ 48 * 2 ^ 80 + 4 * 2 ^ 76 + bits / 2 ^ 64 % 2 ^ 12 * 2 ^ 64 + 2 * 2 ^ 62 +
    bits % 2 ^ 62, by omega⟩

/-- The `n`-th identifier of a counted series: the version and variant of random identifiers, and
the count in the last twelve digits. -/
def counted (n : Nat) : NodeId :=
  ⟨0x40008000000000000000 + n % 2 ^ 48, by omega⟩

end NodeId

end TagGraph
