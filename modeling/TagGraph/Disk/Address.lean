import TagGraph.NodeId

/-!
# Addresses of databases

A database is named by the path of its file, or by an address with the scheme `file:`. In an address
two hexadecimal digits behind a percent sign stand for a byte, a question mark begins options, and a
number sign ends the address. The options say what may be done with the file.
-/

namespace TagGraph

/-- What may be done with the file of a database. -/
inductive FileAccess where
  | read
  | write
  | create
  | memory
deriving DecidableEq

namespace FileAccess

/-- All kinds of access with their names. -/
def names : List (String × FileAccess) :=
  [("ro", .read), ("rw", .write), ("rwc", .create), ("memory", .memory)]

/-- How much a kind of access allows. -/
def strength : FileAccess → Nat
  | .read => 0
  | .write => 1
  | .create => 2
  | .memory => 3

/-- Whether one kind of access may be replaced by another one: by a weaker one, or by memory. -/
def admits (a b : FileAccess) : Bool :=
  b = .memory || b.strength ≤ a.strength

end FileAccess

/-- Where a database is kept, what may be done with its file, and whether the file is one in
memory. -/
structure Address where
  path : String
  access : FileAccess := .create
  isImmutable : Bool := false
  inMemory : Bool := false
deriving DecidableEq

namespace Address

/-! ## Decoding -/

/-- The value of a byte as a hexadecimal digit. -/
def hexDigit? (b : UInt8) : Option Nat :=
  NodeId.hexValue? (Char.ofNat b.toNat)

/-- The byte that two hexadecimal digits behind a percent sign write, and the rest. -/
def escaped? : List UInt8 → Option (Nat × List UInt8)
  | percent :: a :: b :: rest =>
    if percent = '%'.toUInt8 then do
      let high ← hexDigit? a
      let low ← hexDigit? b
      return (16 * high + low, rest)
    else none
  | _ => none

/-- The part of an address up to a byte that ends it, decoded, and the rest from that byte on. An
escaped zero ends what is read of the part. -/
def part (ends : UInt8 → Bool) : (fuel : Nat) → List UInt8 → List UInt8 × List UInt8
  | 0, bs => ([], bs)
  | _, [] => ([], [])
  | fuel + 1, b :: bs =>
    if ends b then ([], b :: bs)
    else
      match escaped? (b :: bs) with
      | some (0, rest) => ([], rest.dropWhile (!ends ·))
      | some (n, rest) =>
        let (decoded, rest) := part ends fuel rest
        (UInt8.ofNat n :: decoded, rest)
      | none =>
        let (decoded, rest) := part ends fuel bs
        (b :: decoded, rest)

/-- Bytes as a text. Bytes that are none are told by their numbers. -/
def textOf (bs : List UInt8) : String :=
  match String.fromUTF8? ⟨bs.toArray⟩ with
  | some s => s
  | none => "\uFFFD" ++ ".".intercalate (bs.map fun b => toString b.toNat)

/-- The options behind a question mark. One without a name is passed over. -/
def options : (fuel : Nat) → List UInt8 → List (String × String)
  | 0, _ => []
  | _, [] => []
  | fuel + 1, b :: bs =>
    let isAnd (b : UInt8) : Bool := b = '&'.toUInt8
    let isAssign (b : UInt8) : Bool := b = '='.toUInt8
    let all := b :: bs
    let (name, rest) := part (fun b => isAnd b || isAssign b) all.length all
    if name.isEmpty then
      if rest.head?.any isAssign then options fuel ((rest.dropWhile (!isAnd ·)).drop 1)
      else options fuel (rest.drop 1)
    else if rest.head?.any isAssign then
      let (value, rest) := part isAnd all.length (rest.drop 1)
      (textOf name, textOf value) :: options fuel (rest.drop 1)
    else (textOf name, "") :: options fuel (rest.drop 1)

/-! ## Options -/

/-- The names of the ways to share pages between connections. -/
def cacheModes : List String := ["shared", "private"]

/-- The names of the ways to reach files; the last one keeps them in memory. -/
def fileLayers : List String := ["unix", "unix-dotfile", "unix-excl", "unix-none", "memdb"]

/-- Applies an option to an address. -/
def applyOption (a : Address) : String × String → Except String Address
  | ("mode", name) =>
    match FileAccess.names.lookup name with
    | none => .error ("no such access mode: " ++ name)
    | some access =>
      if a.access.admits access then .ok { a with access }
      else .error ("access mode not allowed: " ++ name)
  | ("cache", name) =>
    if cacheModes.contains name then .ok a else .error ("no such cache mode: " ++ name)
  | _ => .ok a

/-- Whether a text says yes: a word for it, or a number other than zero. -/
def saysYes (s : String) : Bool :=
  let digits := s.toList.takeWhile Char.isDigit
  if digits.isEmpty then ["on", "yes", "true"].contains (s.map Char.toLower)
  else (digits.foldl (fun n c => 10 * n + (c.toNat - 48)) 0) % 256 != 0

/-- The address of a path with options. -/
def withOptions (path : String) (given : List (String × String)) : Except String Address := do
  let a ← given.foldlM applyOption { path }
  let layer := (given.reverse.lookup "vfs").getD "unix"
  if !fileLayers.contains layer then throw ("no such vfs: " ++ layer)
  return { a with
    inMemory := layer = "memdb"
    isImmutable := (given.lookup "immutable").any saysYes }

/-! ## Reading -/

/-- The path of an address behind its scheme, without the host in front of it, which can only be
this one. -/
def dropHost (bs : List UInt8) : Except String (List UInt8) :=
  let slash := '/'.toUInt8
  match bs with
  | a :: b :: rest =>
    if a = slash && b = slash then
      let host := textOf (rest.takeWhile (· ≠ slash))
      if host = "" || host = "localhost" then .ok (rest.dropWhile (· ≠ slash))
      else .error ("invalid uri authority: " ++ host)
    else .ok bs
  | _ => .ok bs

/-- The address that a text writes: one with the scheme `file:`, or else the path of a file. -/
def ofString? (s : String) : Except String Address :=
  let scheme := "file:".toUTF8.toList
  let bs := s.toUTF8.toList
  if scheme.isPrefixOf bs then do
    let bs ← dropHost (bs.drop scheme.length)
    let bs := bs.takeWhile (· ≠ '#'.toUInt8)
    let (path, rest) := part (· = '?'.toUInt8) bs.length bs
    withOptions (textOf path) (options rest.length (rest.drop 1))
  else .ok { path := s }

/-- Whether a database has no file, not even one in memory. -/
def hasNoFile (a : Address) : Bool :=
  a.access = .memory || a.path = "" || a.path = ":memory:"

/-- Whether a database is gone at the end of a run. -/
def isTransient (a : Address) : Bool :=
  a.inMemory || a.hasNoFile

/-- Whether nothing can be written to a database. -/
def isReadOnly (a : Address) : Bool :=
  a.access = .read || (a.isImmutable && !a.hasNoFile)

end Address

end TagGraph
