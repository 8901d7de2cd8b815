import TagGraph.Text.LowerCase.Table

/-!
# Lower case

The full lower-case mapping of Unicode, used wherever texts are compared without regard to case.
All letters but one map on their own. A capital sigma becomes a final sigma exactly when a letter
stands before it and none after it, characters such as apostrophes and accents left out of account.
-/

namespace TagGraph.Text

/-- Whether a character is a letter with case, apart from those that words pass over. -/
def isCased (c : Char) : Bool :=
  inRanges casedRanges c.toNat

/-- Whether a character is passed over when the ends of a word are looked for. -/
def isCaseIgnorable (c : Char) : Bool :=
  inRanges caseIgnorableRanges c.toNat

/-- The small letters of one character on its own. -/
def lowerChar (c : Char) : List Char :=
  if c.toNat < 0x80 then
    if 'A' ≤ c && c ≤ 'Z' then [Char.ofNat (c.toNat + 32)] else [c]
  else if c.toNat = 0x130 then ['i', Char.ofNat 0x307]
  else
    match caseRuns.find? (·.holds c.toNat) with
    | some run => [Char.ofNat (c.toNat + run.offset).toNat]
    | none => [c]

/-- Whether the first character of `cs` that words do not pass over is a letter with case. -/
def facesLetter (cs : List Char) : Bool :=
  match cs.dropWhile isCaseIgnorable with
  | c :: _ => isCased c
  | [] => false

/-- The lower-case form of `cs`, where `before` holds the characters in front of it, nearest
first. -/
def lowerAfter (before : List Char) : List Char → List Char
  | [] => []
  | c :: cs =>
    if c = 'Σ' then
      (if facesLetter before && !facesLetter cs then 'ς' else 'σ') :: lowerAfter (c :: before) cs
    else lowerChar c ++ lowerAfter (c :: before) cs

/-- The lower-case form of a text, over its characters. -/
def lowerChars (cs : List Char) : List Char :=
  lowerAfter [] cs

/-- The lower-case form of a string. -/
def lower (s : String) : String :=
  String.ofList (lowerChars s.toList)

/-- The lower-case form of the letters `A` to `Z` alone. -/
def lowerAscii (s : String) : String :=
  s.map Char.toLower

end TagGraph.Text
