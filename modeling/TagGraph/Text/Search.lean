/-!
# Finding one text in another

The three containment tests of the string operators, over lists of characters.
-/

namespace TagGraph.Text

/-- Whether `needle` stands somewhere in `cs`, as one unbroken run. -/
def occursIn (needle : List Char) : List Char → Bool
  | [] => needle.isEmpty
  | c :: cs => needle.isPrefixOf (c :: cs) || occursIn needle cs

/-- Whether the string `needle` stands somewhere in `s`. -/
def contains (s needle : String) : Bool :=
  occursIn needle.toList s.toList

/-- Whether `s` begins with `needle`. -/
def startsWith (s needle : String) : Bool :=
  needle.toList.isPrefixOf s.toList

/-- Whether `s` ends with `needle`. -/
def endsWith (s needle : String) : Bool :=
  needle.toList.isSuffixOf s.toList

/-- A text occurs in another exactly when it is one of its unbroken runs. -/
theorem occursIn_iff {needle cs : List Char} : occursIn needle cs = true ↔ needle <:+: cs := by
  induction cs with
  | nil => simp [occursIn]
  | cons c cs ih => simp [occursIn, ih, List.infix_cons_iff]

end TagGraph.Text
