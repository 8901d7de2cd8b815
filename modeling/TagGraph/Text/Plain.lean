import TagGraph.Text.Blank

/-!
# Markup-free text

The plain form of a node's content. Four rules run one after the other over the whole text: a tag
`<…>` becomes a blank, a link or image `[label](target)` becomes its label, the symbols of emphasis,
headings, quotes and code go away, and each run of white space becomes one blank. What stands at
either end as white space is cut off.

Each rule takes the leftmost match, and a run inside a match is as long as it can be.
-/

namespace TagGraph.Text

/-! ## Tags -/

/-- What follows a tag whose opening bracket stands before `cs`: at least one character other than
`>`, then `>`. -/
def afterTag? (cs : List Char) : Option (List Char) :=
  match cs.takeWhile (· != '>'), cs.dropWhile (· != '>') with
  | _ :: _, _ :: rest => some rest
  | _, _ => none

theorem length_le_of_afterTag? {cs rest : List Char} (h : afterTag? cs = some rest) :
    rest.length ≤ cs.length := by
  have hd : (cs.dropWhile (· != '>')).length ≤ cs.length := (List.dropWhile_suffix _).length_le
  unfold afterTag? at h
  split at h
  · next hrest =>
    rw [hrest] at hd
    obtain rfl := Option.some.inj h
    simp only [List.length_cons] at hd
    omega
  · cases h

/-- A text with each tag replaced by one blank. -/
def dropTags : List Char → List Char
  | [] => []
  | c :: cs =>
    if c = '<' then
      match _h : afterTag? cs with
      | some rest => ' ' :: dropTags rest
      | none => c :: dropTags cs
    else c :: dropTags cs
termination_by cs => cs.length
decreasing_by
  all_goals simp_wf
  · have := length_le_of_afterTag? _h
    omega

/-! ## Links -/

/-- The label of a link whose opening bracket stands before `cs`, and what follows the link:
`label](target)`, with no `]` in the label and no `)` in the target. -/
def afterLink? (cs : List Char) : Option (List Char × List Char) :=
  match cs.dropWhile (· != ']') with
  | _ :: '(' :: more =>
    match more.dropWhile (· != ')') with
    | _ :: rest => some (cs.takeWhile (· != ']'), rest)
    | [] => none
  | _ => none

theorem length_le_of_afterLink? {cs label rest : List Char}
    (h : afterLink? cs = some (label, rest)) : rest.length ≤ cs.length := by
  have hd : (cs.dropWhile (· != ']')).length ≤ cs.length := (List.dropWhile_suffix _).length_le
  unfold afterLink? at h
  split at h
  · next more hmore =>
    have hm : (more.dropWhile (· != ')')).length ≤ more.length :=
      (List.dropWhile_suffix _).length_le
    rw [hmore] at hd
    split at h
    · next hrest =>
      rw [hrest] at hm
      obtain ⟨-, rfl⟩ := Prod.mk.inj (Option.some.inj h)
      simp only [List.length_cons] at hd hm
      omega
    · cases h
  · cases h

/-- The label of a link or image that starts right at the front of a text, and what follows it. -/
def linkAt? : List Char → Option (List Char × List Char)
  | '!' :: '[' :: cs => afterLink? cs
  | '[' :: cs => afterLink? cs
  | _ => none

theorem length_lt_of_linkAt? {cs label rest : List Char} (h : linkAt? cs = some (label, rest)) :
    rest.length < cs.length := by
  unfold linkAt? at h
  split at h
  · have := length_le_of_afterLink? h
    simp only [List.length_cons]
    omega
  · have := length_le_of_afterLink? h
    simp only [List.length_cons]
    omega
  · cases h

/-- A text with each link or image replaced by its label. -/
def unwrapLinks (cs : List Char) : List Char :=
  match _h : linkAt? cs with
  | some (label, rest) => label ++ unwrapLinks rest
  | none =>
    match cs with
    | [] => []
    | c :: cs => c :: unwrapLinks cs
termination_by cs.length
decreasing_by
  · exact length_lt_of_linkAt? _h
  · simp

/-! ## Symbols and white space -/

/-- The symbols of emphasis, headings, quotes and code. -/
def isMarkupSymbol (c : Char) : Bool :=
  c == '*' || c == '_' || c == '\x60' || c == '#' || c == '>' || c == '~'

/-- A text with each run of white space replaced by one blank; `inRun` tells whether the character
before was white space. -/
def collapseBlanks (inRun : Bool) : List Char → List Char
  | [] => []
  | c :: cs =>
    if isBlank c then
      if inRun then collapseBlanks true cs else ' ' :: collapseBlanks true cs
    else c :: collapseBlanks false cs

/-- The plain form of a text, over its characters. -/
def plainChars (cs : List Char) : List Char :=
  trimChars (collapseBlanks false ((unwrapLinks (dropTags cs)).filter (!isMarkupSymbol ·)))

/-- The plain form of a content. -/
def plain (content : String) : String :=
  String.ofList (plainChars content.toList)

end TagGraph.Text
