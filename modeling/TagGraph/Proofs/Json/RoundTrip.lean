import TagGraph.Proofs.Json.Reread
import TagGraph.Proofs.NodeId

/-!
# Printed JSON is read back

The compact text of a value is read as that value, up to its doubles, if its arrays and objects nest
within the limit of the reader, and is refused otherwise (`Json.ofString?_render`). A canonical
value is its own canonical form, so documents keep their content (`Document.ofString?_render`).
-/

namespace TagGraph

/-! ## Strings -/

namespace StringPiece

/-- The piece that the printer writes for a character. -/
def ofChar (c : Char) : StringPiece :=
  if c.toNat < 0x20 ∧ c ≠ '\x08' ∧ c ≠ '\x0c' ∧ c ≠ '\n' ∧ c ≠ '\r' ∧ c ≠ '\t' then .unit c.toNat
  else .char c

/-- A unit that is no half of a pair stands for its character. -/
theorem decode?_unit {u : Nat} (h : u < 0xD800) (pieces : List StringPiece) :
    decode? (.unit u :: pieces) = (decode? pieces).map (Char.ofNat u :: ·) := by
  have hhigh : isHigh u = false := by
    simp [isHigh]
    omega
  have hlow : isLow u = false := by
    simp [isLow]
    omega
  cases pieces with
  | nil => simp [decode?, hhigh, hlow]
  | cons piece pieces =>
    cases piece with
    | unit v => simp [decode?, hhigh, hlow]
    | char c =>
      simp only [decode?, hhigh, hlow, Bool.or_false]
      cases decode? pieces <;> rfl

/-- The pieces of characters stand for those characters. -/
theorem decode?_ofChar (cs : List Char) : decode? (cs.map ofChar) = some cs := by
  induction cs with
  | nil => rfl
  | cons c cs ih =>
    rw [List.map_cons, ofChar]
    split
    · next h =>
      rw [decode?_unit (by omega), ih, Char.ofNat_toNat]
      rfl
    · rw [decode?, ih]
      rfl

end StringPiece

namespace Written

/-- An escape of one letter. -/
theorem stringBody?_simple {e c : Char} (he : e ≠ 'u') (h : simpleEscape? e = some c)
    (cs : List Char) :
    stringBody? ('\\' :: e :: cs) =
      (stringBody? cs).map fun (pieces, rest) => (.char c :: pieces, rest) := by
  rw [stringBody?]
  · rw [h]
    cases stringBody? cs <;> rfl
  · intro a b c d rest heq
    exact absurd heq he

/-- An escape of four hexadecimal digits. -/
theorem stringBody?_unicode {c : Char} (h : c.toNat < 0x20) (cs : List Char) :
    stringBody? (Json.unicodeEscape c ++ cs) =
      (stringBody? cs).map fun (pieces, rest) => (.unit c.toNat :: pieces, rest) := by
  -- There are 32 control characters, and the escape of each is looked at.
  have hall : ∀ n : Fin 32, ∃ x y, NodeId.hexDigits 2 n = [x, y] ∧
      NodeId.hexNumber? 0 ['0', '0', x, y] = some n.val := by
    intro n
    refine ⟨NodeId.hexDigit (n / 16 % 16), NodeId.hexDigit (n % 16), rfl, ?_⟩
    revert n
    decide
  obtain ⟨x, y, hdigits, hnumber⟩ := hall ⟨c.toNat, h⟩
  rw [Json.unicodeEscape, hdigits]
  show stringBody? ('\\' :: 'u' :: '0' :: '0' :: x :: y :: cs) = _
  rw [stringBody?, hnumber]
  cases stringBody? cs <;> rfl

/-- A character that stands for itself. -/
theorem stringBody?_plain {c : Char} (hquote : c ≠ '"') (hslash : c ≠ '\\')
    (h : 0x20 ≤ c.toNat) (cs : List Char) :
    stringBody? (c :: cs) =
      (stringBody? cs).map fun (pieces, rest) => (.char c :: pieces, rest) := by
  rw [stringBody?]
  · rw [if_neg (by omega)]
  · exact hquote
  · intro a b d e rest hc
    exact absurd hc hslash
  · intro e rest hc
    exact absurd hc hslash

/-- One written character of a string. -/
theorem stringBody?_escapeChar (c : Char) (cs : List Char) :
    stringBody? (Json.escapeChar c ++ cs) =
      (stringBody? cs).map fun (pieces, rest) => (.ofChar c :: pieces, rest) := by
  unfold Json.escapeChar
  by_cases hquote : c = '"'
  · subst hquote
    exact stringBody?_simple (by decide) rfl cs
  rw [if_neg hquote]
  by_cases hslash : c = '\\'
  · subst hslash
    exact stringBody?_simple (by decide) rfl cs
  rw [if_neg hslash]
  by_cases hplain : 0x20 ≤ c.toNat
  · have hchar : StringPiece.ofChar c = .char c := if_neg fun h => by omega
    rw [if_pos hplain, hchar]
    exact stringBody?_plain hquote hslash hplain cs
  rw [if_neg hplain]
  -- Five control characters have an escape of one letter, the others one of four digits.
  by_cases hb : c = '\x08'
  · subst hb
    exact stringBody?_simple (by decide) rfl cs
  by_cases hf : c = '\x0c'
  · subst hf
    exact stringBody?_simple (by decide) rfl cs
  by_cases hn : c = '\n'
  · subst hn
    exact stringBody?_simple (by decide) rfl cs
  by_cases hr : c = '\r'
  · subst hr
    exact stringBody?_simple (by decide) rfl cs
  by_cases ht : c = '\t'
  · subst ht
    exact stringBody?_simple (by decide) rfl cs
  have hunit : StringPiece.ofChar c = .unit c.toNat :=
    if_pos ⟨by omega, hb, hf, hn, hr, ht⟩
  rw [if_neg hb, if_neg hf, if_neg hn, if_neg hr, if_neg ht, hunit]
  exact stringBody?_unicode (by omega) cs

/-- A quoted string behind its opening quote. -/
theorem stringBody?_quoted (s : List Char) (rest : List Char) :
    stringBody? (s.flatMap Json.escapeChar ++ '"' :: rest) =
      some (s.map StringPiece.ofChar, rest) := by
  induction s with
  | nil => rfl
  | cons c s ih =>
    rw [List.flatMap_cons, List.append_assoc, stringBody?_escapeChar, ih]
    rfl

/-! ## The first character -/

/-- The first characters of a number: a minus sign or a digit. -/
def StartsNumber (c : Char) : Prop :=
  c = '-' ∨ Decimal.isDigit c = true

theorem StartsNumber.ne {c d : Char} (h : StartsNumber c) (hminus : d ≠ '-')
    (hdigit : Decimal.isDigit d = false) : c ≠ d := by
  rintro rfl
  rcases h with h | h
  · exact hminus h
  · rw [hdigit] at h
    cases h

theorem startsNumber_of_number? {cs : List Char} {found : NumberLiteral × List Char}
    (h : number? cs = some found) : ∃ c rest, cs = c :: rest ∧ StartsNumber c := by
  cases cs with
  | nil => cases h
  | cons c cs =>
    refine ⟨c, cs, rfl, ?_⟩
    by_cases hminus : c = '-'
    · exact Or.inl hminus
    · refine Or.inr (Bool.not_eq_false _ ▸ fun hdigit => ?_)
      -- Without a digit in front there is no whole part.
      have hwhole : wholePart? (c :: cs) = none := by
        rw [wholePart?, Decimal.spanDigits, List.takeWhile_cons, hdigit]
        rfl
      rw [number?_of_ne_minus hminus, unsigned?, hwhole] at h
      cases h

/-- A number of either kind is read as `reread` tells. -/
theorem number?_toChars (n : JsonNumber) {rest : List Char} (hrest : Ends rest) :
    ∃ literal, number? (n.toChars ++ rest) = some (literal, rest) ∧
      literal.toJson? = some n.reread := by
  cases n with
  | whole i inRange => exact ⟨_, number?_toString i hrest, toJson?_digitsOf inRange⟩
  | double x =>
    obtain ⟨literal, hdouble, hvalue, hread⟩ := number?_reread x
    refine ⟨literal, hread rest hrest, ?_⟩
    rw [NumberLiteral.toJson?, hdouble, hvalue]
    rfl

/-- A printed number starts as a number does. -/
theorem startsNumber_toChars (n : JsonNumber) :
    ∃ c cs, n.toChars = c :: cs ∧ StartsNumber c := by
  obtain ⟨literal, hread, -⟩ := number?_toChars n ends_nil
  rw [List.append_nil] at hread
  exact startsNumber_of_number? hread

/-- White space is skipped only where there is some. -/
theorem skipBlanks_cons {c : Char} (h : isJsonBlank c = false) (cs : List Char) :
    skipBlanks (c :: cs) = c :: cs := by
  rw [skipBlanks, List.dropWhile_cons, h]
  rfl

theorem StartsNumber.notBlank {c : Char} (h : StartsNumber c) : isJsonBlank c = false := by
  have hspace : c ≠ ' ' := h.ne (by decide) rfl
  have hline : c ≠ '\n' := h.ne (by decide) rfl
  have htab : c ≠ '\t' := h.ne (by decide) rfl
  have hreturn : c ≠ '\r' := h.ne (by decide) rfl
  simp [isJsonBlank, hspace, hline, htab, hreturn]

/-- Printed values start with neither white space nor a closing bracket. -/
theorem emit_starts (j : Json) (rest : List Char) :
    ∃ c cs, j.emit rest = c :: cs ∧ isJsonBlank c = false ∧ c ≠ ']' := by
  cases j with
  | null => exact ⟨_, _, rfl, rfl, by decide⟩
  | bool b => cases b <;> exact ⟨_, _, rfl, rfl, by decide⟩
  | number n =>
    obtain ⟨c, cs, hchars, hc⟩ := startsNumber_toChars n
    refine ⟨c, cs ++ rest, ?_, hc.notBlank, hc.ne (by decide) rfl⟩
    rw [Json.emit, hchars]
    rfl
  | string s => exact ⟨_, _, rfl, rfl, by decide⟩
  | array xs => exact ⟨_, _, rfl, rfl, by decide⟩
  | object xs => exact ⟨_, _, rfl, rfl, by decide⟩

/-! ## One step of the reader -/

/-- No word starts as a number does. -/
theorem word?_number {c : Char} (h : StartsNumber c) (cs : List Char) :
    word? (c :: cs) = none := by
  have hn : ('n' == c) = false := beq_eq_false_iff_ne.mpr (h.ne (by decide) rfl).symm
  have ht : ('t' == c) = false := beq_eq_false_iff_ne.mpr (h.ne (by decide) rfl).symm
  have hf : ('f' == c) = false := beq_eq_false_iff_ne.mpr (h.ne (by decide) rfl).symm
  have hnull : afterWord? "null" (c :: cs) = none := by
    rw [afterWord?, show "null".toList = 'n' :: ['u', 'l', 'l'] from rfl, List.isPrefixOf, hn]
    rfl
  have htrue : afterWord? "true" (c :: cs) = none := by
    rw [afterWord?, show "true".toList = 't' :: ['r', 'u', 'e'] from rfl, List.isPrefixOf, ht]
    rfl
  have hfalse : afterWord? "false" (c :: cs) = none := by
    rw [afterWord?, show "false".toList = 'f' :: ['a', 'l', 's', 'e'] from rfl,
      List.isPrefixOf, hf]
    rfl
  rw [word?, hnull, htrue, hfalse]

theorem value?_number {c : Char} (h : StartsNumber c) (fuel : Nat) (cs : List Char) :
    value? (fuel + 1) (c :: cs) =
      (number? (c :: cs)).map fun (literal, rest) => (.number literal, rest) := by
  have hquote : c ≠ '"' := h.ne (by decide) rfl
  have hbracket : c ≠ '[' := h.ne (by decide) rfl
  have hbrace : c ≠ '\x7b' := h.ne (by decide) rfl
  rw [value?, skipBlanks_cons h.notBlank]
  -- The other forms of a value start with other characters.
  split
  · next heq => exact absurd (List.cons.inj heq).1 hquote
  · next heq => exact absurd (List.cons.inj heq).1 hbracket
  · next heq => exact absurd (List.cons.inj heq).1 hbrace
  · rw [word?_number h]

theorem value?_string (fuel : Nat) (cs : List Char) :
    value? (fuel + 1) ('"' :: cs) =
      (stringBody? cs).map fun (pieces, rest) => (.string pieces, rest) := by
  rw [value?, skipBlanks_cons rfl]
  rfl

/-- An array with items. -/
theorem value?_items {c : Char} (hblank : isJsonBlank c = false) (hc : c ≠ ']') (fuel : Nat)
    (cs : List Char) :
    value? (fuel + 1) ('[' :: c :: cs) =
      (items? fuel (c :: cs)).map fun (items, rest) => (.array items, rest) := by
  rw [value?, skipBlanks_cons rfl]
  simp only [skipBlanks_cons hblank]
  split
  · next heq => exact absurd (List.cons.inj heq).1 hc
  · rfl

/-- An object with entries. -/
theorem value?_entries {c : Char} (hblank : isJsonBlank c = false) (hc : c ≠ '\x7d') (fuel : Nat)
    (cs : List Char) :
    value? (fuel + 1) ('\x7b' :: c :: cs) =
      (entries? fuel (c :: cs)).map fun (entries, rest) => (.object entries, rest) := by
  rw [value?, skipBlanks_cons rfl]
  simp only [skipBlanks_cons hblank]
  split
  · next heq => exact absurd (List.cons.inj heq).1 hc
  · rfl

theorem items?_last {fuel : Nat} {cs rest : List Char} {item : Written}
    (h : value? fuel cs = some (item, ']' :: rest)) :
    items? (fuel + 1) cs = some ([item], rest) := by
  rw [items?, h]
  simp only [skipBlanks_cons (c := ']') rfl]

theorem items?_more {fuel : Nat} {cs rest : List Char} {item : Written}
    (h : value? fuel cs = some (item, ',' :: rest)) :
    items? (fuel + 1) cs = (items? fuel rest).map fun (items, rest) => (item :: items, rest) := by
  rw [items?, h]
  simp only [skipBlanks_cons (c := ',') rfl]

/-- A key and its value before the closing brace. -/
theorem entries?_last {fuel : Nat} (k : String) {cs rest : List Char} {item : Written}
    (h : value? fuel cs = some (item, '\x7d' :: rest)) :
    entries? (fuel + 1) (Json.quote k ++ ':' :: cs) =
      some ([(k.toList.map StringPiece.ofChar, item)], rest) := by
  have hquote : Json.quote k ++ ':' :: cs =
      '"' :: (k.toList.flatMap Json.escapeChar ++ '"' :: ':' :: cs) := by
    simp [Json.quote]
  rw [hquote, entries?, skipBlanks_cons rfl]
  simp only [stringBody?_quoted, skipBlanks_cons (c := ':') rfl, h,
    skipBlanks_cons (c := '\x7d') rfl]

/-- A key and its value before a comma. -/
theorem entries?_more {fuel : Nat} (k : String) {cs rest : List Char} {item : Written}
    (h : value? fuel cs = some (item, ',' :: rest)) :
    entries? (fuel + 1) (Json.quote k ++ ':' :: cs) =
      (entries? fuel rest).map fun (entries, rest) =>
        ((k.toList.map StringPiece.ofChar, item) :: entries, rest) := by
  have hquote : Json.quote k ++ ':' :: cs =
      '"' :: (k.toList.flatMap Json.escapeChar ++ '"' :: ':' :: cs) := by
    simp [Json.quote]
  rw [hquote, entries?, skipBlanks_cons rfl]
  simp only [stringBody?_quoted, skipBlanks_cons (c := ':') rfl, h,
    skipBlanks_cons (c := ',') rfl]

/-! ## Values, items and entries -/

/-- The tree is what the text of a value writes: it is read as the value is read again, where there
is room for its depth, and is refused elsewhere. -/
def Writes (tree : Written) (j : Json) : Prop :=
  ∀ room, tree.toJson? room = if j.depth ≤ room then some j.reread else none

/-- The trees are what the texts of the items write. -/
def WritesItems (trees : List Written) (xs : List Json) : Prop :=
  ∀ room, toJsonItems? room trees =
    if Json.depthItems xs ≤ room then some (Json.rereadItems xs) else none

/-- The trees are what the texts of the entries write. -/
def WritesEntries (trees : List (List StringPiece × Written)) (xs : List (String × Json)) : Prop :=
  ∀ room, toJsonEntries? room trees =
    if Json.depthEntries xs ≤ room then some (Json.rereadEntries xs) else none

/-- The pieces of a text are read as that text. -/
theorem string?_ofChar (s : String) :
    StringPiece.string? (s.toList.map StringPiece.ofChar) = some s := by
  rw [StringPiece.string?, StringPiece.decode?_ofChar, Option.map_some, String.ofList_toList]

theorem writesItems_nil : WritesItems [] [] :=
  fun _ => rfl

theorem WritesItems.cons {tree : Written} {trees : List Written} {x : Json} {xs : List Json}
    (hx : tree.Writes x) (hxs : WritesItems trees xs) :
    WritesItems (tree :: trees) (x :: xs) := by
  intro room
  rw [toJsonItems?, hx room, hxs room, Json.depthItems]
  by_cases hroom : x.depth ≤ room
  · by_cases hrooms : Json.depthItems xs ≤ room
    · rw [if_pos hroom, if_pos hrooms, if_pos (Nat.max_le.mpr ⟨hroom, hrooms⟩)]
      rfl
    · rw [if_pos hroom, if_neg hrooms, if_neg fun h => hrooms (Nat.max_le.mp h).2]
  · rw [if_neg hroom, if_neg fun h => hroom (Nat.max_le.mp h).1]

theorem writesEntries_nil : WritesEntries [] [] :=
  fun _ => rfl

theorem WritesEntries.cons (k : String) {tree : Written}
    {trees : List (List StringPiece × Written)} {x : Json} {xs : List (String × Json)}
    (hx : tree.Writes x) (hxs : WritesEntries trees xs) :
    WritesEntries ((k.toList.map StringPiece.ofChar, tree) :: trees) ((k, x) :: xs) := by
  intro room
  rw [toJsonEntries?, string?_ofChar, hx room, hxs room, Json.depthEntries]
  by_cases hroom : x.depth ≤ room
  · by_cases hrooms : Json.depthEntries xs ≤ room
    · rw [if_pos hroom, if_pos hrooms, if_pos (Nat.max_le.mpr ⟨hroom, hrooms⟩)]
      rfl
    · rw [if_pos hroom, if_neg hrooms, if_neg fun h => hrooms (Nat.max_le.mp h).2]
  · rw [if_neg hroom, if_neg fun h => hroom (Nat.max_le.mp h).1]

/-- An array needs room for one level more than its items. -/
theorem WritesItems.array {trees : List Written} {xs : List Json} (h : WritesItems trees xs) :
    (array trees).Writes (.array xs) := by
  intro room
  cases room with
  | zero => rfl
  | succ room =>
    rw [toJson?, h room, Json.depth]
    by_cases hroom : Json.depthItems xs ≤ room
    · rw [if_pos hroom, if_pos (Nat.succ_le_succ hroom)]
      rfl
    · rw [if_neg hroom, if_neg fun h => hroom (Nat.le_of_succ_le_succ h)]
      rfl

/-- An object needs room for one level more than its entries. -/
theorem WritesEntries.object {trees : List (List StringPiece × Written)}
    {xs : List (String × Json)} (h : WritesEntries trees xs) :
    (object trees).Writes (.object xs) := by
  intro room
  cases room with
  | zero => rfl
  | succ room =>
    rw [toJson?, h room, Json.depth]
    by_cases hroom : Json.depthEntries xs ≤ room
    · rw [if_pos hroom, if_pos (Nat.succ_le_succ hroom)]
      rfl
    · rw [if_neg hroom, if_neg fun h => hroom (Nat.le_of_succ_le_succ h)]
      rfl

/-! ## The text of a value -/

theorem emitItems_first (x : Json) (xs : List Json) (rest : List Char) :
    Json.emitItems true (x :: xs) rest = x.emit (Json.emitItems false xs rest) :=
  rfl

theorem emitItems_next (x : Json) (xs : List Json) (rest : List Char) :
    Json.emitItems false (x :: xs) rest = ',' :: Json.emitItems true (x :: xs) rest :=
  rfl

theorem emitEntries_first (k : String) (x : Json) (xs : List (String × Json))
    (rest : List Char) :
    Json.emitEntries true ((k, x) :: xs) rest =
      Json.quote k ++ ':' :: x.emit (Json.emitEntries false xs rest) :=
  rfl

theorem emitEntries_next (k : String) (x : Json) (xs : List (String × Json))
    (rest : List Char) :
    Json.emitEntries false ((k, x) :: xs) rest =
      ',' :: Json.emitEntries true ((k, x) :: xs) rest :=
  rfl

mutual

/-- Printing makes a text longer. -/
theorem length_lt_emit : ∀ (j : Json) (rest : List Char), rest.length < (j.emit rest).length
  | .null, rest | .bool true, rest | .bool false, rest => by
    rw [Json.emit, List.length_append]
    exact Nat.lt_add_of_pos_left (by decide)
  | .number n, rest => by
    obtain ⟨c, cs, hchars, -⟩ := startsNumber_toChars n
    rw [Json.emit, hchars, List.length_append]
    exact Nat.lt_add_of_pos_left (Nat.succ_pos _)
  | .string s, rest => by
    rw [Json.emit, List.length_append]
    exact Nat.lt_add_of_pos_left (Nat.succ_pos _)
  | .array xs, rest => by
    rw [Json.emit, List.length_cons]
    exact Nat.lt_succ_of_lt (length_lt_emitItems true xs rest)
  | .object xs, rest => by
    rw [Json.emit, List.length_cons]
    exact Nat.lt_succ_of_lt (length_lt_emitEntries true xs rest)

theorem length_lt_emitItems (first : Bool) :
    ∀ (xs : List Json) (rest : List Char), rest.length < (Json.emitItems first xs rest).length
  | [], rest => Nat.lt_succ_self rest.length
  | x :: xs, rest => by
    have hitem := length_lt_emit x (Json.emitItems false xs rest)
    have hitems := length_lt_emitItems false xs rest
    rw [Json.emitItems, List.length_append]
    omega

theorem length_lt_emitEntries (first : Bool) :
    ∀ (xs : List (String × Json)) (rest : List Char),
      rest.length < (Json.emitEntries first xs rest).length
  | [], rest => Nat.lt_succ_self rest.length
  | (k, x) :: xs, rest => by
    have hitem := length_lt_emit x (Json.emitEntries false xs rest)
    have hitems := length_lt_emitEntries false xs rest
    rw [Json.emitEntries, List.length_append, List.length_cons]
    omega

end

mutual

/-- The text of a value is read to its end, with fuel for each of its characters. -/
theorem value?_emit : ∀ (j : Json) (fuel : Nat) (rest : List Char), Ends rest →
    (j.emit rest).length ≤ fuel + rest.length →
      ∃ tree, value? fuel (j.emit rest) = some (tree, rest) ∧ tree.Writes j
  -- Induction on the value, along the recursion of the printer. Each call of the reader costs one
  -- unit of fuel and takes at least one character, so that the fuel lasts as long as the text.
  | j, 0, rest, _, hfuel => by
    have hlength := length_lt_emit j rest
    omega
  | .null, fuel + 1, rest, _, _ => ⟨.null, rfl, fun _ => rfl⟩
  | .bool true, fuel + 1, rest, _, _ => ⟨.bool true, rfl, fun _ => rfl⟩
  | .bool false, fuel + 1, rest, _, _ => ⟨.bool false, rfl, fun _ => rfl⟩
  | .number n, fuel + 1, rest, hrest, _ => by
    obtain ⟨literal, hread, hliteral⟩ := number?_toChars n hrest
    obtain ⟨c, cs, hchars, hc⟩ := startsNumber_toChars n
    refine ⟨.number literal, ?_, fun room => ?_⟩
    · rw [hchars, List.cons_append] at hread
      rw [Json.emit, hchars, List.cons_append, value?_number hc, hread]
      rfl
    · rw [toJson?, hliteral]
      rfl
  | .string s, fuel + 1, rest, _, _ => by
    refine ⟨.string (s.toList.map StringPiece.ofChar), ?_, fun room => ?_⟩
    · rw [Json.emit, Json.quote, List.cons_append, List.append_assoc, value?_string]
      show ((stringBody? (s.toList.flatMap Json.escapeChar ++ '"' :: rest)).map _) = _
      rw [stringBody?_quoted]
      rfl
    · rw [toJson?, string?_ofChar]
      rfl
  | .array [], fuel + 1, rest, _, _ => ⟨.array [], rfl, writesItems_nil.array⟩
  | .array (x :: xs), fuel + 1, rest, _, hfuel => by
    rw [Json.emit, List.length_cons] at hfuel
    obtain ⟨trees, hread, htrees⟩ := items?_emit x xs fuel rest (by omega)
    obtain ⟨c, cs, hemit, hblank, hc⟩ := emit_starts x (Json.emitItems false xs rest)
    refine ⟨.array trees, ?_, htrees.array⟩
    rw [emitItems_first, hemit] at hread
    rw [Json.emit, emitItems_first, hemit, value?_items hblank hc, hread]
    rfl
  | .object [], fuel + 1, rest, _, _ => ⟨.object [], rfl, writesEntries_nil.object⟩
  | .object ((k, x) :: xs), fuel + 1, rest, _, hfuel => by
    rw [Json.emit, List.length_cons] at hfuel
    obtain ⟨trees, hread, htrees⟩ := entries?_emit k x xs fuel rest (by omega)
    refine ⟨.object trees, ?_, htrees.object⟩
    rw [emitEntries_first, Json.quote, List.cons_append] at hread
    rw [Json.emit, emitEntries_first, Json.quote, List.cons_append,
      value?_entries rfl (by decide), hread]
    rfl

/-- The items of an array are read up to its closing bracket. -/
theorem items?_emit : ∀ (x : Json) (xs : List Json) (fuel : Nat) (rest : List Char),
    (Json.emitItems true (x :: xs) rest).length ≤ fuel + rest.length →
      ∃ trees, items? fuel (Json.emitItems true (x :: xs) rest) = some (trees, rest) ∧
        WritesItems trees (x :: xs)
  | x, xs, 0, rest, hfuel => by
    have hlength := length_lt_emitItems true (x :: xs) rest
    omega
  | x, [], fuel + 1, rest, hfuel => by
    rw [emitItems_first, Json.emitItems] at hfuel ⊢
    obtain ⟨tree, hread, htree⟩ := value?_emit x fuel (']' :: rest) (ends_cons (by decide) rest)
      (by rw [List.length_cons]; omega)
    exact ⟨[tree], items?_last hread, WritesItems.cons htree writesItems_nil⟩
  | x, y :: ys, fuel + 1, rest, hfuel => by
    rw [emitItems_first, emitItems_next] at hfuel ⊢
    -- The first item and the comma take at least two characters.
    have hitem := length_lt_emit x (',' :: Json.emitItems true (y :: ys) rest)
    have hitems := length_lt_emitItems true (y :: ys) rest
    rw [List.length_cons] at hitem
    obtain ⟨tree, hread, htree⟩ := value?_emit x fuel (',' :: Json.emitItems true (y :: ys) rest)
      (ends_cons (by decide) _) (by rw [List.length_cons]; omega)
    obtain ⟨trees, hmore, htrees⟩ := items?_emit y ys fuel rest (by omega)
    refine ⟨tree :: trees, ?_, WritesItems.cons htree htrees⟩
    rw [items?_more hread, hmore]
    rfl

/-- The entries of an object are read up to its closing brace. -/
theorem entries?_emit : ∀ (k : String) (x : Json) (xs : List (String × Json)) (fuel : Nat)
    (rest : List Char), (Json.emitEntries true ((k, x) :: xs) rest).length ≤ fuel + rest.length →
      ∃ trees, entries? fuel (Json.emitEntries true ((k, x) :: xs) rest) = some (trees, rest) ∧
        WritesEntries trees ((k, x) :: xs)
  | k, x, xs, 0, rest, hfuel => by
    have hlength := length_lt_emitEntries true ((k, x) :: xs) rest
    omega
  | k, x, [], fuel + 1, rest, hfuel => by
    rw [emitEntries_first, Json.emitEntries] at hfuel ⊢
    rw [List.length_append, List.length_cons] at hfuel
    obtain ⟨tree, hread, htree⟩ := value?_emit x fuel ('\x7d' :: rest)
      (ends_cons (by decide) rest) (by rw [List.length_cons]; omega)
    exact ⟨_, entries?_last k hread, WritesEntries.cons k htree writesEntries_nil⟩
  | k, x, (l, y) :: ys, fuel + 1, rest, hfuel => by
    rw [emitEntries_first, emitEntries_next] at hfuel ⊢
    rw [List.length_append, List.length_cons] at hfuel
    have hitem := length_lt_emit x (',' :: Json.emitEntries true ((l, y) :: ys) rest)
    have hitems := length_lt_emitEntries true ((l, y) :: ys) rest
    rw [List.length_cons] at hitem
    obtain ⟨tree, hread, htree⟩ := value?_emit x fuel
      (',' :: Json.emitEntries true ((l, y) :: ys) rest) (ends_cons (by decide) _)
      (by rw [List.length_cons]; omega)
    obtain ⟨trees, hmore, htrees⟩ := entries?_emit l y ys fuel rest (by omega)
    refine ⟨_, ?_, WritesEntries.cons k htree htrees⟩
    rw [entries?_more k hread, hmore]
    rfl

end

/-- The compact text of a value writes a tree that is read as the value is read again. -/
theorem ofString?_render (j : Json) : ∃ tree, ofString? j.render = some tree ∧ tree.Writes j := by
  obtain ⟨tree, hread, htree⟩ := value?_emit j (2 * (j.emit []).length + 2) [] ends_nil (by omega)
  refine ⟨tree, ?_, htree⟩
  rw [ofString?, Json.render, String.toList_ofList, ofChars?, hread]
  rfl

end Written

/-! ## Values and documents -/

namespace Json

/-- The compact text of a value is read as that value, up to its doubles, unless it nests too
deep. -/
theorem ofString?_render (j : Json) :
    ofString? j.render = if j.depth ≤ depthLimit then some j.reread else none := by
  obtain ⟨tree, hread, htree⟩ := Written.ofString?_render j
  rw [ofString?, hread, Option.bind_some]
  exact htree depthLimit

/-- An entry behind all others is put at the end. -/
theorem insertEntry_last {k : String} (x : Json) :
    ∀ {xs : List (String × Json)}, (∀ e ∈ xs, keyBefore e.1 k = true) →
      insertEntry k x xs = xs ++ [(k, x)]
  | [], _ => rfl
  | (l, y) :: rest, h => by
    have hl : keyBefore l k = true := h (l, y) List.mem_cons_self
    have hne : k ≠ l := by
      rintro rfl
      rw [keyBefore, decide_eq_true_eq] at hl
      exact String.lt_irrefl k hl
    have hnot : keyBefore k l = false := by
      rw [keyBefore, decide_eq_true_eq] at hl
      rw [keyBefore, decide_eq_false_iff_not]
      exact fun hkl => String.lt_irrefl k (String.lt_trans hkl hl)
    rw [insertEntry, if_neg hne, if_neg (by rw [hnot]; exact Bool.false_ne_true),
      insertEntry_last x fun e he => h e (List.mem_cons_of_mem _ he)]
    rfl

mutual

/-- A canonical value is its own canonical form. -/
theorem canonical_eq : ∀ {j : Json}, isCanonical j = true → canonical j = j
  | .null, _ | .bool _, _ | .number _, _ | .string _, _ => rfl
  | .array xs, h => by
    rw [canonical, canonicalItems_eq h]
  | .object xs, h => by
    rw [canonical, canonicalEntries_eq h (fun _ he => absurd he List.not_mem_nil),
      List.nil_append]

theorem canonicalItems_eq : ∀ {xs : List Json}, allCanonical xs = true → canonicalItems xs = xs
  | [], _ => rfl
  | x :: xs, h => by
    rw [allCanonical, Bool.and_eq_true] at h
    rw [canonicalItems, canonical_eq h.1, canonicalItems_eq h.2]

/-- Sorted entries are put one after the other behind entries with smaller keys. -/
theorem canonicalEntries_eq : ∀ {xs sorted : List (String × Json)} {previous : Option String},
    sortedAfter previous xs = true →
      (∀ e ∈ sorted, ∃ p, previous = some p ∧ (e.1 = p ∨ keyBefore e.1 p = true)) →
        canonicalEntries xs sorted = sorted ++ xs
  | [], sorted, _, _, _ => (List.append_nil sorted).symm
  | (k, x) :: xs, sorted, previous, h, hsorted => by
    simp only [sortedAfter, Bool.and_eq_true] at h
    obtain ⟨⟨hk, hx⟩, hxs⟩ := h
    -- The entries up to now have smaller keys, so that the next one goes behind them.
    have hbefore : ∀ e ∈ sorted, keyBefore e.1 k = true := by
      intro e he
      obtain ⟨p, rfl, rfl | hp⟩ := hsorted e he
      · exact hk
      · exact keyBefore_trans hp hk
    have hnext : ∀ e ∈ sorted ++ [(k, x)],
        ∃ p, some k = some p ∧ (e.1 = p ∨ keyBefore e.1 p = true) := by
      intro e he
      refine ⟨k, rfl, ?_⟩
      rcases List.mem_append.mp he with he | he
      · exact Or.inr (hbefore e he)
      · exact Or.inl (congrArg Prod.fst (List.mem_singleton.mp he))
    rw [canonicalEntries, canonical_eq hx, insertEntry_last x hbefore,
      canonicalEntries_eq hxs hnext, List.append_assoc]
    rfl

end

end Json

namespace Document

/-- The content of a document makes that document. -/
theorem ofJson_json (d : Document) : ofJson d.json = d := by
  obtain ⟨j, h⟩ := d
  show (⟨j.canonical, _⟩ : Document) = ⟨j, h⟩
  simp only [Json.canonical_eq h]

/-- The text of a document is read as that document, up to its doubles, unless it nests too
deep. -/
theorem ofString?_render (d : Document) :
    ofString? d.json.render = if d.json.depth ≤ Json.depthLimit then some d.reread else none := by
  rw [ofString?, Json.ofString?_render]
  by_cases hdepth : d.json.depth ≤ Json.depthLimit
  · rw [if_pos hdepth, if_pos hdepth, Option.map_some, ofJson_reread, ofJson_json]
  · rw [if_neg hdepth, if_neg hdepth]
    rfl

end Document

end TagGraph
