import Mathlib.Data.List.Induction
import TagGraph.NodeId
import TagGraph.Proofs.Text.Blank

/-!
# Identifiers as texts

An identifier is written by its digits in either case, alone or hyphenated, and the hyphenated ones
also in braces or behind the name space (`NodeId.SpelledBy`). These are exactly the texts that are
read as the identifier (`ofChars?_eq_some_iff`), and none of them has white space.
-/

namespace TagGraph.NodeId

/-! ## Hexadecimal digits -/

theorem lt_of_hexValue? {c : Char} {v : Nat} (h : hexValue? c = some v) :
    c.toNat < 128 ∧ v < 16 := by
  unfold hexValue? at h
  split at h
  · next hc =>
    have hlast : c.toNat ≤ 57 := hc.2
    obtain rfl := Option.some.inj h
    show c.toNat < 128 ∧ c.toNat - 48 < 16
    omega
  · split at h
    · next hc =>
      have hlast : c.toNat ≤ 102 := hc.2
      obtain rfl := Option.some.inj h
      show c.toNat < 128 ∧ c.toNat - 97 + 10 < 16
      omega
    · split at h
      · next hc =>
        have hlast : c.toNat ≤ 70 := hc.2
        obtain rfl := Option.some.inj h
        show c.toNat < 128 ∧ c.toNat - 65 + 10 < 16
        omega
      · cases h

/-- Only capital letters of ASCII change in lower case. -/
theorem lt_of_toLower_eq_hexDigit {c : Char} {v : Nat} (hv : v < 16)
    (h : c.toLower = hexDigit v) : c.toNat < 128 := by
  have hdigits : ∀ v : Fin 16, (hexDigit v).toNat < 128 := by decide
  unfold Char.toLower at h
  split at h
  · next hc =>
    have hlast : c.toNat ≤ 90 := hc.2
    omega
  · exact h ▸ hdigits ⟨v, hv⟩

/-- The value of a character is that of the digit that it is in lower case. -/
theorem hexValue?_eq_some_iff {c : Char} {v : Nat} :
    hexValue? c = some v ↔ v < 16 ∧ c.toLower = hexDigit v := by
  have hascii : ∀ (n : Fin 128) (v : Fin 16),
      hexValue? (Char.ofNat n) = some v.val ↔ (Char.ofNat n).toLower = hexDigit v := by
    decide +kernel
  have hsmall : c.toNat < 128 → v < 16 → (hexValue? c = some v ↔ c.toLower = hexDigit v) := by
    intro hc hv
    have hchar := hascii ⟨c.toNat, hc⟩ ⟨v, hv⟩
    rwa [Char.ofNat_toNat] at hchar
  constructor
  · intro h
    obtain ⟨hc, hv⟩ := lt_of_hexValue? h
    exact ⟨hv, (hsmall hc hv).mp h⟩
  · intro ⟨hv, h⟩
    exact (hsmall (lt_of_toLower_eq_hexDigit hv h) hv).mpr h

/-- A number is written with as many digits as asked for. -/
theorem length_hexDigits (width : Nat) : ∀ n, (hexDigits width n).length = width := by
  induction width with
  | zero => exact fun _ => rfl
  | succ width ih =>
    intro n
    rw [hexDigits, List.length_append, ih]
    rfl

/-- Every digit stands for a value below sixteen. -/
theorem exists_of_mem_hexDigits {c : Char} (width : Nat) :
    ∀ n, c ∈ hexDigits width n → ∃ m, m < 16 ∧ c = hexDigit m := by
  induction width with
  | zero => exact fun n h => nomatch h
  | succ width ih =>
    intro n h
    rw [hexDigits] at h
    rcases List.mem_append.mp h with h | h
    · exact ih _ h
    · exact ⟨n % 16, Nat.mod_lt _ (by decide), List.mem_singleton.mp h⟩

/-- Digits are written in small letters. -/
theorem map_toLower_hexDigits (width n : Nat) :
    (hexDigits width n).map Char.toLower = hexDigits width n := by
  have hall : ∀ m : Fin 16, (hexDigit m).toLower = hexDigit m := by decide
  refine (List.map_congr_left fun c hc => ?_).trans (List.map_id _)
  obtain ⟨m, hm, rfl⟩ := exists_of_mem_hexDigits width n hc
  exact hall ⟨m, hm⟩

/-- Digits are read from the front, with what has been read as the start of the rest. -/
theorem hexNumber?_append (cs ds : List Char) : ∀ acc,
    hexNumber? acc (cs ++ ds) = (hexNumber? acc cs).bind fun n => hexNumber? n ds := by
  induction cs with
  | nil => exact fun _ => rfl
  | cons c cs ih =>
    intro acc
    rw [List.cons_append, hexNumber?, hexNumber?]
    cases hexValue? c with
    | none => rfl
    | some v => exact ih _

/-- Characters write a number if in lower case they are its digits. The induction is on the last
digit, which is the one that the digits of a number end with. -/
theorem hexNumber?_eq_some_iff {cs : List Char} : ∀ {n : Nat},
    hexNumber? 0 cs = some n ↔
      cs.map Char.toLower = hexDigits cs.length n ∧ n < 16 ^ cs.length := by
  induction cs using List.reverseRecOn with
  | nil =>
    intro n
    simp [hexNumber?, hexDigits, eq_comm]
  | append_singleton cs c ih =>
    intro n
    have hlast : (∃ m, hexNumber? 0 cs = some m ∧ ∃ v, hexValue? c = some v ∧ 16 * m + v = n) ↔
        hexNumber? 0 cs = some (n / 16) ∧ hexValue? c = some (n % 16) := by
      constructor
      · rintro ⟨m, hm, v, hv, rfl⟩
        have hlt := (lt_of_hexValue? hv).2
        rw [show (16 * m + v) / 16 = m by omega, show (16 * m + v) % 16 = v by omega]
        exact ⟨hm, hv⟩
      · rintro ⟨hm, hv⟩
        exact ⟨_, hm, _, hv, Nat.div_add_mod n 16⟩
    rw [hexNumber?_append]
    simp only [Option.bind_eq_some_iff, hexNumber?, Option.some.injEq]
    rw [hlast, ih, hexValue?_eq_some_iff, List.map_append, List.length_append, List.map_singleton,
      List.length_singleton, hexDigits, List.append_singleton_inj, Nat.pow_succ,
      ← Nat.div_lt_iff_lt_mul (by decide)]
    constructor
    · rintro ⟨⟨hcs, hn⟩, -, hc⟩
      exact ⟨⟨hcs, hc⟩, hn⟩
    · rintro ⟨⟨hcs, hc⟩, hn⟩
      exact ⟨⟨hcs, hn⟩, Nat.mod_lt _ (by decide), hc⟩

/-- The characters are the digits of the identifier, in either case. -/
def IsDigits (id : NodeId) (digits : List Char) : Prop :=
  digits.map Char.toLower = hexDigits 32 id.number

/-- The written digits of an identifier are digits of it. -/
theorem isDigits_hexDigits (id : NodeId) : id.IsDigits (hexDigits 32 id.number) :=
  map_toLower_hexDigits 32 id.number

theorem IsDigits.length {id : NodeId} {digits : List Char} (h : id.IsDigits digits) :
    digits.length = 32 := by
  rw [← List.length_map Char.toLower, h, length_hexDigits]

/-- Thirty-two digits are read as the identifier that they are the digits of. -/
theorem ofDigits?_eq_some_iff {id : NodeId} {digits : List Char} :
    ofDigits? digits = some id ↔ id.IsDigits digits := by
  constructor
  · intro h
    unfold ofDigits? at h
    split at h
    · next hlength =>
      obtain ⟨n, hn, hid⟩ := Option.bind_eq_some_iff.mp h
      split at hid
      · obtain rfl := Option.some.inj hid
        rw [hexNumber?_eq_some_iff, hlength] at hn
        exact hn.1
      · cases hid
    · cases h
  · intro h
    have hnumber : hexNumber? 0 digits = some id.number := by
      rw [hexNumber?_eq_some_iff, h.length]
      exact ⟨h, id.number_lt⟩
    rw [ofDigits?, if_pos h.length, hnumber, Option.bind_some, dif_pos id.number_lt]

/-! ## Written forms -/

theorem length_hyphenate {digits : List Char} (h : digits.length = 32) :
    (hyphenate digits).length = 36 := by
  simp [hyphenate, h]

/-- Hyphens are taken out again where they have been put in. -/
theorem ofHyphenated?_hyphenate {digits : List Char} (h : digits.length = 32) :
    ofHyphenated? (hyphenate digits) = ofDigits? digits := by
  have hdigits : (hyphenate digits).take 8 ++ ((hyphenate digits).drop 9).take 4 ++
      ((hyphenate digits).drop 14).take 4 ++ ((hyphenate digits).drop 19).take 4 ++
      (hyphenate digits).drop 24 = digits := by
    have hgroup : ∀ place, (digits.drop place).take 4 ++ digits.drop (place + 4) =
        digits.drop place := by
      intro place
      rw [← List.drop_drop, List.take_append_drop]
    have hgroups : digits.take 8 ++ ((digits.drop 8).take 4 ++ ((digits.drop 12).take 4 ++
        ((digits.drop 16).take 4 ++ digits.drop 20))) = digits := by
      rw [hgroup 16, hgroup 12, hgroup 8, List.take_append_drop]
    simpa [hyphenate, List.take_append, List.drop_append, List.drop_take, h] using hgroups
  rw [ofHyphenated?]
  simp only [hdigits]
  rw [if_pos ⟨length_hyphenate h, trivial⟩]

/-- With hyphens, digits are read if the hyphens stand in their four places. -/
theorem ofHyphenated?_eq_some_iff {id : NodeId} {cs : List Char} :
    ofHyphenated? cs = some id ↔ ∃ digits, id.IsDigits digits ∧ cs = hyphenate digits := by
  constructor
  · intro h
    rw [ofHyphenated?] at h
    split at h
    · next hform => exact ⟨_, ofDigits?_eq_some_iff.mp h, hform.2.symm⟩
    · cases h
  · rintro ⟨digits, hdigits, rfl⟩
    rw [ofHyphenated?_hyphenate hdigits.length, ofDigits?_eq_some_iff]
    exact hdigits

/-- Braces are taken off if there is one at each end. -/
theorem unbraced?_eq_some_iff {cs inner : List Char} :
    unbraced? cs = some inner ↔ cs = '\x7b' :: (inner ++ ['\x7d']) := by
  constructor
  · intro h
    unfold unbraced? at h
    split at h
    · next rest =>
      split at h
      · next hlast =>
        obtain ⟨front, rfl⟩ := List.getLast?_eq_some_iff.mp hlast
        rw [List.dropLast_concat] at h
        rw [Option.some.inj h]
      · cases h
    · cases h
  · rintro rfl
    rw [unbraced?, List.getLast?_concat, if_pos rfl, List.dropLast_concat]

/-- The prefix `urn:uuid:` is taken off in letters of either case. -/
theorem afterUrn?_eq_some_iff {cs rest : List Char} :
    afterUrn? cs = some rest ↔
      ∃ lead, lead.map Char.toLower = "urn:uuid:".toList ∧ cs = lead ++ rest := by
  constructor
  · intro h
    unfold afterUrn? at h
    split at h
    · next hurn =>
      obtain rfl := Option.some.inj h
      exact ⟨cs.take 9, hurn, (List.take_append_drop 9 cs).symm⟩
    · cases h
  · rintro ⟨lead, hurn, rfl⟩
    have hlength : lead.length = 9 := by
      rw [← List.length_map Char.toLower, hurn]
      rfl
    rw [afterUrn?, List.take_left' hlength, List.drop_left' hlength, if_pos hurn]

/-- A text writes the identifier: its digits in either case, alone or with hyphens, and with hyphens
also in braces or behind the name space. -/
inductive SpelledBy (id : NodeId) : List Char → Prop where
  | simple {digits : List Char} (h : id.IsDigits digits) : id.SpelledBy digits
  | hyphenated {digits : List Char} (h : id.IsDigits digits) : id.SpelledBy (hyphenate digits)
  | braced {digits : List Char} (h : id.IsDigits digits) :
    id.SpelledBy ('\x7b' :: (hyphenate digits ++ ['\x7d']))
  | urn {lead digits : List Char} (hurn : lead.map Char.toLower = "urn:uuid:".toList)
    (h : id.IsDigits digits) : id.SpelledBy (lead ++ hyphenate digits)

/-- Digits begin neither with a brace nor as the name space does. -/
theorem IsDigits.exists_cons {id : NodeId} {digits : List Char} (h : id.IsDigits digits) :
    ∃ c cs, digits = c :: cs ∧ c ≠ '\x7b' ∧ c.toLower ≠ 'u' := by
  cases digits with
  | nil => cases h.length
  | cons c cs =>
    have hall : ∀ m : Fin 16, hexDigit m ≠ '\x7b' ∧ hexDigit m ≠ 'u' := by decide
    have hmem : c.toLower ∈ hexDigits 32 id.number := h ▸ List.mem_cons_self
    obtain ⟨m, hm, heq⟩ := exists_of_mem_hexDigits 32 _ hmem
    refine ⟨c, cs, rfl, ?_, heq ▸ (hall ⟨m, hm⟩).2⟩
    rintro rfl
    exact (hall ⟨m, hm⟩).1 heq.symm

theorem unbraced?_hyphenate {id : NodeId} {digits : List Char} (h : id.IsDigits digits) :
    unbraced? (hyphenate digits) = none := by
  obtain ⟨c, cs, rfl, hbrace, -⟩ := h.exists_cons
  rw [Option.eq_none_iff_forall_ne_some]
  intro inner hinner
  exact hbrace (List.cons.inj (unbraced?_eq_some_iff.mp hinner)).1

theorem afterUrn?_hyphenate {id : NodeId} {digits : List Char} (h : id.IsDigits digits) :
    afterUrn? (hyphenate digits) = none := by
  obtain ⟨c, cs, rfl, -, hurn⟩ := h.exists_cons
  rw [afterUrn?, if_neg]
  intro heq
  exact hurn (List.cons.inj heq).1

theorem ofDigits?_of_length {cs : List Char} (h : cs.length ≠ 32) : ofDigits? cs = none :=
  if_neg h

/-- The texts that are read as an identifier are those that write it. -/
theorem ofChars?_eq_some_iff {id : NodeId} {cs : List Char} :
    ofChars? cs = some id ↔ id.SpelledBy cs := by
  constructor
  · intro h
    unfold ofChars? at h
    split at h
    · next found hdigits =>
      obtain rfl := Option.some.inj h
      exact .simple (ofDigits?_eq_some_iff.mp hdigits)
    · next inner _ hbraces =>
      obtain ⟨digits, hdigits, rfl⟩ := ofHyphenated?_eq_some_iff.mp h
      obtain rfl := unbraced?_eq_some_iff.mp hbraces
      exact .braced hdigits
    · next rest _ _ hurn =>
      obtain ⟨digits, hdigits, rfl⟩ := ofHyphenated?_eq_some_iff.mp h
      obtain ⟨lead, hlead, rfl⟩ := afterUrn?_eq_some_iff.mp hurn
      exact .urn hlead hdigits
    · obtain ⟨digits, hdigits, rfl⟩ := ofHyphenated?_eq_some_iff.mp h
      exact .hyphenated hdigits
  · intro h
    -- The forms are tried one after the other: each is apart from those before it by its length or
    -- by its first character.
    cases h with
    | simple h => rw [ofChars?, ofDigits?_eq_some_iff.mpr h]
    | @hyphenated digits h =>
      have hlength := length_hyphenate h.length
      rw [ofChars?, ofDigits?_of_length (by omega), unbraced?_hyphenate h, afterUrn?_hyphenate h]
      exact ofHyphenated?_eq_some_iff.mpr ⟨digits, h, rfl⟩
    | @braced digits h =>
      have hlength := length_hyphenate h.length
      rw [ofChars?, ofDigits?_of_length (by simp [hlength]), unbraced?_eq_some_iff.mpr rfl]
      exact ofHyphenated?_eq_some_iff.mpr ⟨digits, h, rfl⟩
    | @urn lead digits hurn h =>
      have hlength := length_hyphenate h.length
      have hbraces : unbraced? (lead ++ hyphenate digits) = none := by
        rw [Option.eq_none_iff_forall_ne_some]
        intro inner hinner
        cases lead with
        | nil => cases hurn
        | cons c lead =>
          obtain rfl := (List.cons.inj (unbraced?_eq_some_iff.mp hinner)).1
          exact absurd (List.cons.inj hurn).1 (by decide)
      rw [ofChars?, ofDigits?_of_length (by simp [hlength]), hbraces,
        afterUrn?_eq_some_iff.mpr ⟨lead, hurn, rfl⟩]
      exact ofHyphenated?_eq_some_iff.mpr ⟨digits, h, rfl⟩

/-- An identifier is read from its written form. -/
theorem ofString?_toString (id : NodeId) : ofString? id.toString = some id := by
  rw [ofString?, NodeId.toString, String.toList_ofList, toChars, ofChars?_eq_some_iff]
  exact .hyphenated id.isDigits_hexDigits

/-! ## Without white space -/

/-- Hyphens are all that is put between the digits. -/
theorem mem_hyphenate {digits : List Char} {c : Char} (h : c ∈ hyphenate digits) :
    c ∈ digits ∨ c = '-' := by
  simp only [hyphenate, List.mem_append, List.mem_cons, or_assoc] at h
  rcases h with h | rfl | h | rfl | h | rfl | h | rfl | h
  all_goals first
    | exact Or.inr rfl
    | exact Or.inl (List.mem_of_mem_take h)
    | exact Or.inl (List.mem_of_mem_drop (List.mem_of_mem_take h))
    | exact Or.inl (List.mem_of_mem_drop h)

theorem IsDigits.isBlank_eq_false {id : NodeId} {digits : List Char} (h : id.IsDigits digits)
    {c : Char} (hc : c ∈ digits) : Text.isBlank c = false := by
  have hall : ∀ m : Fin 16, Text.isBlank (hexDigit m) = false := by decide
  have hmem : c.toLower ∈ hexDigits 32 id.number := h ▸ List.mem_map_of_mem hc
  obtain ⟨m, hm, heq⟩ := exists_of_mem_hexDigits 32 _ hmem
  rw [← Text.isBlank_toLower, heq]
  exact hall ⟨m, hm⟩

theorem IsDigits.isBlank_hyphenate {id : NodeId} {digits : List Char} (h : id.IsDigits digits)
    {c : Char} (hc : c ∈ hyphenate digits) : Text.isBlank c = false := by
  rcases mem_hyphenate hc with hc | rfl
  · exact h.isBlank_eq_false hc
  · rfl

/-- No written form of an identifier has white space. -/
theorem SpelledBy.isBlank_eq_false {id : NodeId} {cs : List Char} (h : id.SpelledBy cs) {c : Char}
    (hc : c ∈ cs) : Text.isBlank c = false := by
  cases h with
  | simple h => exact h.isBlank_eq_false hc
  | hyphenated h => exact h.isBlank_hyphenate hc
  | braced h =>
    rw [List.mem_cons, List.mem_append, List.mem_singleton] at hc
    rcases hc with rfl | hc | rfl
    · rfl
    · exact h.isBlank_hyphenate hc
    · rfl
  | urn hurn h =>
    rcases List.mem_append.mp hc with hc | hc
    · have hall : ∀ d ∈ "urn:uuid:".toList, Text.isBlank d = false := by
        simp [Text.isBlank]
      rw [← Text.isBlank_toLower]
      exact hall _ (hurn ▸ List.mem_map_of_mem hc)
    · exact h.isBlank_hyphenate hc

/-- No text that is read as an identifier has white space in it. -/
theorem isBlank_eq_false_of_ofString? {s : String} {id : NodeId} (h : ofString? s = some id)
    {c : Char} (hc : c ∈ s.toList) : Text.isBlank c = false :=
  (ofChars?_eq_some_iff.mp h).isBlank_eq_false hc

/-- An identifier in any of its written forms is read as it stands. -/
theorem trim_of_ofString? {s : String} {id : NodeId} (h : ofString? s = some id) :
    Text.trim s = s :=
  Text.trim_eq_self fun _ => isBlank_eq_false_of_ofString? h

theorem isBlankText_of_ofString? {s : String} {id : NodeId} (h : ofString? s = some id) :
    Text.isBlankText s = false := by
  have hsome : s.toList ≠ [] := by
    intro hnil
    rw [ofString?, hnil] at h
    cases h
  obtain ⟨c, hc⟩ := List.exists_mem_of_ne_nil _ hsome
  rw [Text.isBlankText, List.all_eq_false]
  exact ⟨c, hc, by rw [isBlank_eq_false_of_ofString? h hc]; exact Bool.false_ne_true⟩

/-- The written form of an identifier is not blank. -/
theorem isBlankText_toString (id : NodeId) : Text.isBlankText id.toString = false :=
  isBlankText_of_ofString? (ofString?_toString id)

end TagGraph.NodeId
