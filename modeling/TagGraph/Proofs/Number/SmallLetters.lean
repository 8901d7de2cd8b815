import Mathlib.Data.List.TakeWhile
import TagGraph.Proofs.Text.Blank
import TagGraph.Proofs.Text.LowerCase
import TagGraph.Query.Comparison

/-!
# Numbers in small letters

The only letter in a written number marks its exponent, and may be a capital one. A text that writes
a number writes the same number in small letters (`Number.ofText?_lower`), so that texts which differ
in case alone write one number.
-/

namespace TagGraph

namespace Decimal

/-- The small letter of a mark of exponents. -/
def smallMark (c : Char) : Char :=
  if c = 'E' then 'e' else c

/-- Only the mark itself becomes another character. -/
theorem smallMark_eq_iff {c d : Char} (hd : d ≠ 'e') (hD : d ≠ 'E') : smallMark c = d ↔ c = d := by
  unfold smallMark
  by_cases hc : c = 'E'
  · rw [if_pos hc, hc]
    exact iff_of_false (Ne.symm hd) (Ne.symm hD)
  · rw [if_neg hc]

/-- A digit is no mark of an exponent, and stays what it is. -/
theorem isDigit_smallMark (c : Char) : isDigit (smallMark c) = isDigit c := by
  unfold smallMark
  by_cases hc : c = 'E'
  · rw [if_pos hc, hc]
    decide
  · rw [if_neg hc]

theorem smallMark_of_isDigit {c : Char} (h : isDigit c = true) : smallMark c = c := by
  apply if_neg
  rintro rfl
  exact absurd h (by decide)

/-! ## Reading in small letters -/

/-- The digits behind a point, if there is one, and what follows. -/
def spanFraction : List Char → List Char × List Char
  | '.' :: cs => spanDigits cs
  | cs => ([], cs)

/-- A number is read part by part. -/
theorem ofChars?_eq (cs : List Char) : ofChars? cs =
    let sign := spanSign cs
    let whole := spanDigits sign.2
    let fraction := spanFraction whole.2
    if whole.1.isEmpty && fraction.1.isEmpty then none
    else
      match spanExponent? fraction.2 with
      | some (exponent, []) =>
        some ⟨sign.1, digitsValue (whole.1 ++ fraction.1), exponent - fraction.1.length⟩
      | _ => none := rfl

/-- Digits are taken off the front whatever the letters behind them. -/
theorem spanDigits_map (cs : List Char) :
    spanDigits (cs.map smallMark) = ((spanDigits cs).1, (spanDigits cs).2.map smallMark) := by
  have hdigit : isDigit ∘ smallMark = isDigit := funext isDigit_smallMark
  have hdigits : (cs.takeWhile isDigit).map smallMark = cs.takeWhile isDigit := by
    rw [List.map_congr_left fun c hc => smallMark_of_isDigit (List.mem_takeWhile_imp hc),
      List.map_id']
  unfold spanDigits
  rw [List.takeWhile_map, List.dropWhile_map, hdigit, hdigits]

theorem spanSign_map (cs : List Char) :
    spanSign (cs.map smallMark) = ((spanSign cs).1, (spanSign cs).2.map smallMark) := by
  cases cs with
  | nil => rfl
  | cons c cs =>
    by_cases hminus : c = '-'
    · rw [hminus]
      rfl
    by_cases hplus : c = '+'
    · rw [hplus]
      rfl
    have hminus' : smallMark c ≠ '-' := by rwa [Ne, smallMark_eq_iff (by decide) (by decide)]
    have hplus' : smallMark c ≠ '+' := by rwa [Ne, smallMark_eq_iff (by decide) (by decide)]
    simp [spanSign, hminus, hplus, hminus', hplus']

/-- So is a fraction. -/
theorem spanFraction_map (cs : List Char) :
    spanFraction (cs.map smallMark) =
      ((spanFraction cs).1, (spanFraction cs).2.map smallMark) := by
  cases cs with
  | nil => rfl
  | cons c cs =>
    by_cases hpoint : c = '.'
    · rw [hpoint]
      exact spanDigits_map cs
    have hpoint' : smallMark c ≠ '.' := by rwa [Ne, smallMark_eq_iff (by decide) (by decide)]
    simp [spanFraction, hpoint, hpoint']

/-- An exponent is read alike with a small mark and with a capital one. -/
theorem spanExponent?_map (cs : List Char) :
    spanExponent? (cs.map smallMark) =
      (spanExponent? cs).map fun found => (found.1, found.2.map smallMark) := by
  cases cs with
  | nil => rfl
  | cons c cs =>
    have hmark : (smallMark c = 'e' ∨ smallMark c = 'E') ↔ (c = 'e' ∨ c = 'E') := by
      unfold smallMark
      by_cases hc : c = 'E' <;> simp [hc]
    rw [List.map_cons, spanExponent?, spanExponent?, spanSign_map]
    simp only [hmark, spanDigits_map]
    by_cases hc : c = 'e' ∨ c = 'E'
    · rw [if_pos hc, if_pos hc]
      cases (spanDigits (spanSign cs).2).1.isEmpty <;> rfl
    · rw [if_neg hc, if_neg hc]
      rfl

/-- A numeral is read alike with small marks and with capital ones. -/
theorem ofChars?_map (cs : List Char) : ofChars? (cs.map smallMark) = ofChars? cs := by
  rw [ofChars?_eq, ofChars?_eq, spanSign_map]
  simp only [spanDigits_map, spanFraction_map, spanExponent?_map]
  -- What follows the exponent is empty before and after, or neither time.
  cases spanExponent? (spanFraction (spanDigits (spanSign cs).2).2).2 with
  | none => rfl
  | some found =>
    obtain ⟨exponent, rest⟩ := found
    cases rest <;> rfl

/-! ## The characters of a number -/

/-- A character that stands in written numbers. -/
def IsNumeral (c : Char) : Prop :=
  isDigit c = true ∨ c ∈ ['+', '-', '.', 'e', 'E']

/-- Digits are characters of numerals, so a text is one of these if the rest behind them is. -/
theorem numerals_of_spanDigits {cs : List Char} (h : ∀ c ∈ (spanDigits cs).2, IsNumeral c) :
    ∀ c ∈ cs, IsNumeral c := by
  intro c hc
  rw [← List.takeWhile_append_dropWhile (p := isDigit) (l := cs), List.mem_append] at hc
  rcases hc with hc | hc
  · exact Or.inl (List.mem_takeWhile_imp hc)
  · exact h c hc

theorem numerals_of_spanSign {cs : List Char} (h : ∀ c ∈ (spanSign cs).2, IsNumeral c) :
    ∀ c ∈ cs, IsNumeral c := by
  unfold spanSign at h
  split at h
  · rw [List.forall_mem_cons]
    exact ⟨Or.inr (by decide), h⟩
  · rw [List.forall_mem_cons]
    exact ⟨Or.inr (by decide), h⟩
  · exact h

theorem numerals_of_spanFraction {cs : List Char} (h : ∀ c ∈ (spanFraction cs).2, IsNumeral c) :
    ∀ c ∈ cs, IsNumeral c := by
  unfold spanFraction at h
  split at h
  · rw [List.forall_mem_cons]
    exact ⟨Or.inr (by decide), numerals_of_spanDigits h⟩
  · exact h

theorem numerals_of_spanExponent? {cs : List Char} {exponent : Int}
    (h : spanExponent? cs = some (exponent, [])) : ∀ c ∈ cs, IsNumeral c := by
  cases cs with
  | nil => intro c hc; cases hc
  | cons c cs =>
    rw [spanExponent?] at h
    by_cases hc : c = 'e' ∨ c = 'E'
    · rw [if_pos hc] at h
      rw [List.forall_mem_cons]
      constructor
      · rcases hc with rfl | rfl <;> exact Or.inr (by decide)
      · apply numerals_of_spanSign
        apply numerals_of_spanDigits
        dsimp only at h
        split at h
        · cases h
        · intro d hd
          rw [(Prod.mk.inj (Option.some.inj h)).2] at hd
          cases hd
    · rw [if_neg hc] at h
      cases h

/-- What is read as a number has no characters but those of numerals. -/
theorem numerals_of_ofChars? {cs : List Char} {d : Decimal} (h : ofChars? cs = some d) :
    ∀ c ∈ cs, IsNumeral c := by
  rw [ofChars?_eq] at h
  dsimp only at h
  split at h
  · cases h
  · split at h
    · next exponent hexponent =>
      exact numerals_of_spanSign (numerals_of_spanDigits
        (numerals_of_spanFraction (numerals_of_spanExponent? hexponent)))
    · cases h

end Decimal

namespace Text

/-- A character other than a capital letter of the first 128 is its own small letter there. -/
theorem lowerChar_of_lt {c : Char} (hlt : c.toNat < 0x80) (hcapital : ¬ ('A' ≤ c ∧ c ≤ 'Z')) :
    lowerChar c = [c] := by
  unfold lowerChar
  rw [if_pos hlt, if_neg (by simpa using hcapital)]

/-- In numerals, writing small letters changes the mark of an exponent and nothing else. -/
theorem lowerChar_of_isNumeral {c : Char} (h : Decimal.IsNumeral c) :
    c ≠ 'Σ' ∧ lowerChar c = [Decimal.smallMark c] := by
  rcases h with hdigit | hmark
  · have hbounds : '0' ≤ c ∧ c ≤ '9' := by simpa [Decimal.isDigit] using hdigit
    have hle : c.toNat ≤ 57 := hbounds.2
    rw [Decimal.smallMark_of_isDigit hdigit]
    constructor
    · rintro rfl
      exact absurd hdigit (by decide)
    · apply lowerChar_of_lt (by omega)
      rintro ⟨hcapital, -⟩
      have hge : 65 ≤ c.toNat := hcapital
      omega
  · have hall : (['+', '-', '.', 'e', 'E'].all fun c =>
        c ≠ 'Σ' ∧ lowerChar c = [Decimal.smallMark c]) = true := by decide
    exact of_decide_eq_true (List.all_eq_true.mp hall c hmark)

/-- White space has no case. -/
theorem lowerChar_of_isBlank {c : Char} (h : isBlank c = true) :
    c ≠ 'Σ' ∧ lowerChar c = [Decimal.smallMark c] := by
  have hall : ∀ n ∈ [9, 10, 11, 12, 13, 0x20, 0x85, 0xA0, 0x1680, 0x2000, 0x2001, 0x2002, 0x2003,
      0x2004, 0x2005, 0x2006, 0x2007, 0x2008, 0x2009, 0x200A, 0x2028, 0x2029, 0x202F, 0x205F,
      0x3000], Char.ofNat n ≠ 'Σ' ∧
        lowerChar (Char.ofNat n) = [Decimal.smallMark (Char.ofNat n)] := by decide +kernel
  have hmem := hall c.toNat (by simp [isBlank] at h ⊢; omega)
  rwa [Char.ofNat_toNat] at hmem

theorem isBlank_smallMark (c : Char) : isBlank (Decimal.smallMark c) = isBlank c := by
  unfold Decimal.smallMark
  by_cases hc : c = 'E'
  · rw [if_pos hc, hc]
    decide
  · rw [if_neg hc]

/-- The white space around a numeral is the same with small marks. -/
theorem trimChars_map_smallMark (cs : List Char) :
    trimChars (cs.map Decimal.smallMark) = (trimChars cs).map Decimal.smallMark := by
  have hblank : isBlank ∘ Decimal.smallMark = isBlank := funext isBlank_smallMark
  unfold trimChars trimRight trimLeft
  rw [List.dropWhile_map, hblank, ← List.map_reverse, List.dropWhile_map, hblank, List.map_reverse]

end Text

/-- A text that writes a number writes it in small letters too. -/
theorem Number.ofText?_lower {s : String} {x : Binary64} (h : ofText? s = some x) :
    ofText? (Text.lower s) = some x := by
  have hchars : ∀ c ∈ s.toList, c ≠ 'Σ' ∧ Text.lowerChar c = [Decimal.smallMark c] := by
    intro c hc
    cases hblank : Text.isBlank c with
    | true => exact Text.lowerChar_of_isBlank hblank
    | false =>
      obtain ⟨d, hd, -⟩ := Option.bind_eq_some_iff.mp h
      exact Text.lowerChar_of_isNumeral
        (Decimal.numerals_of_ofChars? hd c (Text.mem_trimChars hc hblank))
  unfold ofText? at h ⊢
  rw [Text.lower, String.toList_ofList, Text.lowerChars_eq_map hchars,
    Text.trimChars_map_smallMark, Decimal.ofChars?_map]
  exact h

end TagGraph
