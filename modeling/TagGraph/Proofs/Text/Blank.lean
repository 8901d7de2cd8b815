import Mathlib.Data.List.TakeWhile
import TagGraph.Text.Blank

/-!
# Around white space

White space around a text that has none in it is removed, and the text stays
(`Text.trimChars_around`). Of any text nothing else than white space at its ends is taken
(`Text.exists_trimChars`).
-/

namespace TagGraph.Text

/-- White space and the printed characters below 127 are apart. -/
theorem isBlank_eq_false_of_printed {c : Char} (h : 32 < c.toNat) (h' : c.toNat < 127) :
    isBlank c = false := by
  simp only [isBlank, Bool.or_eq_false_iff, Bool.and_eq_false_iff, decide_eq_false_iff_not,
    beq_eq_false_iff_ne]
  omega

theorem isBlank_toLower (c : Char) : isBlank c.toLower = isBlank c := by
  unfold Char.toLower
  split
  · next h =>
    have hfirst : 65 ≤ c.toNat := h.1
    have hlast : c.toNat ≤ 90 := h.2
    have hsmall : (c.val + ('a'.val - 'A'.val)).toNat = c.toNat + 32 := by
      rw [UInt32.toNat_add]
      show (c.toNat + 32) % 2 ^ 32 = c.toNat + 32
      omega
    rw [isBlank_eq_false_of_printed (c := c) (by omega) (by omega)]
    apply isBlank_eq_false_of_printed
    · show 32 < (c.val + ('a'.val - 'A'.val)).toNat
      omega
    · show (c.val + ('a'.val - 'A'.val)).toNat < 127
      omega
  · rfl

/-- White space is removed around a text that has none in it. -/
theorem trimChars_around {before after cs : List Char}
    (hbefore : ∀ c ∈ before, isBlank c = true) (hafter : ∀ c ∈ after, isBlank c = true)
    (hcs : ∀ c ∈ cs, isBlank c = false) : trimChars (before ++ cs ++ after) = cs := by
  have hkept (c : Char) (hc : isBlank c = false) (rest : List Char) :
      (c :: rest).dropWhile isBlank = c :: rest := by
    rw [List.dropWhile_cons, hc]
    rfl
  have hbehind : ∀ c ∈ after.reverse, isBlank c = true :=
    fun c hc => hafter c (List.mem_reverse.mp hc)
  unfold trimChars trimRight trimLeft
  rw [List.append_assoc, List.dropWhile_append_of_pos hbefore]
  cases cs with
  | nil =>
    rw [List.nil_append, ← List.append_nil after, List.dropWhile_append_of_pos hafter]
    rfl
  | cons first rest =>
    rw [List.cons_append, hkept first (hcs first (List.mem_cons_self ..)), ← List.cons_append,
      List.reverse_append, List.dropWhile_append_of_pos hbehind]
    obtain ⟨last, front, hlast⟩ := List.exists_cons_of_ne_nil
      (List.reverse_ne_nil_iff.mpr (List.cons_ne_nil first rest))
    have hmem : last ∈ first :: rest := by
      rw [← List.mem_reverse, hlast]
      exact List.mem_cons_self ..
    rw [hlast, hkept last (hcs last hmem), ← hlast, List.reverse_reverse]

/-- Trimming takes white space off both ends of a text. -/
theorem exists_trimChars (cs : List Char) : ∃ before after, cs = before ++ trimChars cs ++ after ∧
    (∀ c ∈ before, isBlank c = true) ∧ ∀ c ∈ after, isBlank c = true := by
  refine ⟨cs.takeWhile isBlank, ((trimLeft cs).reverse.takeWhile isBlank).reverse, ?_,
    fun c hc => List.mem_takeWhile_imp hc,
    fun c hc => List.mem_takeWhile_imp (List.mem_reverse.mp hc)⟩
  have hright : trimChars cs ++ ((trimLeft cs).reverse.takeWhile isBlank).reverse = trimLeft cs := by
    rw [trimChars, trimRight, ← List.reverse_append, List.takeWhile_append_dropWhile,
      List.reverse_reverse]
  rw [List.append_assoc, hright, trimLeft, List.takeWhile_append_dropWhile]

/-- Trimming takes away white space only. -/
theorem mem_trimChars {cs : List Char} {c : Char} (hc : c ∈ cs) (hblank : isBlank c = false) :
    c ∈ trimChars cs := by
  obtain ⟨before, after, hcs, hbefore, hafter⟩ := exists_trimChars cs
  rw [hcs, List.mem_append, List.mem_append] at hc
  rcases hc with (hc | hc) | hc
  · cases hblank.symm.trans (hbefore c hc)
  · exact hc
  · cases hblank.symm.trans (hafter c hc)

theorem trim_eq_self {s : String} (h : ∀ c ∈ s.toList, isBlank c = false) : trim s = s := by
  have hchars := trimChars_around (List.forall_mem_nil _) (List.forall_mem_nil _) h
  rw [List.nil_append, List.append_nil] at hchars
  rw [trim, hchars, String.ofList_toList]

end TagGraph.Text
