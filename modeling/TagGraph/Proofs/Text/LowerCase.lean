import TagGraph.Text.LowerCase
import TagGraph.Text.Search
import Mathlib.Data.List.Infix

/-!
# Lower case of a part and of the whole

The small letters of a part of a text depend on what stands around it only through the capital
sigmas in it (`Text.lowerIn_eq_iff`). What stands around can change those at the two edges alone: a
sigma with nothing but passed-over characters in front of it may become final, and one with nothing
but such characters behind it may cease to be (`Text.endsWord_append_iff`). A text without such
sigmas, and only such a text, is found in lower case wherever it is found
(`Text.lowerChars_infix_iff`).
-/

namespace TagGraph.Text

/-! ## Lower case between other characters -/

/-- Whether a sigma ends a word, where `before` holds the characters in front of it, nearest first,
and `after` those behind it. -/
def endsWord (before after : List Char) : Bool :=
  facesLetter before && !facesLetter after

/-- The small letters of one character of a text. -/
def lowerOne (before after : List Char) (c : Char) : List Char :=
  if c = 'Σ' then [if endsWord before after then 'ς' else 'σ'] else lowerChar c

/-- The lower-case form of a part of a text, where `before` holds the characters in front of it,
nearest first, and `after` those behind it. -/
def lowerIn (before after : List Char) : List Char → List Char
  | [] => []
  | c :: cs => lowerOne before (cs ++ after) c ++ lowerIn (c :: before) after cs

theorem lowerAfter_eq_lowerIn (cs : List Char) :
    ∀ before, lowerAfter before cs = lowerIn before [] cs := by
  induction cs with
  | nil => intro before; rfl
  | cons c cs ih =>
    intro before
    rw [lowerAfter, lowerIn, ih, List.append_nil, lowerOne]
    by_cases hc : c = 'Σ'
    · rw [if_pos hc, if_pos hc]
      rfl
    · rw [if_neg hc, if_neg hc]

theorem lowerChars_eq_lowerIn (cs : List Char) : lowerChars cs = lowerIn [] [] cs :=
  lowerAfter_eq_lowerIn cs []

/-- Each part of a text is put into lower case between the other parts. -/
theorem lowerIn_append (xs ys after : List Char) : ∀ before,
    lowerIn before after (xs ++ ys) =
      lowerIn before (ys ++ after) xs ++ lowerIn (xs.reverse ++ before) after ys := by
  induction xs with
  | nil => intro before; rfl
  | cons c xs ih =>
    intro before
    rw [List.cons_append, lowerIn, lowerIn, ih, List.append_assoc, List.append_assoc,
      List.reverse_cons, List.append_assoc, List.singleton_append]

theorem lowerChars_append (xs ys : List Char) :
    lowerChars (xs ++ ys) = lowerIn [] ys xs ++ lowerIn xs.reverse [] ys := by
  rw [lowerChars_eq_lowerIn, lowerIn_append, List.append_nil, List.append_nil]

/-- A text without capital sigmas is put into lower case character by character. -/
theorem lowerChars_eq_map {f : Char → Char} {cs : List Char}
    (h : ∀ c ∈ cs, c ≠ 'Σ' ∧ lowerChar c = [f c]) : lowerChars cs = cs.map f := by
  have hin : ∀ before, lowerIn before [] cs = cs.map f := by
    induction cs with
    | nil => intro before; rfl
    | cons c cs ih =>
      intro before
      obtain ⟨hc, hlower⟩ := h c List.mem_cons_self
      rw [lowerIn, lowerOne, if_neg hc, hlower, ih fun d hd => h d (List.mem_cons_of_mem _ hd)]
      rfl
  rw [lowerChars_eq_lowerIn]
  exact hin []

/-! ## The same form in two places -/

theorem length_lowerOne (before after before' after' : List Char) (c : Char) :
    (lowerOne before after c).length = (lowerOne before' after' c).length := by
  unfold lowerOne
  by_cases hc : c = 'Σ'
  · rw [if_pos hc, if_pos hc]
    rfl
  · rw [if_neg hc, if_neg hc]

/-- Both small sigmas are one character, so that the length does not depend on the place. -/
theorem length_lowerIn (cs after after' : List Char) : ∀ before before',
    (lowerIn before after cs).length = (lowerIn before' after' cs).length := by
  induction cs with
  | nil => intro before before'; rfl
  | cons c cs ih =>
    intro before before'
    rw [lowerIn, lowerIn, List.length_append, List.length_append,
      length_lowerOne before (cs ++ after) before' (cs ++ after'), ih (c :: before) (c :: before')]

theorem lowerOne_eq_iff {before after before' after' : List Char} {c : Char} :
    lowerOne before after c = lowerOne before' after' c ↔
      (c = 'Σ' → endsWord before after = endsWord before' after') := by
  unfold lowerOne
  by_cases hc : c = 'Σ'
  · rw [if_pos hc, if_pos hc]
    cases endsWord before after <;> cases endsWord before' after' <;> simp [hc]
  · simp [hc]

/-- A part has one lower-case form in two places exactly if each of its capital sigmas ends a word
in both or in neither. -/
theorem lowerIn_eq_iff (cs after after' : List Char) : ∀ before before',
    lowerIn before after cs = lowerIn before' after' cs ↔ ∀ x y, cs = x ++ 'Σ' :: y →
      endsWord (x.reverse ++ before) (y ++ after) =
        endsWord (x.reverse ++ before') (y ++ after') := by
  induction cs with
  | nil =>
    intro before before'
    simp [lowerIn]
  | cons c cs ih =>
    intro before before'
    have hlength : (lowerOne before (cs ++ after) c).length =
        (lowerOne before' (cs ++ after') c).length := length_lowerOne _ _ _ _ c
    have hparts : lowerIn before after (c :: cs) = lowerIn before' after' (c :: cs) ↔
        (c = 'Σ' → endsWord before (cs ++ after) = endsWord before' (cs ++ after')) ∧
        lowerIn (c :: before) after cs = lowerIn (c :: before') after' cs := by
      rw [lowerIn, lowerIn, ← lowerOne_eq_iff]
      constructor
      · intro h
        exact List.append_inj h hlength
      · intro h
        rw [h.1, h.2]
    rw [hparts, ih]
    constructor
    · intro h x y hcs
      -- A sigma of the part is its first character or one of the rest.
      cases x with
      | nil =>
        obtain ⟨hc, rfl⟩ := List.cons.inj hcs
        exact h.1 hc
      | cons d x =>
        obtain ⟨rfl, hrest⟩ := List.cons.inj hcs
        have hsigma := h.2 x y hrest
        rwa [List.reverse_cons, List.append_assoc, List.append_assoc]
    · intro h
      constructor
      · intro hc
        exact h [] cs (by rw [hc]; rfl)
      · intro x y hcs
        have hsigma := h (c :: x) y (by rw [hcs]; rfl)
        rwa [List.reverse_cons, List.append_assoc, List.append_assoc] at hsigma

/-- A text has its own lower-case form between other characters, where `before` holds those in front
of it, nearest first: each of its capital sigmas ends a word there exactly if it ends one in the
text on its own. -/
def KeepsForm (before after cs : List Char) : Prop :=
  ∀ x y, cs = x ++ 'Σ' :: y →
    endsWord (x.reverse ++ before) (y ++ after) = endsWord x.reverse y

theorem lowerIn_eq_lowerChars_iff {before after cs : List Char} :
    lowerIn before after cs = lowerChars cs ↔ KeepsForm before after cs := by
  rw [lowerChars_eq_lowerIn, lowerIn_eq_iff]
  simp only [List.append_nil]
  exact Iff.rfl

/-! ## Sigmas at the edges -/

/-- A capital sigma stands in front, but for passed-over characters, and no letter behind it. -/
def OpensOnSigma (cs : List Char) : Prop :=
  ∃ x y, cs = x ++ 'Σ' :: y ∧ x.all isCaseIgnorable = true ∧ facesLetter y = false

/-- A capital sigma stands at the end, but for passed-over characters, and a letter before it. -/
def ClosesOnSigma (cs : List Char) : Prop :=
  ∃ x y, cs = x ++ 'Σ' :: y ∧ facesLetter x.reverse = true ∧ y.all isCaseIgnorable = true

theorem facesLetter_append (xs ys : List Char) : facesLetter (xs ++ ys) =
    if xs.all isCaseIgnorable then facesLetter ys else facesLetter xs := by
  induction xs with
  | nil => rfl
  | cons x xs ih =>
    unfold facesLetter at ih ⊢
    by_cases hx : isCaseIgnorable x = true
    · simpa [List.dropWhile_cons, hx] using ih
    · simp [hx]

theorem facesLetter_of_all {xs : List Char} (h : xs.all isCaseIgnorable = true) :
    facesLetter xs = false := by
  have happend := facesLetter_append xs []
  rw [List.append_nil, if_pos h] at happend
  exact happend

/-- What stands around a text changes a sigma of it in two ways only: with nothing but passed-over
characters in front of it in the text, it may become final; with nothing but such characters behind
it, it may cease to be. -/
theorem endsWord_append_iff (x before y after : List Char) :
    endsWord (x ++ before) (y ++ after) = endsWord x y ↔
      ¬ (x.all isCaseIgnorable = true ∧ facesLetter before = true ∧
          facesLetter (y ++ after) = false) ∧
      ¬ (facesLetter x = true ∧ y.all isCaseIgnorable = true ∧ facesLetter after = true) := by
  unfold endsWord
  rw [facesLetter_append x, facesLetter_append y]
  by_cases hx : x.all isCaseIgnorable = true
  · rw [if_pos hx, facesLetter_of_all hx]
    simp [hx]
  · rw [if_neg hx]
    by_cases hy : y.all isCaseIgnorable = true
    · rw [if_pos hy, facesLetter_of_all hy]
      cases facesLetter x <;> simp [hx, hy]
    · rw [if_neg hy]
      simp [hx, hy]

/-- In front of other characters a text keeps its form unless its last sigma comes to stand within a
word. -/
theorem keepsForm_front_iff {after cs : List Char} :
    KeepsForm [] after cs ↔ ¬ (ClosesOnSigma cs ∧ facesLetter after = true) := by
  have hfront : facesLetter [] = false := rfl
  constructor
  · rintro h ⟨⟨x, y, hcs, hx, hy⟩, hafter⟩
    exact ((endsWord_append_iff x.reverse [] y after).mp (h x y hcs)).2 ⟨hx, hy, hafter⟩
  · intro h x y hcs
    apply (endsWord_append_iff x.reverse [] y after).mpr
    constructor
    · simp [hfront]
    · intro hsigma
      exact h ⟨⟨x, y, hcs, hsigma.1, hsigma.2.1⟩, hsigma.2.2⟩

/-- Behind other characters a text keeps its form unless its first sigma comes to end a word. -/
theorem keepsForm_behind_iff {before cs : List Char} :
    KeepsForm before [] cs ↔ ¬ (OpensOnSigma cs ∧ facesLetter before = true) := by
  constructor
  · rintro h ⟨⟨x, y, hcs, hx, hy⟩, hbefore⟩
    apply ((endsWord_append_iff x.reverse before y []).mp (h x y hcs)).1
    rw [List.append_nil]
    exact ⟨by rwa [List.all_reverse], hbefore, hy⟩
  · intro h x y hcs
    apply (endsWord_append_iff x.reverse before y []).mpr
    constructor
    · intro hsigma
      rw [List.all_reverse, List.append_nil] at hsigma
      exact h ⟨⟨x, y, hcs, hsigma.1, hsigma.2.2⟩, hsigma.2.1⟩
    · simp [facesLetter]

/-- A text without sigmas at its edges keeps its form everywhere. -/
theorem keepsForm_of_edges {before after cs : List Char} (hopens : ¬ OpensOnSigma cs)
    (hcloses : ¬ ClosesOnSigma cs) : KeepsForm before after cs := by
  intro x y hcs
  apply (endsWord_append_iff x.reverse before y after).mpr
  constructor
  · rintro ⟨hx, -, hy⟩
    apply hopens
    refine ⟨x, y, hcs, by rwa [List.all_reverse] at hx, ?_⟩
    rw [facesLetter_append] at hy
    by_cases hall : y.all isCaseIgnorable = true
    · exact facesLetter_of_all hall
    · rwa [if_neg hall] at hy
  · rintro ⟨hx, hy, -⟩
    exact hcloses ⟨x, y, hcs, hx, hy⟩

/-! ## Finding a text in lower case -/

variable {cs : List Char}

theorem lowerChars_prefix_iff (rest : List Char) :
    lowerChars cs <+: lowerChars (cs ++ rest) ↔ KeepsForm [] rest cs := by
  rw [← lowerIn_eq_lowerChars_iff, lowerChars_append]
  have hlength : (lowerIn [] rest cs).length = (lowerChars cs).length := by
    rw [lowerChars_eq_lowerIn]
    exact length_lowerIn cs rest [] [] []
  constructor
  · rintro ⟨r, hr⟩
    exact (List.append_inj hr hlength.symm).1.symm
  · intro h
    rw [h]
    exact List.prefix_append _ _

theorem lowerChars_suffix_iff (front : List Char) :
    lowerChars cs <:+ lowerChars (front ++ cs) ↔ KeepsForm front.reverse [] cs := by
  rw [← lowerIn_eq_lowerChars_iff, lowerChars_append]
  have hlength : (lowerIn front.reverse [] cs).length = (lowerChars cs).length := by
    rw [lowerChars_eq_lowerIn]
    exact length_lowerIn cs [] [] front.reverse []
  constructor
  · rintro ⟨r, hr⟩
    exact (List.append_inj' hr hlength.symm).2.symm
  · intro h
    rw [h]
    exact List.suffix_append _ _

/-- A text that keeps its form where it stands is found there in lower case. -/
theorem lowerChars_infix {front rest : List Char} (h : KeepsForm front.reverse rest cs) :
    lowerChars cs <:+: lowerChars (front ++ cs ++ rest) := by
  rw [← lowerIn_eq_lowerChars_iff] at h
  rw [List.append_assoc, lowerChars_append, lowerIn_append, List.append_nil, h]
  exact ⟨_, _, List.append_assoc _ _ _⟩

/-- There is a small letter other than a given character. -/
theorem exists_letter (other : Option Char) : ∃ z : Char, z ≠ 'Σ' ∧ lowerChar z = [z] ∧
    facesLetter [z] = true ∧ other ≠ some z := by
  by_cases ha : other = some 'a'
  · exact ⟨'b', by decide, by decide, by decide +kernel, by rw [ha]; decide⟩
  · exact ⟨'a', by decide, by decide, by decide +kernel, ha⟩

/-- A text is found in lower case in every text that it is found in, exactly if it has no sigma at
its edges. -/
theorem lowerChars_infix_iff : (∀ whole, cs <:+: whole → lowerChars cs <:+: lowerChars whole) ↔
    ¬ OpensOnSigma cs ∧ ¬ ClosesOnSigma cs := by
  constructor
  · intro h
    constructor
    · -- Behind a letter that the text does not begin with, its first sigma becomes final.
      intro hopens
      obtain ⟨z, hz, hlower, hletter, hother⟩ := exists_letter (lowerChars cs).head?
      apply keepsForm_behind_iff.mp ?_ ⟨hopens, hletter⟩
      apply lowerIn_eq_lowerChars_iff.mp
      have hlength : (lowerChars cs).length = (lowerIn [z] [] cs).length := by
        rw [lowerChars_eq_lowerIn]
        exact length_lowerIn cs [] [] [] [z]
      have hwhole : lowerChars (z :: cs) = z :: lowerIn [z] [] cs := by
        rw [lowerChars_eq_lowerIn, lowerIn, lowerOne, if_neg hz, hlower]
        rfl
      have hfound := h (z :: cs) (List.suffix_cons z cs).isInfix
      rw [hwhole, List.infix_cons_iff, List.prefix_cons_iff] at hfound
      rcases hfound with (hnil | ⟨t, ht, -⟩) | hfound
      · rw [hnil] at hlength ⊢
        exact List.length_eq_zero_iff.mp hlength.symm
      · rw [ht] at hother
        exact absurd rfl hother
      · exact (hfound.eq_of_length hlength).symm
    · -- In front of a letter that the text does not end with, its last sigma stands within a word.
      intro hcloses
      obtain ⟨z, hz, hlower, hletter, hother⟩ := exists_letter (lowerChars cs).getLast?
      apply keepsForm_front_iff.mp ?_ ⟨hcloses, hletter⟩
      apply lowerIn_eq_lowerChars_iff.mp
      have hlength : (lowerChars cs).length = (lowerIn [] [z] cs).length := by
        rw [lowerChars_eq_lowerIn]
        exact length_lowerIn cs [] [z] [] []
      have hwhole : lowerChars (cs ++ [z]) = lowerIn [] [z] cs ++ [z] := by
        rw [lowerChars_append, lowerIn, lowerOne, if_neg hz, hlower]
        rfl
      have hfound := h (cs ++ [z]) (List.prefix_append cs [z]).isInfix
      rw [hwhole, List.infix_concat_iff, List.suffix_concat_iff] at hfound
      rcases hfound with (hnil | ⟨t, ht, -⟩) | hfound
      · rw [hnil] at hlength ⊢
        exact List.length_eq_zero_iff.mp hlength.symm
      · rw [ht, List.getLast?_concat] at hother
        exact absurd rfl hother
      · exact (hfound.eq_of_length hlength).symm
  · rintro ⟨hopens, hcloses⟩ whole ⟨front, rest, rfl⟩
    exact lowerChars_infix (keepsForm_of_edges hopens hcloses)

end TagGraph.Text
