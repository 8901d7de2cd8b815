import Mathlib.Data.List.Chain
import Mathlib.Data.List.DropRight
import Mathlib.Data.List.TakeWhile
import TagGraph.Proofs.Text.Blank
import TagGraph.Text.Plain

/-!
# What plain texts are free of

A plain text has no symbol of markup in it, and no white space but single blanks inside it. Without
the bracket `>` there is no tag either. Links are another matter: a link may stand in the label of
another one, and a symbol that goes away may have kept the parts of a link apart. Such a link is
left, and a second pass makes the text shorter (`Text.plain_free`).
-/

namespace TagGraph.Text

/-! ## The first occurrence of a character -/

theorem forall_bne_of_notMem {a : Char} {cs : List Char} (h : a ∉ cs) :
    ∀ c ∈ cs, (c != a) = true :=
  fun _ hc => bne_iff_ne.mpr (ne_of_mem_of_not_mem hc h)

theorem takeWhile_ne_append {a : Char} {front : List Char} (h : a ∉ front) (rest : List Char) :
    (front ++ a :: rest).takeWhile (· != a) = front := by
  rw [List.takeWhile_append_of_pos (forall_bne_of_notMem h),
    List.takeWhile_cons_of_neg (by simp), List.append_nil]

theorem dropWhile_ne_append {a : Char} {front : List Char} (h : a ∉ front) (rest : List Char) :
    (front ++ a :: rest).dropWhile (· != a) = a :: rest := by
  rw [List.dropWhile_append_of_pos (forall_bne_of_notMem h), List.dropWhile_cons_of_neg (by simp)]

/-- What is left from the first occurrence of a character on. -/
theorem eq_append_of_dropWhile_ne {a b : Char} {cs rest : List Char}
    (h : cs.dropWhile (· != a) = b :: rest) :
    b = a ∧ cs = cs.takeWhile (· != a) ++ a :: rest ∧ a ∉ cs.takeWhile (· != a) := by
  have hb : (b != a) = false := by
    have := List.head?_dropWhile_not (· != a) cs
    rw [h] at this
    simpa using this
  obtain rfl := bne_eq_false_iff_eq.mp hb
  refine ⟨rfl, ?_, fun hmem => ?_⟩
  · rw [← h, List.takeWhile_append_dropWhile]
  · have := List.mem_takeWhile_imp hmem
    simp at this

/-! ## Tags -/

/-- Every tag ends with the bracket `>`. -/
theorem afterTag?_eq_none {cs : List Char} (h : '>' ∉ cs) : afterTag? cs = none := by
  rw [afterTag?, List.dropWhile_eq_nil_iff.mpr (forall_bne_of_notMem h)]
  cases cs.takeWhile (· != '>') <;> rfl

theorem dropTags_eq_self {cs : List Char} (h : '>' ∉ cs) : dropTags cs = cs := by
  induction cs with
  | nil => rw [dropTags]
  | cons c cs ih =>
    have hrest : '>' ∉ cs := fun hmem => h (List.mem_cons_of_mem c hmem)
    rw [dropTags, ih hrest]
    split
    · split
      · next hafter =>
        rw [afterTag?_eq_none hrest] at hafter
        cases hafter
      · rfl
    · rfl

/-! ## Links -/

/-- A text in which a link or image is left. -/
def HoldsLink (cs : List Char) : Prop :=
  ∃ before label target after,
    cs = before ++ '[' :: label ++ ']' :: '(' :: target ++ ')' :: after ∧
      ']' ∉ label ∧ ')' ∉ target

theorem afterLink?_eq_some_iff {cs label rest : List Char} :
    afterLink? cs = some (label, rest) ↔
      ∃ target, cs = label ++ ']' :: '(' :: target ++ ')' :: rest ∧ ']' ∉ label ∧ ')' ∉ target := by
  constructor
  · intro h
    unfold afterLink? at h
    split at h
    · next hlabel =>
      split at h
      · next htarget =>
        obtain ⟨rfl, rfl⟩ := Prod.mk.inj (Option.some.inj h)
        obtain ⟨rfl, hcs, hfree⟩ := eq_append_of_dropWhile_ne hlabel
        obtain ⟨rfl, hmore, hfree'⟩ := eq_append_of_dropWhile_ne htarget
        refine ⟨_, ?_, hfree, hfree'⟩
        rw [List.append_assoc, List.cons_append, List.cons_append, ← hmore]
        exact hcs
      · cases h
    · cases h
  · rintro ⟨target, rfl, hlabel, htarget⟩
    simp only [List.append_assoc, List.cons_append, afterLink?, dropWhile_ne_append hlabel,
      dropWhile_ne_append htarget, takeWhile_ne_append hlabel]

/-- A link or image right at the front of a text. -/
theorem linkAt?_eq_some {cs label rest : List Char} (h : linkAt? cs = some (label, rest)) :
    HoldsLink cs ∧ label.length + rest.length < cs.length := by
  have hlink : ∃ mark target, cs = mark ++ '[' :: label ++ ']' :: '(' :: target ++ ')' :: rest ∧
      ']' ∉ label ∧ ')' ∉ target := by
    unfold linkAt? at h
    split at h
    · obtain ⟨target, rfl, hlabel, htarget⟩ := afterLink?_eq_some_iff.mp h
      exact ⟨['!'], target, by simp, hlabel, htarget⟩
    · obtain ⟨target, rfl, hlabel, htarget⟩ := afterLink?_eq_some_iff.mp h
      exact ⟨[], target, by simp, hlabel, htarget⟩
    · cases h
  obtain ⟨mark, target, rfl, hlabel, htarget⟩ := hlink
  refine ⟨⟨mark, label, target, rest, rfl, hlabel, htarget⟩, ?_⟩
  simp only [List.length_append, List.length_cons]
  omega

/-- Where no link begins at the front, a link begins further on. -/
theorem HoldsLink.tail {c : Char} {cs : List Char} (h : HoldsLink (c :: cs))
    (hnone : linkAt? (c :: cs) = none) : HoldsLink cs := by
  obtain ⟨before, label, target, after, heq, hlabel, htarget⟩ := h
  cases before with
  | nil =>
    have hafter : afterLink? cs = some (label, after) := by
      refine afterLink?_eq_some_iff.mpr ⟨target, ?_, hlabel, htarget⟩
      exact (List.cons.inj heq).2
    obtain rfl : c = '[' := (List.cons.inj heq).1
    rw [linkAt?, hafter] at hnone
    cases hnone
  | cons first before =>
    exact ⟨before, label, target, after, (List.cons.inj heq).2, hlabel, htarget⟩

theorem length_unwrapLinks_le (cs : List Char) : (unwrapLinks cs).length ≤ cs.length := by
  fun_induction unwrapLinks cs with
  | case1 cs label rest hlink ih =>
    have := (linkAt?_eq_some hlink).2
    rw [List.length_append]
    omega
  | case2 => exact Nat.le_refl 0
  | case3 c cs hnone ih => simpa using ih

/-- A text without links stays as it is. -/
theorem unwrapLinks_eq_self {cs : List Char} (h : ¬ HoldsLink cs) : unwrapLinks cs = cs := by
  fun_induction unwrapLinks cs with
  | case1 cs label rest hlink ih => exact absurd (linkAt?_eq_some hlink).1 h
  | case2 => rfl
  | case3 c cs hnone ih =>
    rw [ih fun ⟨before, label, target, after, heq, hfree⟩ =>
      h ⟨c :: before, label, target, after, by rw [heq]; rfl, hfree⟩]

/-- A text with a link gets shorter. -/
theorem length_unwrapLinks_lt {cs : List Char} (h : HoldsLink cs) :
    (unwrapLinks cs).length < cs.length := by
  fun_induction unwrapLinks cs with
  | case1 cs label rest hlink ih =>
    have := (linkAt?_eq_some hlink).2
    have := length_unwrapLinks_le rest
    rw [List.length_append]
    omega
  | case2 =>
    obtain ⟨before, label, target, after, heq, -⟩ := h
    simp at heq
  | case3 c cs hnone ih => simpa using ih (h.tail hnone)

/-! ## White space -/

/-- A text whose only white space are single blanks. -/
structure Spaced (cs : List Char) : Prop where
  blank : ∀ c ∈ cs, isBlank c = true → c = ' '
  single : cs.IsChain fun a b => isBlank a = false ∨ isBlank b = false

/-- A part of such a text is one. -/
theorem Spaced.part {cs before part after : List Char} (h : Spaced cs)
    (hcs : before ++ part ++ after = cs) : Spaced part := by
  obtain rfl := hcs
  exact ⟨fun c hc => h.blank c (List.mem_append_left _ (List.mem_append_right _ hc)),
    h.single.left_of_append.right_of_append⟩

/-- Where a run of white space goes on, none is written again. -/
theorem head?_collapseBlanks_true (cs : List Char) :
    ∀ c ∈ (collapseBlanks true cs).head?, isBlank c = false := by
  induction cs with
  | nil => exact fun _ hc => nomatch hc
  | cons first rest ih =>
    unfold collapseBlanks
    cases hfirst : isBlank first with
    | true => simpa using ih
    | false => simpa using hfirst

theorem collapseBlanks_spaced (inRun : Bool) (cs : List Char) :
    Spaced (collapseBlanks inRun cs) := by
  induction cs generalizing inRun with
  | nil => exact ⟨List.forall_mem_nil _, .nil⟩
  | cons first rest ih =>
    unfold collapseBlanks
    cases hfirst : isBlank first with
    | false =>
      have hrest := ih false
      exact ⟨List.forall_mem_cons.mpr ⟨fun h => (nomatch hfirst.symm.trans h), hrest.blank⟩,
        hrest.single.cons fun _ _ => Or.inl hfirst⟩
    | true =>
      have hrest := ih true
      cases inRun with
      | true => exact hrest
      | false =>
        exact ⟨List.forall_mem_cons.mpr ⟨fun _ => rfl, hrest.blank⟩,
          hrest.single.cons fun c hc => Or.inr (head?_collapseBlanks_true rest c hc)⟩

theorem Spaced.collapseBlanks_eq {cs : List Char} (h : Spaced cs) (inRun : Bool)
    (hhead : inRun = true → ∀ c ∈ cs.head?, isBlank c = false) : collapseBlanks inRun cs = cs := by
  induction cs generalizing inRun with
  | nil => rfl
  | cons first rest ih =>
    obtain ⟨hfirst, hrest⟩ := List.forall_mem_cons.mp h.blank
    have htail : Spaced rest := ⟨hrest, h.single.tail⟩
    by_cases hblank : isBlank first = true
    · cases inRun with
      | true => cases hblank.symm.trans (hhead rfl first rfl)
      | false =>
        obtain rfl := hfirst hblank
        have hnext : ∀ c ∈ rest.head?, isBlank c = false :=
          fun c hc => (h.single.rel_head? hc).resolve_left (by decide)
        rw [collapseBlanks, if_pos hblank, ih htail true fun _ => hnext]
        rfl
    · rw [collapseBlanks, if_neg hblank, ih htail false nofun]

theorem mem_of_mem_collapseBlanks {inRun : Bool} {cs : List Char} {c : Char}
    (h : c ∈ collapseBlanks inRun cs) : c = ' ' ∨ c ∈ cs := by
  induction cs generalizing inRun with
  | nil => exact Or.inr h
  | cons first rest ih =>
    unfold collapseBlanks at h
    split at h
    · split at h
      · exact (ih h).imp id (List.mem_cons_of_mem first)
      · rcases List.mem_cons.mp h with rfl | h
        · exact Or.inl rfl
        · exact (ih h).imp id (List.mem_cons_of_mem first)
    · rcases List.mem_cons.mp h with rfl | h
      · exact Or.inr List.mem_cons_self
      · exact (ih h).imp id (List.mem_cons_of_mem first)

theorem length_collapseBlanks_le (inRun : Bool) (cs : List Char) :
    (collapseBlanks inRun cs).length ≤ cs.length := by
  induction cs generalizing inRun with
  | nil => exact Nat.le_refl 0
  | cons first rest ih =>
    have := ih true
    have := ih false
    unfold collapseBlanks
    split
    · split <;> simp only [List.length_cons] <;> omega
    · simp only [List.length_cons]
      omega

/-- A text that has no white space at its ends. -/
structure Trimmed (cs : List Char) : Prop where
  front : ∀ c ∈ cs.head?, isBlank c = false
  back : ∀ c ∈ cs.getLast?, isBlank c = false

theorem trimRight_isPrefix (cs : List Char) : trimRight cs <+: cs :=
  List.rdropWhile_prefix isBlank cs

theorem trimChars_isInfix (cs : List Char) : trimChars cs <:+: cs := by
  obtain ⟨before, after, hcs, -⟩ := exists_trimChars cs
  exact ⟨before, after, hcs.symm⟩

theorem trimChars_trimmed (cs : List Char) : Trimmed (trimChars cs) where
  front c hc := by
    have hleft : ∀ c ∈ (trimLeft cs).head?, isBlank c = false := by
      intro c hc
      have := List.head?_dropWhile_not isBlank cs
      rw [trimLeft, Option.mem_def] at hc
      rw [hc] at this
      exact this
    obtain ⟨behind, hbehind⟩ := trimRight_isPrefix (trimLeft cs)
    refine hleft c ?_
    rw [← hbehind]
    exact List.mem_head?_append_of_mem_head? hc
  back c hc := by
    obtain ⟨hne, hlast⟩ := List.mem_getLast?_eq_getLast hc
    rw [hlast]
    exact Bool.eq_false_iff.mpr (List.rdropWhile_last_not isBlank _ hne)

theorem Trimmed.trimChars_eq {cs : List Char} (h : Trimmed cs) : trimChars cs = cs := by
  have hleft : trimLeft cs = cs := by
    cases cs with
    | nil => rfl
    | cons first rest => exact trimLeft_cons_of_not_isBlank (h.front first rfl)
  rw [trimChars, hleft]
  refine List.rdropWhile_eq_self_iff.mpr fun hne => ?_
  rw [h.back _ (List.getLast_mem_getLast? hne)]
  exact Bool.false_ne_true

/-! ## Plain texts -/

/-- What a plain text is free of. -/
structure IsPlain (cs : List Char) : Prop extends Spaced cs, Trimmed cs where
  symbol : ∀ c ∈ cs, isMarkupSymbol c = false

theorem plainChars_isPlain (cs : List Char) : IsPlain (plainChars cs) := by
  have hspaced := collapseBlanks_spaced false
    ((unwrapLinks (dropTags cs)).filter (!isMarkupSymbol ·))
  obtain ⟨before, after, hpart⟩ := trimChars_isInfix
    (collapseBlanks false ((unwrapLinks (dropTags cs)).filter (!isMarkupSymbol ·)))
  refine ⟨hspaced.part hpart, trimChars_trimmed _, fun c hc => ?_⟩
  rcases mem_of_mem_collapseBlanks ((trimChars_isInfix _).subset hc) with rfl | hmem
  · decide
  · simpa using (List.mem_filter.mp hmem).2

theorem length_plainChars_le (cs : List Char) :
    (plainChars cs).length ≤ (unwrapLinks (dropTags cs)).length :=
  calc (plainChars cs).length
      ≤ (collapseBlanks false ((unwrapLinks (dropTags cs)).filter (!isMarkupSymbol ·))).length :=
        (trimChars_isInfix _).length_le
    _ ≤ ((unwrapLinks (dropTags cs)).filter (!isMarkupSymbol ·)).length :=
        length_collapseBlanks_le false _
    _ ≤ (unwrapLinks (dropTags cs)).length := List.length_filter_le _ _

theorem IsPlain.dropTags_eq {cs : List Char} (h : IsPlain cs) : dropTags cs = cs :=
  dropTags_eq_self fun hmem => nomatch h.symbol _ hmem

/-- A plain text without links is its own plain form. -/
theorem IsPlain.plainChars_eq {cs : List Char} (h : IsPlain cs) (hlink : ¬ HoldsLink cs) :
    plainChars cs = cs := by
  have hsymbol : cs.filter (!isMarkupSymbol ·) = cs :=
    List.filter_eq_self.mpr fun c hc => by rw [h.symbol c hc]; rfl
  rw [plainChars, h.dropTags_eq, unwrapLinks_eq_self hlink, hsymbol,
    h.toSpaced.collapseBlanks_eq false nofun, h.toTrimmed.trimChars_eq]

/-- One with a link has a shorter plain form. -/
theorem IsPlain.length_plainChars_lt {cs : List Char} (h : IsPlain cs) (hlink : HoldsLink cs) :
    (plainChars cs).length < cs.length := by
  have := length_plainChars_le cs
  rw [h.dropTags_eq] at this
  exact Nat.lt_of_le_of_lt this (length_unwrapLinks_lt hlink)

theorem toList_plain (content : String) : (plain content).toList = plainChars content.toList :=
  String.toList_ofList

/-- A plain text has no symbol of markup and no tag in it, and no white space but single blanks
inside it. A second pass leaves it as it is if and only if it has no link in it. -/
theorem plain_free (content : String) :
    (∀ c ∈ (plain content).toList, isMarkupSymbol c = false) ∧
      (∀ before inner after,
        (plain content).toList ≠ before ++ '<' :: inner ++ '>' :: after) ∧
      (∀ c ∈ (plain content).toList, isBlank c = true → c = ' ') ∧
      ¬ [' ', ' '] <:+: (plain content).toList ∧
      (∀ c ∈ (plain content).toList.head?, isBlank c = false) ∧
      (∀ c ∈ (plain content).toList.getLast?, isBlank c = false) ∧
      (plain (plain content) = plain content ↔ ¬ HoldsLink (plain content).toList) := by
  have hplain : IsPlain (plain content).toList := by
    rw [toList_plain]
    exact plainChars_isPlain content.toList
  refine ⟨hplain.symbol, fun before inner after h => ?_, hplain.blank, fun h => ?_, hplain.front,
    hplain.back, ?_⟩
  · have hmem : '>' ∈ (plain content).toList := by simp [h]
    cases hplain.symbol _ hmem
  · obtain ⟨before, after, hpart⟩ := h
    have hpair := List.isChain_pair.mp (hplain.toSpaced.part hpart).single
    rcases hpair with hblank | hblank <;> cases hblank
  · constructor
    · intro h hlink
      have hshort := hplain.length_plainChars_lt hlink
      rw [← toList_plain, h] at hshort
      exact Nat.lt_irrefl _ hshort
    · intro hlink
      apply String.toList_injective
      rw [toList_plain, hplain.plainChars_eq hlink]

/-- An image in the label of a link is left. -/
example : plain "[![alt](img)](url)" = "![alt](url)" ∧ plain "![alt](url)" = "alt" := by
  decide +kernel

end TagGraph.Text
