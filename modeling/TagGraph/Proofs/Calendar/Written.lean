import TagGraph.Calendar.Reading
import TagGraph.Proofs.Calendar.Days
import TagGraph.Proofs.Number.Literal
import TagGraph.Proofs.Text.Blank

/-!
# Written dates are read

A date is written as `YYYY-MM-DD`, a time of day as `HH:MM:SS.mmm`, and an offset as `Z` or with a
sign as `+HH:MM`. Of the three readers that are tried in turn, each takes one of the three forms and
refuses the other two (`readWithin_written`); so each form denotes the instant that counting the
days along the calendar comes to (`readWithin_denotes`).
-/

namespace TagGraph

/-! ## Figures -/

namespace Decimal

/-- The last `width` digits of a number, with leading zeros. -/
def figures : (width : Nat) → Nat → List Char
  | 0, _ => []
  | width + 1, n => figures width (n / 10) ++ [(n % 10).digitChar]

variable {width n : Nat}

@[simp] theorem length_figures (width n : Nat) : (figures width n).length = width := by
  induction width generalizing n with
  | zero => rfl
  | succ width ih => rw [figures, List.length_append, ih, List.length_singleton]

theorem digitChar_eq (d : Fin 10) :
    isDigit d.val.digitChar = true ∧ digitsValue [d.val.digitChar] = d := by
  revert d
  decide

theorem allDigits_figures (width n : Nat) : AllDigits (figures width n) := by
  induction width generalizing n with
  | zero => exact fun c hc => nomatch hc
  | succ width ih =>
    refine (ih (n / 10)).append fun c hc => ?_
    rw [List.mem_singleton.mp hc]
    exact (digitChar_eq ⟨n % 10, Nat.mod_lt n (by decide)⟩).1

theorem digitsValue_figures (h : n < 10 ^ width) : digitsValue (figures width n) = n := by
  induction width generalizing n with
  | zero =>
    obtain rfl : n = 0 := Nat.lt_one_iff.mp h
    rfl
  | succ width ih =>
    have hfront : n / 10 < 10 ^ width := by
      rw [Nat.pow_succ] at h
      exact Nat.div_lt_of_lt_mul (by omega)
    have hlast := (digitChar_eq ⟨n % 10, Nat.mod_lt n (by decide)⟩).2
    rw [figures, digitsValue_append, ih hfront, hlast, List.length_singleton]
    simp only
    omega

/-- Figures begin with a digit. -/
theorem exists_figures_cons (h : 0 < width) (n : Nat) :
    ∃ c cs, figures width n = c :: cs ∧ isDigit c = true := by
  cases hfigures : figures width n with
  | nil =>
    have hlength := length_figures width n
    rw [hfigures] at hlength
    exact absurd hlength (Nat.ne_of_lt h)
  | cons c cs => exact ⟨c, cs, rfl, allDigits_figures width n c (by rw [hfigures]; simp)⟩

theorem isBlank_of_isDigit {c : Char} (h : isDigit c = true) : Text.isBlank c = false := by
  simp only [isDigit, Bool.and_eq_true, decide_eq_true_eq] at h
  have hfirst : 48 ≤ c.toNat := h.1
  have hlast : c.toNat ≤ 57 := h.2
  simp [Text.isBlank]
  omega

theorem isBlank_figures (width n : Nat) : ∀ c ∈ figures width n, Text.isBlank c = false :=
  fun c hc => isBlank_of_isDigit (allDigits_figures width n c hc)

end Decimal

namespace Calendar

open Decimal

/-! ## Written forms -/

/-- A date as `YYYY-MM-DD`. -/
def Date.chars (d : Date) : List Char :=
  figures 4 d.year.toNat ++ '-' :: (figures 2 d.month ++ '-' :: figures 2 d.day)

/-- A time of day as `HH:MM:SS.mmm`. -/
def Time.chars (t : Time) : List Char :=
  figures 2 t.hour ++ ':' :: (figures 2 t.minute ++ ':' ::
    (figures 2 t.second ++ '.' :: figures 3 (t.nanosecond / 1000000)))

/-- Universal time, or hours and minutes ahead of it or behind it. -/
inductive Zone where
  | utc
  | ahead (hours minutes : Nat)
  | behind (hours minutes : Nat)

namespace Zone

/-- An offset as `Z`, `+HH:MM` or `-HH:MM`. -/
def chars : Zone → List Char
  | utc => ['Z']
  | ahead hours minutes => '+' :: (figures 2 hours ++ ':' :: figures 2 minutes)
  | behind hours minutes => '-' :: (figures 2 hours ++ ':' :: figures 2 minutes)

/-- The minutes ahead of universal time. -/
def offset : Zone → Int
  | utc => 0
  | ahead hours minutes => (60 * hours + minutes : Nat)
  | behind hours minutes => -(60 * hours + minutes : Nat)

/-- Offsets are less than a day, in hours and minutes. -/
def Exists : Zone → Prop
  | utc => True
  | ahead hours minutes | behind hours minutes => hours < 24 ∧ minutes < 60

instance : (z : Zone) → Decidable z.Exists
  | utc => inferInstanceAs (Decidable True)
  | ahead _ _ | behind _ _ => inferInstanceAs (Decidable (_ ∧ _))

/-- The numbers have as many digits as they are written with. -/
def Fits : Zone → Prop
  | utc => True
  | ahead hours minutes | behind hours minutes => hours < 100 ∧ minutes < 100

end Zone

/-- The numbers have as many digits as they are written with. -/
structure Date.Fits (d : Date) : Prop where
  year : 0 ≤ d.year ∧ d.year ≤ 9999
  month : d.month < 100
  day : d.day < 100

/-- The numbers have as many digits as they are written with. -/
structure Time.Fits (t : Time) : Prop where
  hour : t.hour < 100
  minute : t.minute < 100
  second : t.second < 100
  nanosecond : t.nanosecond < 10 ^ 9 ∧ 1000000 ∣ t.nanosecond

/-! ## Reading the parts -/

section Parts

variable {least most width n : Nat} {rest : List Char}

theorem digits?_figures (hleast : least ≤ width) (hmost : width ≤ most) (hn : n < 10 ^ width)
    (hrest : NoDigitAhead rest) :
    digits? least most (figures width n ++ rest) = some (n, rest) := by
  have hspan := spanDigits_append (allDigits_figures width n) hrest
  have hrun : (figures width n ++ rest).takeWhile isDigit = figures width n :=
    congrArg Prod.fst hspan
  have htake : (figures width n).take most = figures width n :=
    List.take_of_length_le (by rwa [length_figures])
  unfold digits?
  simp only [hrun, htake, length_figures, if_pos hleast, digitsValue_figures hn]
  rw [List.drop_left' (length_figures width n)]

theorem noDigitAhead_nil : NoDigitAhead [] :=
  fun _ _ h => nomatch h

theorem noDigitAhead_hyphen (cs : List Char) : NoDigitAhead ('-' :: cs) :=
  noDigitAhead_cons rfl cs

theorem noDigitAhead_colon (cs : List Char) : NoDigitAhead (':' :: cs) :=
  noDigitAhead_cons rfl cs

theorem noDigitAhead_point (cs : List Char) : NoDigitAhead ('.' :: cs) :=
  noDigitAhead_cons rfl cs

theorem noDigitAhead_designator (cs : List Char) : NoDigitAhead ('T' :: cs) :=
  noDigitAhead_cons rfl cs

theorem after?_cons (c : Char) (cs : List Char) : after? c (c :: cs) = some cs :=
  if_pos rfl

/-- The rest is read from what a part gives. In front of a long reader this goes on to the next
part, without a look at the parts behind. -/
theorem bind_of_eq_some {α β : Type} {part : Option α} {a : α} (h : part = some a)
    (rest : α → Option β) : part >>= rest = rest a := by
  rw [h]
  rfl

/-- Three figures behind a point are milliseconds. -/
theorem fraction?_figures (hn : n < 10 ^ 3) (hrest : NoDigitAhead rest) :
    fraction? ('.' :: (figures 3 n ++ rest)) = some (n * 10 ^ 6, rest) := by
  have hspan := spanDigits_append (allDigits_figures 3 n) hrest
  have hrun : (figures 3 n ++ rest).takeWhile isDigit = figures 3 n := congrArg Prod.fst hspan
  have hbehind : (figures 3 n ++ rest).dropWhile isDigit = rest := congrArg Prod.snd hspan
  have hsome : (figures 3 n).isEmpty = false := by
    rw [← Bool.not_eq_true, List.isEmpty_iff_length_eq_zero, length_figures]
    decide
  have htake : (figures 3 n).take 9 = figures 3 n :=
    List.take_of_length_le (by rw [length_figures]; decide)
  unfold fraction?
  simp only [hrun, hbehind, hsome, htake, length_figures, digitsValue_figures hn,
    Bool.false_eq_true, if_false]

theorem trimLeft_figures (h : 0 < width) (n : Nat) (rest : List Char) :
    Text.trimLeft (figures width n ++ rest) = figures width n ++ rest := by
  obtain ⟨c, cs, hcons, hc⟩ := exists_figures_cons h n
  rw [hcons, List.cons_append]
  exact Text.trimLeft_cons_of_not_isBlank (isBlank_of_isDigit hc)

theorem loose?_figures (hn : n < 100) (hrest : NoDigitAhead rest) :
    loose? (figures 2 n ++ rest) = some (n, rest) := by
  rw [loose?, trimLeft_figures (by decide)]
  exact digits?_figures (by decide) (Nat.le_refl 2) hn hrest

/-- A year without a sign. -/
theorem year?_figures (hn : n < 10000) (hrest : NoDigitAhead rest) :
    year? (figures 4 n ++ rest) = some ((n : Int), rest) := by
  have hdigits := digits?_figures (by decide : 1 ≤ 4) (Nat.le_refl 4) hn hrest
  obtain ⟨c, cs, hcons, hc⟩ := exists_figures_cons (by decide : 0 < 4) n
  unfold year?
  rw [trimLeft_figures (by decide)]
  split
  · next heq =>
    rw [hcons] at heq
    obtain ⟨rfl, -⟩ := List.cons.inj heq
    exact absurd hc (by decide)
  · next heq =>
    rw [hcons] at heq
    obtain ⟨rfl, -⟩ := List.cons.inj heq
    exact absurd hc (by decide)
  · rw [hdigits]
    rfl

end Parts

/-! ## Reading dates, times and offsets -/

section Forms

variable {d : Date} {t : Time} {z : Zone} {rest : List Char}

theorem date?_chars (hd : d.Fits) (hrest : NoDigitAhead rest) :
    date? (d.chars ++ rest) = some (d, rest) := by
  have hyear : (d.year.toNat : Int) = d.year := Int.toNat_of_nonneg hd.year.1
  have hfour : d.year.toNat < 10000 := by have := hd.year.2; omega
  simp only [date?, Date.chars, List.append_assoc, List.cons_append,
    year?_figures hfour (noDigitAhead_hyphen _), after?_cons,
    loose?_figures hd.month (noDigitAhead_hyphen _), loose?_figures hd.day hrest,
    Option.bind_eq_bind, Option.bind_some, hyear]

/-- The milliseconds are written, and nothing of the time is below them. -/
theorem Time.Fits.milliseconds (ht : t.Fits) :
    t.nanosecond / 1000000 < 10 ^ 3 ∧ t.nanosecond / 1000000 * 10 ^ 6 = t.nanosecond :=
  ⟨by have := ht.nanosecond.1; omega, Nat.div_mul_cancel ht.nanosecond.2⟩

theorem time?_chars (ht : t.Fits) (hrest : NoDigitAhead rest) :
    time? (t.chars ++ rest) = if rest.isEmpty then some t else none := by
  obtain ⟨hthousand, hnanosecond⟩ := ht.milliseconds
  simp only [time?, Time.chars, List.append_assoc, List.cons_append, after?_cons,
    loose?_figures ht.hour (noDigitAhead_colon _), loose?_figures ht.minute (noDigitAhead_colon _),
    loose?_figures ht.second (noDigitAhead_point _),
    fraction?_figures hthousand hrest, hnanosecond, Option.bind_eq_bind, Option.bind_some]

/-- What follows the sign of an offset. -/
theorem digits?_offset {hours minutes : Nat} (hhours : hours < 100) (hminutes : minutes < 100) :
    digits? 2 2 (figures 2 hours ++ ':' :: figures 2 minutes) =
      some (hours, ':' :: figures 2 minutes) ∧
    digits? 2 2 (figures 2 minutes) = some (minutes, []) := by
  have hlast := digits?_figures (Nat.le_refl 2) (Nat.le_refl 2) hminutes noDigitAhead_nil
  rw [List.append_nil] at hlast
  exact ⟨digits?_figures (Nat.le_refl 2) (Nat.le_refl 2) hhours (noDigitAhead_colon _),
    hlast⟩

theorem offset?_chars (hz : z.Fits) :
    offset? z.chars = if z.Exists then some z.offset else none := by
  cases z with
  | utc => rfl
  | ahead hours minutes =>
    obtain ⟨hhours, hminutes⟩ := digits?_offset hz.1 hz.2
    simp [offset?, Zone.chars, offsetSign?, hhours, hminutes, after?_cons, Zone.Exists, Zone.offset]
  | behind hours minutes =>
    obtain ⟨hhours, hminutes⟩ := digits?_offset hz.1 hz.2
    simp [offset?, Zone.chars, offsetSign?, hhours, hminutes, after?_cons, Zone.Exists, Zone.offset]

theorem Zone.noDigitAhead_chars (z : Zone) : NoDigitAhead z.chars := by
  cases z <;> exact noDigitAhead_cons rfl _

end Forms

/-! ## Timestamps -/

section Timestamps

variable {d : Date} {t : Time} {rest : List Char}

/-- A date and a time of day. -/
def localChars (d : Date) (t : Time) : List Char :=
  d.chars ++ 'T' :: t.chars

/-- A date and a time of day at an offset. -/
def zonedChars (d : Date) (t : Time) (z : Zone) : List Char :=
  localChars d t ++ z.chars

/-- Up to the offset. -/
theorem timestamp?_append (hd : d.Fits) (ht : t.Fits) (hrest : NoDigitAhead rest) :
    timestamp? (localChars d t ++ rest) = (offset? rest).bind (instant? d t) := by
  obtain ⟨hthousand, hnanosecond⟩ := ht.milliseconds
  have hyear : (d.year.toNat : Int) = d.year := Int.toNat_of_nonneg hd.year.1
  have hfour : d.year.toNat < 10 ^ 4 := by have := hd.year.2; omega
  have two {n : Nat} (hn : n < 10 ^ 2) {rest : List Char} (hrest : NoDigitAhead rest) :
      digits? 2 2 (figures 2 n ++ rest) = some (n, rest) :=
    digits?_figures (Nat.le_refl 2) (Nat.le_refl 2) hn hrest
  have four {rest : List Char} (hrest : NoDigitAhead rest) :
      digits? 4 4 (figures 4 d.year.toNat ++ rest) = some (d.year.toNat, rest) :=
    digits?_figures (Nat.le_refl 4) (Nat.le_refl 4) hfour hrest
  have hfirst (cs : List Char) :
      (after? 'T' ('T' :: cs) <|> after? 't' ('T' :: cs) <|> after? ' ' ('T' :: cs)) = some cs := rfl
  simp only [localChars, Date.chars, Time.chars, List.append_assoc, List.cons_append]
  unfold timestamp?
  simp only [↓bind_of_eq_some (four (noDigitAhead_hyphen _)),
    ↓bind_of_eq_some (after?_cons _ _), ↓bind_of_eq_some (two hd.month (noDigitAhead_hyphen _)),
    ↓bind_of_eq_some (two hd.day (noDigitAhead_designator _)), ↓bind_of_eq_some (hfirst _),
    ↓bind_of_eq_some (two ht.hour (noDigitAhead_colon _)),
    ↓bind_of_eq_some (two ht.minute (noDigitAhead_colon _)),
    ↓bind_of_eq_some (two ht.second (noDigitAhead_point _)),
    ↓bind_of_eq_some (fraction?_figures hthousand hrest), hyear, hnanosecond]
  rfl

/-- A date alone is no timestamp. -/
theorem timestamp?_chars (hd : d.Fits) : timestamp? d.chars = none := by
  have hfour : d.year.toNat < 10 ^ 4 := by have := hd.year.2; omega
  have hyear := digits?_figures (Nat.le_refl 4) (Nat.le_refl 4) hfour
    (noDigitAhead_hyphen (figures 2 d.month ++ '-' :: figures 2 d.day))
  have hmonth := digits?_figures (Nat.le_refl 2) (Nat.le_refl 2) hd.month
    (noDigitAhead_hyphen (figures 2 d.day))
  have hday := digits?_figures (Nat.le_refl 2) (Nat.le_refl 2) hd.day noDigitAhead_nil
  rw [List.append_nil] at hday
  unfold timestamp?
  simp only [Date.chars, ↓bind_of_eq_some hyear, ↓bind_of_eq_some hmonth, ↓bind_of_eq_some hday,
    ↓bind_of_eq_some (after?_cons _ _)]
  rfl

theorem dateTime?_append (hd : d.Fits) (ht : t.Fits) (hrest : NoDigitAhead rest) :
    dateTime? (localChars d t ++ rest) = if rest.isEmpty then instant? d t 0 else none := by
  rw [localChars, List.append_assoc, List.cons_append]
  simp only [dateTime?, date?_chars hd (noDigitAhead_designator _), after?_cons,
    time?_chars ht hrest, Option.bind_eq_bind, Option.bind_some]
  cases rest <;> rfl

theorem dateTime?_chars (hd : d.Fits) : dateTime? d.chars = none := by
  have hdate := date?_chars hd noDigitAhead_nil
  rw [List.append_nil] at hdate
  rw [dateTime?, hdate]
  rfl

theorem dateOnly?_append (hd : d.Fits) (hrest : NoDigitAhead rest) :
    dateOnly? (d.chars ++ rest) = if rest.isEmpty then instant? d .midnight 0 else none := by
  rw [dateOnly?, date?_chars hd hrest]
  rfl

end Timestamps

/-! ## The three forms -/

section Instants

variable {d : Date} {t : Time} {z : Zone}

theorem Date.isBlank_chars (d : Date) : ∀ c ∈ d.chars, Text.isBlank c = false := by
  simp only [Date.chars, List.forall_mem_append, List.forall_mem_cons]
  exact ⟨isBlank_figures _ _, rfl, isBlank_figures _ _, rfl, isBlank_figures _ _⟩

theorem Time.isBlank_chars (t : Time) : ∀ c ∈ t.chars, Text.isBlank c = false := by
  simp only [Time.chars, List.forall_mem_append, List.forall_mem_cons]
  exact ⟨isBlank_figures _ _, rfl, isBlank_figures _ _, rfl, isBlank_figures _ _, rfl,
    isBlank_figures _ _⟩

theorem isBlank_localChars (d : Date) (t : Time) :
    ∀ c ∈ localChars d t, Text.isBlank c = false := by
  simp only [localChars, List.forall_mem_append, List.forall_mem_cons]
  exact ⟨d.isBlank_chars, rfl, t.isBlank_chars⟩

theorem isBlank_zonedChars (d : Date) (t : Time) (z : Zone) :
    ∀ c ∈ zonedChars d t z, Text.isBlank c = false := by
  have hoffset (hours minutes : Nat) :
      ∀ c ∈ figures 2 hours ++ ':' :: figures 2 minutes, Text.isBlank c = false := by
    simp only [List.forall_mem_append, List.forall_mem_cons]
    exact ⟨isBlank_figures _ _, rfl, isBlank_figures _ _⟩
  rw [zonedChars, List.forall_mem_append]
  refine ⟨isBlank_localChars d t, ?_⟩
  cases z with
  | utc => simp only [Zone.chars, List.mem_singleton]; rintro c rfl; rfl
  | ahead hours minutes => exact List.forall_mem_cons.mpr ⟨rfl, hoffset hours minutes⟩
  | behind hours minutes => exact List.forall_mem_cons.mpr ⟨rfl, hoffset hours minutes⟩

theorem ofChars?_zonedChars (hd : d.Fits) (ht : t.Fits) (hz : z.Fits) :
    timestamp? (zonedChars d t z) = (if z.Exists then instant? d t z.offset else none) ∧
      dateTime? (zonedChars d t z) = none ∧ dateOnly? (zonedChars d t z) = none := by
  have hsome : z.chars.isEmpty = false := by cases z <;> rfl
  refine ⟨?_, ?_, ?_⟩
  · rw [zonedChars, timestamp?_append hd ht z.noDigitAhead_chars, offset?_chars hz]
    split <;> rfl
  · rw [zonedChars, dateTime?_append hd ht z.noDigitAhead_chars, hsome]
    rfl
  · rw [zonedChars, localChars, List.append_assoc, List.cons_append,
      dateOnly?_append hd (noDigitAhead_designator _)]
    rfl

theorem ofChars?_localChars (hd : d.Fits) (ht : t.Fits) :
    timestamp? (localChars d t) = none ∧ dateTime? (localChars d t) = instant? d t 0 ∧
      dateOnly? (localChars d t) = none := by
  have hstamp := timestamp?_append hd ht noDigitAhead_nil
  have htime := dateTime?_append hd ht noDigitAhead_nil
  rw [List.append_nil] at hstamp htime
  refine ⟨hstamp, htime, ?_⟩
  rw [localChars, dateOnly?_append hd (noDigitAhead_designator _)]
  rfl

theorem ofChars?_chars (hd : d.Fits) :
    timestamp? d.chars = none ∧ dateTime? d.chars = none ∧
      dateOnly? d.chars = instant? d .midnight 0 := by
  have hdate := dateOnly?_append hd noDigitAhead_nil
  rw [List.append_nil] at hdate
  exact ⟨timestamp?_chars hd, dateTime?_chars hd, hdate⟩

theorem Date.Fits.isValid_iff (hd : d.Fits) : d.isValid = true ↔ d.Exists := by
  obtain ⟨hfirst, hlast⟩ := hd.year
  simp only [Date.isValid, Date.Exists, Bool.and_eq_true, decide_eq_true_eq]
  omega

theorem instant?_eq_some (hd : d.Fits) (hexists : d.Exists) (ht : t.isValid = true) (offset : Int) :
    instant? d t offset = some (instant d t offset) := by
  rw [instant?, hd.isValid_iff.mpr hexists, ht]
  rfl

theorem instant?_eq_none_of_date (hd : d.Fits) (hnot : ¬ d.Exists) (t : Time) (offset : Int) :
    instant? d t offset = none := by
  rw [instant?, Bool.eq_false_iff.mpr (mt hd.isValid_iff.mp hnot)]
  rfl

theorem instant?_eq_none_of_time (ht : t.isValid = false) (d : Date) (offset : Int) :
    instant? d t offset = none := by
  rw [instant?, ht, Bool.and_false]
  rfl

end Instants

/-- The text of a date, with white space before it and after it. -/
def readWithin (before after cs : List Char) : Option Int :=
  ofString? (String.ofList (before ++ cs ++ after))

theorem readWithin_eq {before after cs : List Char}
    (hbefore : ∀ c ∈ before, Text.isBlank c = true) (hafter : ∀ c ∈ after, Text.isBlank c = true)
    (hcs : ∀ c ∈ cs, Text.isBlank c = false) :
    readWithin before after cs =
      (timestamp? cs).or ((dateTime? cs).or (dateOnly? cs)) := by
  rw [readWithin, ofString?, String.toList_ofList, ofChars?,
    Text.trimChars_around hbefore hafter hcs]
  simp only [Option.orElse_eq_orElse, Option.orElse_eq_or]

/-- All three forms denote the instant of the civil time. -/
theorem readWithin_written {d : Date} {t : Time} {z : Zone} {before after : List Char}
    (hbefore : ∀ c ∈ before, Text.isBlank c = true) (hafter : ∀ c ∈ after, Text.isBlank c = true)
    (hd : d.Fits) (ht : t.Fits) (hz : z.Fits) :
    readWithin before after (zonedChars d t z) =
        (if z.Exists then instant? d t z.offset else none) ∧
      readWithin before after (localChars d t) = instant? d t 0 ∧
      readWithin before after d.chars = instant? d .midnight 0 := by
  obtain ⟨hzoned, hzoned', hzoned''⟩ := ofChars?_zonedChars hd ht hz
  obtain ⟨hlocal, hlocal', hlocal''⟩ := ofChars?_localChars hd ht
  obtain ⟨hdate, hdate', hdate''⟩ := ofChars?_chars hd
  refine ⟨?_, ?_, ?_⟩
  · rw [readWithin_eq hbefore hafter (isBlank_zonedChars d t z), hzoned, hzoned', hzoned'']
    simp
  · rw [readWithin_eq hbefore hafter (isBlank_localChars d t), hlocal, hlocal', hlocal'']
    simp
  · rw [readWithin_eq hbefore hafter d.isBlank_chars, hdate, hdate', hdate'']
    simp

/-- A date of the calendar is a certain number of days from the first of January 1970. With a time
of day and an offset, its text denotes the milliseconds up to that day and time, less the offset;
without an offset it denotes the same as at universal time, and the date alone denotes its midnight.
Texts of dates that the calendar does not have, of times that no day has and of offsets of a day or
more denote nothing. -/
theorem readWithin_denotes {d : Date} {t : Time} {before after : List Char}
    (hbefore : ∀ c ∈ before, Text.isBlank c = true) (hafter : ∀ c ∈ after, Text.isBlank c = true)
    (hd : d.Fits) (ht : t.Fits) :
    (d.Exists → ∃ n, (∀ m, d.IsDay m ↔ m = n) ∧
        readWithin before after d.chars = some (n * 86400000) ∧
        (t.isValid = true → ∀ z : Zone, z.Fits → z.Exists →
          readWithin before after (zonedChars d t z) =
            some (n * 86400000 + ((t.hour * 60 + t.minute) * 60 + t.second) * 1000 +
              t.nanosecond / 1000000 - z.offset * 60000))) ∧
      readWithin before after (localChars d t) = readWithin before after (zonedChars d t .utc) ∧
      (d.month = 0 ∨ 12 < d.month ∨ d.day = 0 ∨ daysInMonth d.year d.month < d.day →
        readWithin before after d.chars = none ∧ readWithin before after (localChars d t) = none ∧
          ∀ z : Zone, z.Fits → readWithin before after (zonedChars d t z) = none) ∧
      (24 ≤ t.hour ∨ 60 ≤ t.minute ∨ 60 < t.second →
        readWithin before after (localChars d t) = none ∧
          ∀ z : Zone, z.Fits → readWithin before after (zonedChars d t z) = none) ∧
      ∀ z : Zone, z.Fits → ¬ z.Exists → readWithin before after (zonedChars d t z) = none := by
  have hzoned (z : Zone) (hz : z.Fits) := (readWithin_written hbefore hafter hd ht hz).1
  obtain ⟨hutc, hlocal, hdate⟩ := readWithin_written hbefore hafter hd ht (z := .utc) trivial
  have hnone (hnot : ∀ offset, instant? d t offset = none) :
      readWithin before after (localChars d t) = none ∧
        ∀ z : Zone, z.Fits → readWithin before after (zonedChars d t z) = none :=
    ⟨hlocal.trans (hnot 0), fun z hz => by rw [hzoned z hz, hnot, ite_self]⟩
  refine ⟨fun hexists => ?_, ?_, fun hmissing => ?_, fun hmissing => ?_, fun z hz hnot => ?_⟩
  · refine ⟨d.epochDay, fun m => Date.isDay_iff hexists, ?_, fun hvalid z hz hoffset => ?_⟩
    · rw [hdate, instant?_eq_some hd hexists rfl]
      simp [instant, Time.milliseconds, Time.midnight]
    · rw [hzoned z hz, if_pos hoffset, instant?_eq_some hd hexists hvalid]
      simp only [instant, Time.milliseconds]
      push_cast
      rw [Int.add_assoc]
  · rw [hlocal, hutc]
    rfl
  · have hnot : ¬ d.Exists := fun hexists => by
      have hmonth := hexists.month
      obtain ⟨hfirst, hlast⟩ := hexists
      omega
    exact ⟨hdate.trans (instant?_eq_none_of_date hd hnot _ _),
      hnone (instant?_eq_none_of_date hd hnot t)⟩
  · have hvalid : t.isValid = false := by
      simp only [Time.isValid, Bool.and_eq_false_iff, decide_eq_false_iff_not]
      omega
    exact hnone (instant?_eq_none_of_time hvalid d)
  · rw [hzoned z hz, if_neg hnot]

/-- Half past midnight of a leap day before 1970, written at an offset that makes it the day before;
and the same day of the year before, which had none. -/
theorem readWithin_denotes_leapDay :
    readWithin [' '] ['\n']
        (zonedChars ⟨1968, 2, 29⟩ ⟨0, 30, 15, 250000000⟩ (.ahead 5 30)) = some (-58078784750) ∧
      readWithin [' '] ['\n']
        (zonedChars ⟨1967, 2, 29⟩ ⟨0, 30, 15, 250000000⟩ (.ahead 5 30)) = none := by
  have hbefore : ∀ c ∈ [' '], Text.isBlank c = true :=
    List.forall_mem_singleton.mpr (by decide)
  have hafter : ∀ c ∈ ['\n'], Text.isBlank c = true :=
    List.forall_mem_singleton.mpr (by decide)
  have ht : Time.Fits ⟨0, 30, 15, 250000000⟩ :=
    ⟨by decide, by decide, by decide, by decide, by decide⟩
  have hz : Zone.Fits (.ahead 5 30) := ⟨by decide, by decide⟩
  have hleap : Date.Fits ⟨1968, 2, 29⟩ := ⟨by decide, by decide, by decide⟩
  have hcommon : Date.Fits ⟨1967, 2, 29⟩ := ⟨by decide, by decide, by decide⟩
  obtain ⟨n, hn, -, htext⟩ := (readWithin_denotes hbefore hafter hleap ht).1 (by decide)
  obtain rfl := (hn (Date.epochDay ⟨1968, 2, 29⟩)).mp ((Date.isDay_iff (by decide)).mpr rfl)
  refine ⟨(htext rfl (.ahead 5 30) hz ⟨by decide, by decide⟩).trans (by decide), ?_⟩
  exact ((readWithin_denotes hbefore hafter hcommon ht).2.2.1 (by decide)).2.2 (.ahead 5 30) hz

end Calendar

end TagGraph
