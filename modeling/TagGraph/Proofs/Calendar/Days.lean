import Mathlib.Order.SuccPred.Basic
import Mathlib.Algebra.Order.Group.Int
import Mathlib.Logic.Function.Iterate
import Mathlib.Tactic.IntervalCases
import TagGraph.Calendar.Instant

/-!
# Counting days

The number of a day is computed from the year, the month and the day of the month. It is the number
that one comes to by counting the days along the calendar, one after the other, from the first of
January 1970 on or up to it (`Date.isDay_iff`). A date with a greater year, month or day is a later
one (`Date.epochDay_lt_iff`).
-/

namespace TagGraph.Calendar

namespace Date

variable {a b d : Date}

/-! ## Months and years -/

/-- The calendar has the date. -/
def Exists (d : Date) : Prop :=
  1 ≤ d.day ∧ d.day ≤ daysInMonth d.year d.month

instance (d : Date) : Decidable d.Exists :=
  inferInstanceAs (Decidable (_ ∧ _))

/-- Numbers other than 1 to 12 are no months. -/
theorem Exists.month (h : d.Exists) : 1 ≤ d.month ∧ d.month ≤ 12 := by
  obtain ⟨hfirst, hlast⟩ := h
  unfold daysInMonth at hlast
  split at hlast <;> omega

theorem one_le_daysInMonth (year : Int) {month : Nat} (h : 1 ≤ month ∧ month ≤ 12) :
    1 ≤ daysInMonth year month := by
  obtain ⟨hfirst, hlast⟩ := h
  unfold daysInMonth
  cases isLeapYear year <;> interval_cases month <;> decide

theorem daysBeforeMonth_succ (year : Int) {month : Nat} (h : 1 ≤ month) :
    daysBeforeMonth year (month + 1) = daysBeforeMonth year month + daysInMonth year month := by
  obtain ⟨before, rfl⟩ := Nat.exists_eq_add_of_le' h
  rw [daysBeforeMonth, Nat.add_sub_cancel, List.range_succ, List.foldl_append]
  rfl

theorem daysBeforeMonth_mono (year : Int) {month later : Nat} (h : month ≤ later) :
    daysBeforeMonth year month ≤ daysBeforeMonth year later := by
  refine monotone_nat_of_le_succ (fun month => ?_) h
  cases month with
  | zero => exact Nat.le_refl _
  | succ month =>
    rw [daysBeforeMonth_succ year (Nat.le_add_left 1 month)]
    exact Nat.le_add_right _ _

/-- A year is as long as its twelve months. -/
theorem daysBeforeYear_succ (year : Int) :
    daysBeforeYear (year + 1) = daysBeforeYear year + daysBeforeMonth year 13 := by
  have hmonths : daysBeforeMonth year 13 = if isLeapYear year then 366 else 365 := by
    unfold daysBeforeMonth daysInMonth
    cases isLeapYear year <;> rfl
  have hleap : isLeapYear year = true ↔ year % 4 = 0 ∧ (year % 100 ≠ 0 ∨ year % 400 = 0) := by
    simp [isLeapYear]
  rw [hmonths]
  unfold daysBeforeYear
  by_cases h : isLeapYear year = true
  · rw [if_pos h]
    rw [hleap] at h
    omega
  · rw [if_neg h]
    rw [hleap] at h
    omega

theorem daysBeforeYear_mono {year later : Int} (h : year ≤ later) :
    daysBeforeYear year ≤ daysBeforeYear later := by
  refine monotone_int_of_le_succ (fun year => ?_) h
  rw [daysBeforeYear_succ]
  omega

/-! ## One day after the other -/

/-- The day after a date. -/
def next (d : Date) : Date :=
  if d.day < daysInMonth d.year d.month then { d with day := d.day + 1 }
  else if d.month < 12 then ⟨d.year, d.month + 1, 1⟩
  else ⟨d.year + 1, 1, 1⟩

/-- The day from which days are counted. -/
def epoch : Date := ⟨1970, 1, 1⟩

theorem Exists.next (h : d.Exists) : d.next.Exists := by
  have hmonth := h.month
  unfold Date.next
  split
  · next hlt => exact ⟨Nat.le_add_left 1 _, hlt⟩
  · split
    · next hlt => exact ⟨Nat.le_refl 1, one_le_daysInMonth d.year ⟨Nat.le_add_left 1 _, hlt⟩⟩
    · exact ⟨Nat.le_refl 1, one_le_daysInMonth (d.year + 1) ⟨Nat.le_refl 1, Nat.le_add_left 1 11⟩⟩

theorem epochDay_next (h : d.Exists) : d.next.epochDay = d.epochDay + 1 := by
  obtain ⟨hfirst, hlast⟩ := h
  have hmonth := Exists.month ⟨hfirst, hlast⟩
  have hthrough := daysBeforeMonth_succ d.year hmonth.1
  unfold Date.next
  split
  · unfold epochDay
    simp only
    omega
  · split
    -- The first of the next month comes after all days of this one.
    · unfold epochDay
      simp only [hthrough]
      omega
    -- The first of January comes after all months of the year before.
    · have hdecember : d.month + 1 = 13 := by omega
      have hyear := daysBeforeYear_succ d.year
      have hjanuary : daysBeforeMonth (d.year + 1) 1 = 0 := rfl
      rw [hdecember] at hthrough
      unfold epochDay
      simp only [hjanuary]
      omega

/-- Counting on goes through dates of the calendar. -/
theorem iterate_next (h : d.Exists) (days : Nat) :
    (Date.next^[days] d).Exists ∧ (Date.next^[days] d).epochDay = d.epochDay + days := by
  induction days with
  | zero => exact ⟨h, (Int.add_zero _).symm⟩
  | succ days ih =>
    rw [Function.iterate_succ_apply', epochDay_next ih.1, ih.2]
    exact ⟨ih.1.next, by omega⟩

/-! ## The order of dates -/

/-- A date has a lesser year, or a lesser month in the same year, or a lesser day in the same
month. -/
def Before (a b : Date) : Prop :=
  a.year < b.year ∨ a.year = b.year ∧ (a.month < b.month ∨ a.month = b.month ∧ a.day < b.day)

/-- The days of a date lie within its month and its year. -/
theorem epochDay_lt_of_before (ha : a.Exists) (hb : b.Exists) (h : a.Before b) :
    a.epochDay < b.epochDay := by
  have hmonth := daysBeforeMonth_succ a.year ha.month.1
  obtain ⟨hfirst, hlast⟩ := ha
  obtain ⟨hfirst', hlast'⟩ := hb
  unfold epochDay
  rcases h with hyear | ⟨hyear, hlt | ⟨hsame, hday⟩⟩
  · have hwithin : daysBeforeMonth a.year (a.month + 1) ≤ daysBeforeMonth a.year 13 :=
      daysBeforeMonth_mono a.year (by have := Exists.month ⟨hfirst, hlast⟩; omega)
    have hnext := daysBeforeYear_succ a.year
    have hyears : daysBeforeYear (a.year + 1) ≤ daysBeforeYear b.year := daysBeforeYear_mono hyear
    omega
  · have hmonths : daysBeforeMonth a.year (a.month + 1) ≤ daysBeforeMonth a.year b.month :=
      daysBeforeMonth_mono a.year hlt
    rw [← hyear]
    omega
  · rw [← hyear, ← hsame]
    omega

theorem before_trichotomy (a b : Date) : a.Before b ∨ a = b ∨ b.Before a := by
  obtain ⟨year, month, day⟩ := a
  obtain ⟨year', month', day'⟩ := b
  simp only [Before, Date.mk.injEq]
  omega

theorem epochDay_lt_iff (ha : a.Exists) (hb : b.Exists) : a.epochDay < b.epochDay ↔ a.Before b := by
  refine ⟨fun hlt => ?_, epochDay_lt_of_before ha hb⟩
  rcases before_trichotomy a b with h | rfl | h
  · exact h
  · exact absurd hlt (Int.lt_irrefl _)
  · exact absurd hlt (Int.lt_asymm (epochDay_lt_of_before hb ha h))

/-- Different dates are different days. -/
theorem epochDay_inj (ha : a.Exists) (hb : b.Exists) : a.epochDay = b.epochDay ↔ a = b := by
  refine ⟨fun heq => ?_, fun heq => by rw [heq]⟩
  rcases before_trichotomy a b with h | h | h
  · exact absurd heq (Int.ne_of_lt (epochDay_lt_of_before ha hb h))
  · exact h
  · exact absurd heq.symm (Int.ne_of_lt (epochDay_lt_of_before hb ha h))

/-! ## The number of a day -/

/-- A date is so many days after the first of January 1970; or, if the number is negative, that is
so many days after the date. -/
def IsDay (d : Date) (n : Int) : Prop :=
  Date.next^[n.toNat] epoch = Date.next^[(-n).toNat] d

/-- Each date of the calendar has one number, which is the one that is computed. -/
theorem isDay_iff (h : d.Exists) {n : Int} : d.IsDay n ↔ n = d.epochDay := by
  have hepoch : epoch.Exists := by decide
  obtain ⟨hforth, hafter⟩ := iterate_next hepoch n.toNat
  obtain ⟨hback, hbefore⟩ := iterate_next h (-n).toNat
  have hzero : epoch.epochDay = 0 := by decide
  unfold IsDay
  rw [← epochDay_inj hforth hback, hafter, hbefore, hzero]
  omega

end Date

end TagGraph.Calendar
