import TagGraph.Proofs.Number.Literal
import TagGraph.Proofs.Number.Scaling

/-!
# The shortest form of a whole number

A double up to `2 ^ 53` that is a whole number is written with its own digits: shorter forms that
read back to it differ from them by zeros at the end, which the exponent makes up for
(`Binary64.tagged_of_hasValue`).
-/

namespace TagGraph

namespace Decimal

/-- Zeros behind the digits. -/
theorem length_digitsOf_mul {n : Nat} (h : n ≠ 0) (zeros : Nat) :
    (digitsOf (n * 10 ^ zeros)).length = (digitsOf n).length + zeros := by
  have hpos : 0 < (digitsOf n).length := Nat.length_toDigits_pos
  have hlt : n < 10 ^ (digitsOf n).length :=
    (Nat.length_toDigits_le_iff (by decide) hpos).mp (Nat.le_refl _)
  refine Nat.le_antisymm ?_ ?_
  · refine (Nat.length_toDigits_le_iff (by decide) (by omega)).mpr ?_
    rw [Nat.pow_add]
    exact Nat.mul_lt_mul_of_pos_right hlt (Nat.pow_pos (by decide))
  · refine Nat.le_of_not_lt fun hshort => ?_
    have hfewer : (digitsOf (n * 10 ^ zeros)).length ≤ (digitsOf n).length - 1 + zeros := by omega
    by_cases hnone : (digitsOf n).length - 1 + zeros = 0
    · exact absurd hfewer (Nat.not_le.mpr (hnone ▸ Nat.length_toDigits_pos))
    · have hmul := (Nat.length_toDigits_le_iff (by decide) (by omega)).mp hfewer
      rw [Nat.pow_add] at hmul
      have hless : n < 10 ^ ((digitsOf n).length - 1) := Nat.lt_of_mul_lt_mul_right hmul
      by_cases hone : (digitsOf n).length = 1
      · rw [hone] at hless
        exact h (Nat.lt_one_iff.mp hless)
      · have hle := (Nat.length_toDigits_le_iff (b := 10) (by decide) (by omega)).mpr hless
        exact absurd hle (Nat.not_le.mpr (Nat.sub_lt hpos (by decide)))

/-- Zeros at the end of the digits move into the exponent. -/
theorem stripZeros_value (negative : Bool) (fuel : Nat) : ∀ (digits : Nat) (exponent : Int),
    0 ≤ exponent →
      0 ≤ (stripZeros negative fuel digits exponent).exponent ∧
      (stripZeros negative fuel digits exponent).digits *
          10 ^ (stripZeros negative fuel digits exponent).exponent.toNat =
        digits * 10 ^ exponent.toNat := by
  induction fuel with
  | zero => exact fun digits exponent h => ⟨h, rfl⟩
  | succ fuel ih =>
    intro digits exponent h
    rw [stripZeros]
    by_cases hzero : digits ≠ 0 ∧ digits % 10 = 0
    · obtain ⟨hexponent, hvalue⟩ := ih (digits / 10) (exponent + 1) (by omega)
      rw [if_pos hzero]
      refine ⟨hexponent, hvalue.trans ?_⟩
      rw [show (exponent + 1).toNat = exponent.toNat + 1 by omega, Nat.pow_succ', ← Nat.mul_assoc,
        Nat.div_mul_cancel (Nat.dvd_of_mod_eq_zero hzero.2)]
    · rw [if_neg hzero]
      exact ⟨h, rfl⟩

end Decimal

namespace Binary64

variable {x : Binary64} {n : Nat}

theorem HasValue.eq {m : Nat} (h : x.HasValue n) (h' : x.HasValue m) : n = m :=
  Nat.eq_of_mul_eq_mul_right x.ratio_pos (h.symm.trans h')

theorem HasValue.significand_eq_zero_iff (h : x.HasValue n) : x.significand = 0 ↔ n = 0 := by
  have hratio : x.significand * 2 ^ x.exponent.toNat = n * x.ratio.2 := h
  constructor
  · intro hzero
    rw [hzero, Nat.zero_mul] at hratio
    exact (Nat.mul_eq_zero.mp hratio.symm).resolve_right (Nat.ne_of_gt x.ratio_pos)
  · rintro rfl
    rw [Nat.zero_mul] at hratio
    exact (Nat.mul_eq_zero.mp hratio).resolve_right (Nat.ne_of_gt (Nat.two_pow_pos _))

/-- The point of a whole number stands behind its digits. -/
theorem HasValue.decimalPoint (h : x.HasValue n) (hn : n ≠ 0) :
    x.decimalPoint = (Decimal.digitsOf n).length := by
  have hscaled : x.ratio.1 * 10 ^ 340 / x.ratio.2 = n * 10 ^ 340 := by
    rw [h, Nat.mul_right_comm, Nat.mul_div_cancel _ x.ratio_pos]
  rw [Binary64.decimalPoint]
  simp only [hscaled]
  rw [Decimal.length_digitsOf_mul hn]
  omega

/-- The grid of whole tens, hundreds and so on below a whole number. -/
theorem HasValue.gridFloor_fst (h : x.HasValue n) (place : Nat) :
    (x.gridFloor place).1 = n / 10 ^ place := by
  show x.ratio.1 * 10 ^ (-(place : Int)).toNat / (x.ratio.2 * 10 ^ (place : Int).toNat) = _
  rw [show (-(place : Int)).toNat = 0 by omega, Nat.pow_zero, Nat.mul_one, Int.toNat_natCast, h,
    Nat.mul_comm n, Nat.mul_div_mul_left _ _ x.ratio_pos]

/-- Twice a whole number up to `2 ^ 53` is a double. -/
theorem exists_even (h : n ≤ 2 ^ 53) (negative : Bool) :
    ∃ y, nearest? negative (n * 2) 1 = some y ∧ y.HasValue (n * 2) := by
  by_cases hlt : n < 2 ^ 53
  · obtain ⟨y, hy, -, hvalue⟩ := exists_hasValue hlt (show 1 ≤ 971 by decide) negative
    exact ⟨y, hy, hvalue⟩
  · obtain rfl : n = 2 ^ 53 := by omega
    obtain ⟨y, hy, -, hvalue⟩ := exists_hasValue (show 2 ^ 52 < 2 ^ 53 by decide)
      (show 2 ≤ 971 by decide) negative
    exact ⟨y, hy, hvalue⟩

/-- What is found on a grid is one of the two neighbours, and reads back. -/
theorem onGrid?_eq_some {tie : Tie} {length : Nat} {d : Decimal}
    (h : x.onGrid? tie length = some d) :
    d.toBinary64? = some x ∧ d.exponent = x.decimalPoint - length ∧
      (d.digits = (x.gridFloor (x.decimalPoint - length)).1 ∨
        d.digits = (x.gridFloor (x.decimalPoint - length)).1 + 1) := by
  unfold onGrid? at h
  simp only at h
  generalize x.decimalPoint - length = place at *
  generalize x.gridFloor place = grid at *
  have hreads : x.readsBack d = true := List.find?_some h
  refine ⟨eq_of_beq hreads, ?_⟩
  have hmem := List.mem_of_find?_eq_some h
  simp only [List.mem_cons, List.not_mem_nil, or_false] at hmem
  rcases hmem with rfl | rfl <;> split <;> simp

/-- What is found on a grid of tens has the value of the number: below `2 ^ 54` even numbers are
doubles, so that no other one of them reads back. -/
theorem HasValue.onGrid?_value (h : x.HasValue n) (hn : n ≠ 0) (hle : n ≤ 2 ^ 53) {length : Nat}
    (hpos : 0 < length) (hlength : length < (Decimal.digitsOf n).length) {d : Decimal}
    (hd : x.onGrid? .toEven length = some d) :
    0 ≤ d.exponent ∧ d.digits * 10 ^ d.exponent.toNat = n := by
  obtain ⟨place, hplace⟩ : ∃ place, (Decimal.digitsOf n).length = length + (place + 1) :=
    ⟨(Decimal.digitsOf n).length - length - 1, by omega⟩
  have hpoint : x.decimalPoint - length = ((place + 1 : Nat) : Int) := by
    rw [h.decimalPoint hn]
    omega
  obtain ⟨hdecimal, hexponent, hdigits⟩ := onGrid?_eq_some hd
  rw [hpoint] at hexponent
  rw [hpoint, h.gridFloor_fst] at hdigits
  -- The grid is no coarser than the number itself.
  have htens : 10 ^ (place + 1) ≤ n := by
    refine Nat.le_of_not_lt fun hlt => ?_
    have hfew := (Nat.length_toDigits_le_iff (b := 10) (by decide) (by omega)).mpr hlt
    have hmany : (Decimal.digitsOf n).length ≤ place + 1 := hfew
    omega
  have hbelow : n / 10 ^ (place + 1) * 10 ^ (place + 1) ≤ n := Nat.div_mul_le_self _ _
  have hmost : d.digits * 10 ^ (place + 1) ≤ 2 ^ 54 := by
    have hstep : d.digits * 10 ^ (place + 1) ≤ (n / 10 ^ (place + 1) + 1) * 10 ^ (place + 1) :=
      Nat.mul_le_mul_right _ (by omega)
    rw [Nat.succ_mul] at hstep
    omega
  have heven : d.digits * 10 ^ (place + 1) = d.digits * 10 ^ place * 5 * 2 := by
    rw [Nat.pow_succ, ← Nat.mul_assoc, Nat.mul_assoc _ 5]
  have hnumerator : d.numerator = d.digits * 10 ^ place * 5 * 2 := by
    rw [Decimal.numerator, hexponent, Int.toNat_natCast, heven]
  have hdenominator : d.denominator = 1 := by
    rw [Decimal.denominator, hexponent, show (-((place + 1 : Nat) : Int)).toNat = 0 by omega,
      Nat.pow_zero]
  obtain ⟨y, hy, hvalue⟩ :=
    exists_even (n := d.digits * 10 ^ place * 5) (by omega) d.negative
  rw [Decimal.toBinary64?_eq, hnumerator, hdenominator, hy] at hdecimal
  obtain rfl := Option.some.inj hdecimal
  refine ⟨by omega, ?_⟩
  rw [hexponent, Int.toNat_natCast, heven]
  exact hvalue.eq h

/-- On the grid of units a whole number is found itself. -/
theorem HasValue.onGrid?_units (h : x.HasValue n) (hn : n ≠ 0) :
    x.onGrid? .toEven (Decimal.digitsOf n).length = some ⟨x.negative, n, 0⟩ := by
  have hpoint : x.decimalPoint - (Decimal.digitsOf n).length = ((0 : Nat) : Int) := by
    rw [h.decimalPoint hn]
    omega
  have hgrid : x.gridFloor ((0 : Nat) : Int) = (n, .lt) := by
    refine Prod.ext ?_ ?_
    · rw [h.gridFloor_fst 0, Nat.pow_zero, Nat.div_one]
    · show compare (2 * (x.ratio.1 * 10 ^ 0 % (x.ratio.2 * 10 ^ 0))) (x.ratio.2 * 10 ^ 0) = .lt
      rw [Nat.pow_zero, Nat.mul_one, Nat.mul_one, h, Nat.mul_mod_left, Nat.mul_zero]
      exact Nat.compare_eq_lt.mpr x.ratio_pos
  have hreads : x.readsBack ⟨x.negative, n, 0⟩ = true := by
    rw [readsBack, Decimal.toBinary64?_eq]
    show (nearest? x.negative (n * 10 ^ 0) (10 ^ 0) == some x) = true
    rw [Nat.pow_zero, Nat.mul_one, h.nearest?_eq]
    exact beq_self_eq_true _
  rw [onGrid?, hpoint, hgrid]
  exact List.find?_cons_of_pos hreads

/-- A whole number up to `2 ^ 53` is written with its own digits, apart from zeros at their end. -/
theorem tagged_of_hasValue (h : x.HasValue n) (hle : n ≤ 2 ^ 53) :
    0 ≤ x.tagged.exponent ∧ x.tagged.digits * 10 ^ x.tagged.exponent.toNat = n := by
  by_cases hn : n = 0
  · rw [tagged_of_zero (h.significand_eq_zero_iff.mpr hn), hn]
    exact ⟨Int.le_refl 0, rfl⟩
  have hpos : 0 < (Decimal.digitsOf n).length := Nat.length_toDigits_pos
  have hfew : (Decimal.digitsOf n).length ≤ 16 :=
    (Nat.length_toDigits_le_iff (by decide) (by decide)).mpr
      (Nat.lt_of_le_of_lt hle (by decide))
  -- The search ends at the grid of units at the latest.
  have hunits := h.onGrid?_units hn
  obtain ⟨more, hmore⟩ : ∃ more, 17 = (Decimal.digitsOf n).length + more :=
    ⟨17 - (Decimal.digitsOf n).length, by omega⟩
  have hsome : ((List.range (Decimal.digitsOf n).length).findSome?
      fun m => x.onGrid? .toEven (m + 1)).isSome := by
    refine List.findSome?_isSome_iff.mpr
      ⟨(Decimal.digitsOf n).length - 1, List.mem_range.mpr (by omega), ?_⟩
    rw [show (Decimal.digitsOf n).length - 1 + 1 = (Decimal.digitsOf n).length by omega, hunits]
    rfl
  obtain ⟨d, hd⟩ := Option.isSome_iff_exists.mp hsome
  have hshortest : x.shortest .toEven = d := by
    rw [shortest, if_neg (mt h.significand_eq_zero_iff.mp hn), hmore, List.range_add,
      List.findSome?_append, hd]
    rfl
  have hvalue : 0 ≤ d.exponent ∧ d.digits * 10 ^ d.exponent.toNat = n := by
    obtain ⟨m, hm, hgrid⟩ := List.exists_of_findSome?_eq_some hd
    rw [List.mem_range] at hm
    by_cases hlast : m + 1 = (Decimal.digitsOf n).length
    · rw [hlast, hunits] at hgrid
      obtain rfl := Option.some.inj hgrid
      exact ⟨Int.le_refl 0, Nat.mul_one n⟩
    · exact h.onGrid?_value hn hle (Nat.succ_pos m) (by omega) hgrid
  obtain ⟨hexponent, hdigits⟩ :=
    Decimal.stripZeros_value d.negative (d.digits.log2 + 1) d.digits d.exponent hvalue.1
  rw [tagged, hshortest]
  exact ⟨hexponent, hdigits.trans hvalue.2⟩

end Binary64

end TagGraph
