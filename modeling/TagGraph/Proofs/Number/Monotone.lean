import Mathlib.Tactic.SplitIfs
import TagGraph.Proofs.Number.Rounding
import TagGraph.Table.Cell

/-!
# Rounding keeps the order

A greater quotient is not rounded to a lesser double: at one place the rounded quotients stand in
order, and at a higher place all of them are at least as great as the greatest at a lower one
(`Binary64.rounded_mono`). So the doubles next to whole numbers of sixty-four bits stand in the
order of the numbers (`Binary64.exists_ofInt?_of_fitsLong`, `Binary64.units_le_of_le`), and up to
`2 ^ 53` no two of them are level (`Binary64.units_lt_iff`).
-/

namespace TagGraph.Binary64

/-! ## Rounding a quotient -/

theorem roundDiv_mono {num num' : Nat} (den : Nat) (h : num ≤ num') :
    roundDiv num den ≤ roundDiv num' den := by
  have hfloor : num / den ≤ num' / den := Nat.div_le_div_right h
  have hnum := Nat.div_add_mod num den
  have hnum' := Nat.div_add_mod num' den
  unfold roundDiv
  rcases Nat.lt_or_eq_of_le hfloor with hlt | heq
  -- Rounding adds at most one to the floor.
  · simp only
    split_ifs <;> omega
  · rw [heq] at hnum ⊢
    have hrest : num % den ≤ num' % den := by omega
    simp only
    split_ifs <;> omega

theorem roundDiv_le {num den n : Nat} (hden : 0 < den) (h : num ≤ n * den) :
    roundDiv num den ≤ n := by
  have hmono := roundDiv_mono den h
  rwa [roundDiv_exact hden] at hmono

theorem le_roundDiv {num den n : Nat} (hden : 0 < den) (h : n * den ≤ num) :
    n ≤ roundDiv num den := by
  have hmono := roundDiv_mono den h
  rwa [roundDiv_exact hden] at hmono

/-! ## Rounding at the place of a quotient -/

/-- The value of a double without its sign, in units of the least one. -/
def magnitude (x : Binary64) : Nat :=
  x.significand * 2 ^ (x.exponent + 1074).toNat

theorem units_eq (x : Binary64) :
    x.units = if x.negative then -(x.magnitude : Int) else x.magnitude :=
  rfl

/-- A quotient in units of the least double, rounded at its place. -/
def rounded (num den : Nat) : Nat :=
  let place := (exponentFor num den + 1074).toNat
  roundDiv (num * 2 ^ leastPower) (den * 2 ^ place) * 2 ^ place

section Place

variable {num den place : Nat}

theorem rounded_zero (den : Nat) : rounded 0 den = 0 := by
  have hround : ∀ d : Nat, roundDiv 0 d = 0 := by
    intro d
    unfold roundDiv
    simp
  rw [rounded, Nat.zero_mul]
  simp only [hround, Nat.zero_mul]

theorem rounded_eq (hden : 0 < den) (hnum : num ≠ 0) (h : IsPlace num den place) :
    rounded num den = roundDiv (num * 2 ^ leastPower) (den * 2 ^ place) * 2 ^ place := by
  rw [rounded, h.unique (exponentFor_isPlace hnum hden).2]

/-- Below its place a quotient is rounded to at most `2 ^ 53`. -/
theorem IsPlace.roundDiv_le (hden : 0 < den) (h : IsPlace num den place) :
    roundDiv (num * 2 ^ leastPower) (den * 2 ^ place) ≤ 2 ^ 53 := by
  refine Binary64.roundDiv_le (Nat.mul_pos hden (Nat.two_pow_pos _)) (Nat.le_of_lt ?_)
  rw [Nat.mul_left_comm, ← Nat.mul_assoc]
  exact h.fits

/-- Above the least place a quotient is rounded to `2 ^ 52` at least. -/
theorem IsPlace.le_roundDiv (hden : 0 < den) (h : IsPlace num den place) (hplace : place ≠ 0) :
    2 ^ 52 ≤ roundDiv (num * 2 ^ leastPower) (den * 2 ^ place) := by
  refine Binary64.le_roundDiv (Nat.mul_pos hden (Nat.two_pow_pos _)) ?_
  have hlower : den * 2 ^ 53 * 2 ^ (place - 1) ≤ num * 2 ^ leastPower :=
    Nat.not_lt.mp (h.least (place - 1) (by omega))
  have hpow : 2 ^ 53 * 2 ^ (place - 1) = 2 ^ 52 * 2 ^ place := by
    rw [← Nat.pow_add, ← Nat.pow_add]
    congr 1
    omega
  rwa [Nat.mul_assoc, hpow, Nat.mul_left_comm] at hlower

/-- A greater quotient is rounded to no lesser one. -/
theorem rounded_mono {num' : Nat} (hden : 0 < den) (h : num ≤ num') :
    rounded num den ≤ rounded num' den := by
  by_cases hnum : num = 0
  · rw [hnum, rounded_zero]
    exact Nat.zero_le _
  have hnum' : num' ≠ 0 := by omega
  obtain ⟨-, hp⟩ := exponentFor_isPlace hnum hden
  obtain ⟨-, hq⟩ := exponentFor_isPlace hnum' hden
  rw [rounded_eq hden hnum hp, rounded_eq hden hnum' hq]
  generalize (exponentFor num den + 1074).toNat = p at *
  generalize (exponentFor num' den + 1074).toNat = q at *
  have hscaled : num * 2 ^ leastPower ≤ num' * 2 ^ leastPower := Nat.mul_le_mul_right _ h
  -- The lesser quotient fits wherever the greater one does.
  have hle : p ≤ q :=
    Nat.le_of_not_lt fun hlt => hp.least q hlt (Nat.lt_of_le_of_lt hscaled hq.fits)
  rcases Nat.lt_or_eq_of_le hle with hlt | rfl
  · calc roundDiv (num * 2 ^ leastPower) (den * 2 ^ p) * 2 ^ p
        ≤ 2 ^ 53 * 2 ^ p := Nat.mul_le_mul_right _ (hp.roundDiv_le hden)
      _ ≤ 2 ^ 52 * 2 ^ q := by
        rw [← Nat.pow_add, ← Nat.pow_add]
        exact Nat.pow_le_pow_right (by decide) (by omega)
      _ ≤ roundDiv (num' * 2 ^ leastPower) (den * 2 ^ q) * 2 ^ q :=
        Nat.mul_le_mul_right _ (hq.le_roundDiv hden (by omega))
  · exact Nat.mul_le_mul_right _ (roundDiv_mono _ hscaled)

/-! ## Rounding to a double -/

/-- The place of the greatest doubles. -/
@[irreducible] def highestPlace : Nat := 2045

theorem highestPlace_eq : highestPlace = 2045 := by
  rw [highestPlace]

/-- The value of the greatest double, in units of the least one. -/
def greatestMagnitude : Nat :=
  (2 ^ 53 - 1) * 2 ^ highestPlace

theorem magnitude_le (x : Binary64) : x.magnitude ≤ greatestMagnitude := by
  obtain ⟨hlt, hlow, hhigh, -⟩ := x.normal
  have hhighest := highestPlace_eq
  exact Nat.mul_le_mul (by omega) (Nat.pow_le_pow_right (by decide) (by omega))

/-- A significand of at most 53 bits makes a double at each place where its value is not past the
greatest one. -/
theorem exists_ofParts? {significand : Nat} (hle : significand ≤ 2 ^ 53)
    (hlow : place ≠ 0 → 2 ^ 52 ≤ significand)
    (h : significand * 2 ^ place ≤ greatestMagnitude) (negative : Bool) :
    ∃ x, ofParts? negative significand (place - 1074) = some x ∧ x.negative = negative ∧
      x.magnitude = significand * 2 ^ place := by
  have hhighest := highestPlace_eq
  have hpast : ¬ 2 ^ 53 * 2 ^ highestPlace ≤ greatestMagnitude := fun hle =>
    absurd (Nat.le_of_mul_le_mul_right hle (Nat.two_pow_pos _)) (by decide)
  unfold ofParts?
  by_cases hlt : significand < 2 ^ 53
  · have hplace : place ≤ highestPlace := by
      refine Nat.le_of_not_lt fun hgt => hpast (Nat.le_trans ?_ h)
      calc 2 ^ 53 * 2 ^ highestPlace = 2 ^ 52 * 2 ^ (highestPlace + 1) := by
            rw [← Nat.pow_add, ← Nat.pow_add]
            congr 1
            omega
        _ ≤ significand * 2 ^ place :=
            Nat.mul_le_mul (hlow (by omega)) (Nat.pow_le_pow_right (by decide) hgt)
    have hnormal : IsNormal significand (place - 1074) :=
      ⟨hlt, by omega, by omega, fun hshort => by omega⟩
    refine ⟨_, dif_pos hnormal, rfl, ?_⟩
    show significand * 2 ^ ((place : Int) - 1074 + 1074).toNat = _
    rw [show ((place : Int) - 1074 + 1074).toNat = place by omega]
  -- The significand has become too long by rounding up, and is halved.
  · obtain rfl : significand = 2 ^ 53 := by omega
    have hplace : place < highestPlace := by
      refine Nat.lt_of_not_le fun hge => hpast (Nat.le_trans ?_ h)
      exact Nat.mul_le_mul_left _ (Nat.pow_le_pow_right (by decide) hge)
    have hnot : ¬ IsNormal (2 ^ 53) (place - 1074) := fun h => absurd h.1 (Nat.lt_irrefl _)
    have hnormal : IsNormal (2 ^ 53 / 2) ((place : Int) - 1074 + 1) :=
      ⟨by decide, by omega, by omega, fun hshort => absurd hshort (by decide)⟩
    refine ⟨_, (dif_neg hnot).trans (dif_pos hnormal), rfl, ?_⟩
    show 2 ^ 53 / 2 * 2 ^ ((place : Int) - 1074 + 1 + 1074).toNat = _
    rw [show ((place : Int) - 1074 + 1 + 1074).toNat = 1 + place by omega, Nat.pow_add,
      ← Nat.mul_assoc]
    rfl

/-- There is a double next to a quotient that is not rounded past the greatest one. -/
theorem exists_nearest? (hden : 0 < den) (h : rounded num den ≤ greatestMagnitude)
    (negative : Bool) :
    ∃ x, nearest? negative num den = some x ∧ x.negative = negative ∧
      x.magnitude = rounded num den := by
  by_cases hnum : num = 0
  · subst hnum
    refine ⟨zero negative, nearest?_zero negative den, rfl, ?_⟩
    rw [rounded_zero]
    exact Nat.zero_mul _
  · obtain ⟨-, hplace⟩ := exponentFor_isPlace hnum hden
    rw [rounded_eq hden hnum hplace] at h ⊢
    rw [nearest?_eq hnum hden hplace]
    exact exists_ofParts? (hplace.roundDiv_le hden) (hplace.le_roundDiv hden) h negative

/-- A quotient below `2 ^ 1023` is not rounded past the greatest double. -/
theorem rounded_le_of_fitsAt (hden : 0 < den) (h : FitsAt num den 2044) :
    rounded num den ≤ greatestMagnitude := by
  have hhighest := highestPlace_eq
  by_cases hnum : num = 0
  · rw [hnum, rounded_zero]
    exact Nat.zero_le _
  · obtain ⟨-, hplace⟩ := exponentFor_isPlace hnum hden
    rw [rounded_eq hden hnum hplace]
    generalize (exponentFor num den + 1074).toNat = place at hplace
    have hle : place ≤ 2044 := Nat.le_of_not_lt fun hlt => hplace.least 2044 hlt h
    calc roundDiv (num * 2 ^ leastPower) (den * 2 ^ place) * 2 ^ place
        ≤ 2 ^ 53 * 2 ^ place := Nat.mul_le_mul_right _ (hplace.roundDiv_le hden)
      _ = 2 ^ 52 * 2 ^ (place + 1) := by
        rw [← Nat.pow_add, ← Nat.pow_add]
        congr 1
        omega
      _ ≤ greatestMagnitude :=
        Nat.mul_le_mul (by decide) (Nat.pow_le_pow_right (by decide) (by omega))

end Place

/-! ## Whole numbers -/

/-- There is a double next to a whole number of sixty-four bits. -/
theorem exists_ofInt?_of_fitsLong {i : Int} (h : fitsLong i = true) :
    ∃ x, ofInt? i = some x ∧ x.negative = decide (i < 0) ∧ x.magnitude = rounded i.natAbs 1 := by
  have hlog : i.natAbs.log2 ≤ 63 := by
    by_cases hzero : i.natAbs = 0
    · rw [hzero]
      decide
    · simp only [fitsLong, Bool.and_eq_true, decide_eq_true_eq] at h
      exact Nat.le_of_lt_succ ((Nat.log2_lt hzero).mpr (by omega))
  have hfits : FitsAt i.natAbs 1 2044 := by
    refine fitsAt_of_log2_le (by decide) ?_
    rw [leastPower_eq]
    omega
  exact exists_nearest? (by decide) (rounded_le_of_fitsAt (by decide) hfits) _

/-- The doubles next to whole numbers stand in the order of the numbers. -/
theorem units_le_of_le {i j : Int} (hi : fitsLong i = true) (hj : fitsLong j = true) (h : i ≤ j)
    {x y : Binary64} (hx : ofInt? i = some x) (hy : ofInt? j = some y) : x.units ≤ y.units := by
  obtain ⟨x, hx', hxsign, hxmagnitude⟩ := exists_ofInt?_of_fitsLong hi
  obtain ⟨y, hy', hysign, hymagnitude⟩ := exists_ofInt?_of_fitsLong hj
  obtain rfl := Option.some.inj (hx'.symm.trans hx)
  obtain rfl := Option.some.inj (hy'.symm.trans hy)
  rw [units_eq, units_eq, hxsign, hysign, hxmagnitude, hymagnitude]
  simp only [decide_eq_true_eq]
  by_cases hjneg : j < 0
  · have hmono : rounded j.natAbs 1 ≤ rounded i.natAbs 1 := rounded_mono (by decide) (by omega)
    rw [if_pos (by omega), if_pos hjneg]
    omega
  · rw [if_neg hjneg]
    by_cases hineg : i < 0
    · rw [if_pos hineg]
      omega
    · have hmono : rounded i.natAbs 1 ≤ rounded j.natAbs 1 := rounded_mono (by decide) (by omega)
      rw [if_neg hineg]
      omega

/-- Cutting off the fraction depends on the value alone. -/
theorem truncate_eq (x : Binary64) : x.truncate = x.units.tdiv (2 ^ leastPower : Nat) := by
  have hleast := leastPower_eq
  have hexponent := x.normal.2.1
  have hmagnitude : (if 0 ≤ x.exponent then ((x.significand * 2 ^ x.exponent.toNat : Nat) : Int)
      else ((x.significand / 2 ^ (-x.exponent).toNat : Nat) : Int)) =
        ((x.magnitude / 2 ^ leastPower : Nat) : Int) := by
    unfold magnitude
    by_cases h : 0 ≤ x.exponent
    · rw [if_pos h, show (x.exponent + 1074).toNat = x.exponent.toNat + leastPower by omega,
        Nat.pow_add, ← Nat.mul_assoc, Nat.mul_div_cancel _ (Nat.two_pow_pos _)]
    · rw [if_neg h, show leastPower = (-x.exponent).toNat + (x.exponent + 1074).toNat by omega,
        Nat.pow_add, Nat.mul_div_mul_right _ _ (Nat.two_pow_pos _)]
  unfold truncate
  simp only [hmagnitude]
  rw [units_eq]
  cases x.negative with
  | true =>
    rw [if_pos rfl, if_pos rfl, Int.neg_tdiv]
    rfl
  | false => rfl

/-- Up to `2 ^ 53` the doubles next to whole numbers tell the numbers apart. -/
theorem units_lt_iff {i j : Int} (hi : -2 ^ 53 ≤ i ∧ i ≤ 2 ^ 53) (hj : -2 ^ 53 ≤ j ∧ j ≤ 2 ^ 53)
    {x y : Binary64} (hx : ofInt? i = some x) (hy : ofInt? j = some y) :
    x.units < y.units ↔ i < j := by
  have hfits : ∀ k : Int, -2 ^ 53 ≤ k ∧ k ≤ 2 ^ 53 → fitsLong k = true := by
    intro k hk
    simp only [fitsLong, Bool.and_eq_true, decide_eq_true_eq]
    omega
  obtain ⟨x', hx', hi'⟩ := exists_ofInt? hi.1 hi.2
  obtain ⟨y', hy', hj'⟩ := exists_ofInt? hj.1 hj.2
  obtain rfl := Option.some.inj (hx'.symm.trans hx)
  obtain rfl := Option.some.inj (hy'.symm.trans hy)
  constructor
  · intro h
    exact Int.not_le.mp fun hle => absurd h
      (Int.not_lt.mpr (units_le_of_le (hfits j hj) (hfits i hi) hle hy hx))
  · intro h
    have hle := units_le_of_le (hfits i hi) (hfits j hj) (Int.le_of_lt h) hx hy
    refine Int.lt_iff_le_and_ne.mpr ⟨hle, fun heq => ?_⟩
    have htruncate : i = j := by rw [← hi', ← hj', truncate_eq, truncate_eq, heq]
    omega

end TagGraph.Binary64
