import TagGraph.Number.Scaling
import TagGraph.Proofs.Number.Monotone

/-!
# Products and quotients with powers of ten

The powers of ten up to `10 ^ 22` are doubles. A whole number that is a double, times or over one of
them, is therefore rounded once and comes out as the double nearest to the exact result
(`Binary64.scale?_of_hasValue`). Dividing never goes past the greatest double
(`Binary64.exists_scale?_of_nonpos`), and multiplying does not as long as the exact product stays
below the midpoint of the two greatest doubles (`Binary64.exists_scale?_of_le`).
-/

namespace TagGraph.Binary64

/-! ## Values as fractions -/

/-- The fraction that a double stands for, in units of the least double. -/
theorem ratio_mul_leastPower (x : Binary64) :
    x.ratio.1 * 2 ^ leastPower = x.magnitude * x.ratio.2 := by
  have hleast := leastPower_eq
  have hlow := x.normal.2.1
  show x.significand * 2 ^ x.exponent.toNat * 2 ^ leastPower =
    x.significand * 2 ^ (x.exponent + 1074).toNat * 2 ^ (-x.exponent).toNat
  rw [Nat.mul_assoc, Nat.mul_assoc, ← Nat.pow_add, ← Nat.pow_add]
  congr 2
  omega

theorem HasValue.magnitude {x : Binary64} {n : Nat} (h : x.HasValue n) :
    x.magnitude = n * 2 ^ leastPower := by
  have hratio := x.ratio_mul_leastPower
  rw [show x.ratio.1 = n * x.ratio.2 from h, Nat.mul_right_comm] at hratio
  exact (Nat.eq_of_mul_eq_mul_right x.ratio_pos hratio).symm

/-- Doubles compare as their fractions do. -/
theorem ratio_le_of_magnitude_le {x y : Binary64} (h : x.magnitude ≤ y.magnitude) :
    x.ratio.1 * y.ratio.2 ≤ y.ratio.1 * x.ratio.2 := by
  refine Nat.le_of_mul_le_mul_right ?_ (Nat.two_pow_pos leastPower)
  calc x.ratio.1 * y.ratio.2 * 2 ^ leastPower
      = x.magnitude * (x.ratio.2 * y.ratio.2) := by
        rw [Nat.mul_right_comm, ratio_mul_leastPower, Nat.mul_assoc]
    _ ≤ y.magnitude * (x.ratio.2 * y.ratio.2) := Nat.mul_le_mul_right _ h
    _ = y.ratio.1 * x.ratio.2 * 2 ^ leastPower := by
        rw [Nat.mul_right_comm, ratio_mul_leastPower, Nat.mul_assoc, Nat.mul_comm y.ratio.2]

/-- A double is what its own fraction is rounded to. -/
theorem nearest?_ratio (x : Binary64) : nearest? x.negative x.ratio.1 x.ratio.2 = some x := by
  refine nearest?_exact x x.ratio_pos ?_
  rw [ratio_mul_leastPower, Nat.mul_comm]
  rfl

theorem HasValue.nearest?_eq {x : Binary64} {n : Nat} (h : x.HasValue n) :
    nearest? x.negative n 1 = some x := by
  rw [← x.nearest?_ratio]
  refine nearest?_congr (by decide) x.ratio_pos ?_ _
  rw [Nat.mul_one]
  exact h.symm

section Fraction

variable {num den num' den' : Nat} {negative : Bool}

theorem rounded_congr (hden : 0 < den) (hden' : 0 < den') (h : num * den' = num' * den) :
    rounded num den = rounded num' den' := by
  by_cases hnum : num = 0
  · have hnum' : num' = 0 := by
      rw [hnum, Nat.zero_mul] at h
      exact (Nat.mul_eq_zero.mp h.symm).resolve_right (by omega)
    rw [hnum, hnum', rounded_zero, rounded_zero]
  · have hnum' : num' ≠ 0 := by
      rintro rfl
      rw [Nat.zero_mul] at h
      rcases Nat.mul_eq_zero.mp h with h | h <;> omega
    obtain ⟨-, hplace⟩ := exponentFor_isPlace hnum hden
    rw [rounded_eq hden hnum hplace, rounded_eq hden' hnum' (hplace.congr hden hden' h)]
    congr 1
    refine roundDiv_congr (Nat.mul_pos hden (Nat.two_pow_pos _))
      (Nat.mul_pos hden' (Nat.two_pow_pos _)) ?_
    rw [Nat.mul_mul_mul_comm, h, ← Nat.mul_mul_mul_comm]

/-- Rounding keeps the order of fractions. -/
theorem rounded_le_rounded (hden : 0 < den) (hden' : 0 < den') (h : num * den' ≤ num' * den) :
    rounded num den ≤ rounded num' den' :=
  calc rounded num den = rounded (num * den') (den * den') :=
        rounded_congr hden (Nat.mul_pos hden hden') (by ac_rfl)
    _ ≤ rounded (num' * den) (den * den') := rounded_mono (Nat.mul_pos hden hden') h
    _ = rounded num' den' := rounded_congr (Nat.mul_pos hden hden') hden' (by ac_rfl)

/-- The double that a fraction is rounded to has the rounded value. -/
theorem magnitude_of_nearest? {x : Binary64} (hden : 0 < den)
    (h : nearest? negative num den = some x) :
    x.negative = negative ∧ x.magnitude = rounded num den := by
  by_cases hle : rounded num den ≤ greatestMagnitude
  · obtain ⟨y, hy, hsign, hmagnitude⟩ := exists_nearest? hden hle negative
    obtain rfl := Option.some.inj (hy.symm.trans h)
    exact ⟨hsign, hmagnitude⟩
  have hnum : num ≠ 0 := by
    rintro rfl
    exact hle (by rw [rounded_zero]; exact Nat.zero_le _)
  obtain ⟨-, hplace⟩ := exponentFor_isPlace hnum hden
  have hmost := hplace.roundDiv_le hden
  have hleast := hplace.le_roundDiv hden
  rw [nearest?_eq hnum hden hplace] at h
  rw [rounded_eq hden hnum hplace]
  generalize (exponentFor num den + 1074).toNat = place at *
  generalize roundDiv (num * 2 ^ leastPower) (den * 2 ^ place) = significand at *
  unfold ofParts? at h
  split at h
  · obtain rfl := Option.some.inj h
    refine ⟨rfl, ?_⟩
    show significand * 2 ^ ((place : Int) - 1074 + 1074).toNat = _
    rw [show ((place : Int) - 1074 + 1074).toNat = place by omega]
  · next hnot =>
    split at h
    · next hhalf =>
      -- Only a significand that rounding has made too long is halved.
      have hfull : significand = 2 * (significand / 2) := by
        unfold IsNormal at hnot hhalf
        omega
      obtain rfl := Option.some.inj h
      refine ⟨rfl, ?_⟩
      show significand / 2 * 2 ^ ((place : Int) - 1074 + 1 + 1074).toNat = _
      rw [show ((place : Int) - 1074 + 1 + 1074).toNat = 1 + place by omega, Nat.pow_add,
        ← Nat.mul_assoc, Nat.pow_one, Nat.mul_comm _ 2, ← hfull]
    · cases h

theorem rounded_ratio (x : Binary64) : rounded x.ratio.1 x.ratio.2 = x.magnitude :=
  (magnitude_of_nearest? x.ratio_pos x.nearest?_ratio).2.symm

theorem rounded_of_hasValue {x : Binary64} {n : Nat} (h : x.HasValue n) :
    rounded n 1 = x.magnitude :=
  (magnitude_of_nearest? (by decide) h.nearest?_eq).2.symm

end Fraction

/-! ## Products and quotients -/

section Operation

variable {x y z w : Binary64}

theorem times?_of_hasValue {m n : Nat} (hx : x.HasValue m) (hy : y.HasValue n) :
    x.times? y = nearest? (x.negative != y.negative) (m * n) 1 := by
  refine nearest?_congr (Nat.mul_pos x.ratio_pos y.ratio_pos) (by decide) ?_ _
  rw [Nat.mul_one, hx, hy, Nat.mul_mul_mul_comm]

theorem over?_of_hasValue {m n : Nat} (hx : x.HasValue m) (hy : y.HasValue n) (hn : 0 < n) :
    x.over? y = nearest? (x.negative != y.negative) m n := by
  have hnum : 0 < y.ratio.1 := by
    rw [hy]
    exact Nat.mul_pos hn y.ratio_pos
  refine nearest?_congr (Nat.mul_pos x.ratio_pos hnum) hn ?_ _
  rw [hx, hy]
  ac_rfl

/-- Lesser factors do not take a product past the greatest double, either. -/
theorem exists_times? (hx : x.magnitude ≤ z.magnitude) (hy : y.magnitude ≤ w.magnitude)
    (hsome : (z.times? w).isSome) : ∃ product, x.times? y = some product := by
  obtain ⟨most, hmost⟩ := Option.isSome_iff_exists.mp hsome
  have hposZ := Nat.mul_pos z.ratio_pos w.ratio_pos
  have hposX := Nat.mul_pos x.ratio_pos y.ratio_pos
  have hle : rounded (x.ratio.1 * y.ratio.1) (x.ratio.2 * y.ratio.2) ≤ greatestMagnitude :=
    calc rounded (x.ratio.1 * y.ratio.1) (x.ratio.2 * y.ratio.2)
        ≤ rounded (z.ratio.1 * w.ratio.1) (z.ratio.2 * w.ratio.2) := by
          refine rounded_le_rounded hposX hposZ ?_
          rw [Nat.mul_mul_mul_comm, Nat.mul_mul_mul_comm z.ratio.1]
          exact Nat.mul_le_mul (ratio_le_of_magnitude_le hx) (ratio_le_of_magnitude_le hy)
      _ = most.magnitude := (magnitude_of_nearest? hposZ hmost).2.symm
      _ ≤ greatestMagnitude := most.magnitude_le
  obtain ⟨product, hproduct, -, -⟩ := exists_nearest? hposX hle (x.negative != y.negative)
  exact ⟨product, hproduct⟩

/-- A quotient by a number of at least one does not go past the greatest double. -/
theorem exists_over? (x : Binary64) {y : Binary64} (h : y.ratio.2 ≤ y.ratio.1) :
    ∃ quotient, x.over? y = some quotient := by
  have hpos : 0 < x.ratio.2 * y.ratio.1 :=
    Nat.mul_pos x.ratio_pos (Nat.lt_of_lt_of_le y.ratio_pos h)
  have hle : rounded (x.ratio.1 * y.ratio.2) (x.ratio.2 * y.ratio.1) ≤ greatestMagnitude :=
    calc rounded (x.ratio.1 * y.ratio.2) (x.ratio.2 * y.ratio.1)
        ≤ rounded x.ratio.1 x.ratio.2 := by
          refine rounded_le_rounded hpos x.ratio_pos ?_
          rw [Nat.mul_assoc, Nat.mul_comm y.ratio.2]
          exact Nat.mul_le_mul_left _ (Nat.mul_le_mul_left _ h)
      _ = x.magnitude := x.rounded_ratio
      _ ≤ greatestMagnitude := x.magnitude_le
  obtain ⟨quotient, hquotient, -, -⟩ := exists_nearest? hpos hle (x.negative != y.negative)
  exact ⟨quotient, hquotient⟩

end Operation

/-! ## Powers of ten -/

/-- The powers of ten up to `10 ^ 22` are doubles: their odd part has 53 bits at most. -/
theorem tenTo_hasValue {power : Nat} (h : power ≤ 22) :
    (tenTo power).negative = false ∧ (tenTo power).HasValue (10 ^ power) := by
  have hodd : 5 ^ power < 2 ^ 53 :=
    Nat.lt_of_le_of_lt (Nat.pow_le_pow_right (by decide) h) (by decide)
  have hten : 10 ^ power = 5 ^ power * 2 ^ power := by
    rw [← Nat.mul_pow]
  obtain ⟨x, hx, hsign, hvalue⟩ := exists_hasValue hodd (show power ≤ 971 by omega) false
  have htenTo : tenTo power = x := by
    rw [tenTo, hten, hx, Option.getD_some]
  rw [htenTo, hten]
  exact ⟨hsign, hvalue⟩

/-- The powers of ten up to the greatest are rounded. -/
theorem magnitude_tenTo {power : Nat} (h : power ≤ greatestPower) :
    (tenTo power).magnitude = rounded (10 ^ power) 1 := by
  have hgreatest : rounded (10 ^ greatestPower) 1 ≤ greatestMagnitude := by decide +kernel
  have hle : rounded (10 ^ power) 1 ≤ greatestMagnitude :=
    Nat.le_trans (rounded_mono (by decide) (Nat.pow_le_pow_right (by decide) h)) hgreatest
  obtain ⟨x, hx, -, hmagnitude⟩ := exists_nearest? (by decide) hle false
  rw [tenTo, hx, Option.getD_some, hmagnitude]

/-- The powers of ten keep their order. -/
theorem magnitude_tenTo_mono {power greater : Nat} (h : power ≤ greater)
    (hgreater : greater ≤ greatestPower) :
    (tenTo power).magnitude ≤ (tenTo greater).magnitude := by
  rw [magnitude_tenTo hgreater, magnitude_tenTo (Nat.le_trans h hgreater)]
  exact rounded_mono (by decide) (Nat.pow_le_pow_right (by decide) h)

/-- The powers of ten up to the greatest are at least one. -/
theorem one_le_tenTo {power : Nat} (h : power ≤ greatestPower) :
    (tenTo power).ratio.2 ≤ (tenTo power).ratio.1 := by
  obtain ⟨-, hone⟩ := tenTo_hasValue (Nat.zero_le 22)
  have hratio := ratio_le_of_magnitude_le (magnitude_tenTo_mono (Nat.zero_le power) h)
  rw [show (tenTo 0).ratio.1 = 10 ^ 0 * (tenTo 0).ratio.2 from hone, Nat.pow_zero, Nat.one_mul,
    Nat.mul_comm] at hratio
  exact Nat.le_of_mul_le_mul_right hratio (tenTo 0).ratio_pos

/-! ## Scaling -/

theorem scale?_of_nonneg (x : Binary64) {exponent : Int} (hsign : 0 ≤ exponent)
    (hle : exponent ≤ greatestPower) : x.scale? exponent = x.times? (tenTo exponent.toNat) := by
  rw [scale?, if_neg (Int.not_lt.mpr hle), if_pos hsign]

theorem scale?_of_neg (x : Binary64) {exponent : Int} (hsign : exponent < 0)
    (hle : -greatestPower ≤ exponent) :
    x.scale? exponent = x.over? (tenTo (-exponent).toNat) := by
  have hsteps : ((-exponent).toNat - 1) / greatestPower = 0 :=
    Nat.div_eq_of_lt (by omega)
  rw [scale?, if_neg (by omega), if_neg (by omega), hsteps, overTenTo?]

/-- A whole number that is a double, times a power of ten that is one, is rounded once. -/
theorem scale?_of_hasValue {x : Binary64} {n : Nat} (hx : x.HasValue n) {exponent : Int}
    (hlow : -22 ≤ exponent) (hhigh : exponent ≤ 22) :
    x.scale? exponent = Decimal.toBinary64? ⟨x.negative, n, exponent⟩ := by
  have hgreatest : (greatestPower : Int) = 308 := rfl
  rw [Decimal.toBinary64?_eq]
  by_cases hsign : 0 ≤ exponent
  · obtain ⟨hten, hvalue⟩ := tenTo_hasValue (show exponent.toNat ≤ 22 by omega)
    have hden : Decimal.denominator ⟨x.negative, n, exponent⟩ = 1 := by
      show 10 ^ (-exponent).toNat = 1
      rw [show (-exponent).toNat = 0 by omega, Nat.pow_zero]
    rw [x.scale?_of_nonneg hsign (by omega), times?_of_hasValue hx hvalue, hten, Bool.bne_false,
      hden]
    rfl
  · obtain ⟨hten, hvalue⟩ := tenTo_hasValue (show (-exponent).toNat ≤ 22 by omega)
    have hnum : Decimal.numerator ⟨x.negative, n, exponent⟩ = n := by
      show n * 10 ^ exponent.toNat = n
      rw [show exponent.toNat = 0 by omega, Nat.pow_zero, Nat.mul_one]
    rw [x.scale?_of_neg (by omega) (by omega),
      over?_of_hasValue hx hvalue (Nat.pow_pos (by decide)), hten, Bool.bne_false, hnum]
    rfl

/-- Dividing by a power of ten step by step never goes past the greatest double. -/
theorem exists_overTenTo? (steps : Nat) : ∀ (power : Nat) (x : Binary64),
    power ≤ greatestPower * (steps + 1) → ∃ quotient, overTenTo? steps power x = some quotient := by
  induction steps with
  | zero => exact fun power x h => x.exists_over? (one_le_tenTo (by omega))
  | succ steps ih =>
    intro power x h
    rw [overTenTo?]
    by_cases hzero : x.significand = 0
    · exact ⟨x, if_pos hzero⟩
    · obtain ⟨next, hnext⟩ := x.exists_over? (one_le_tenTo (Nat.le_refl greatestPower))
      obtain ⟨quotient, hquotient⟩ := ih (power - greatestPower) next (by
        unfold greatestPower at *
        omega)
      exact ⟨quotient, by rw [if_neg hzero, hnext, Option.bind_some, hquotient]⟩

/-- Without a power of ten to multiply by, nothing goes past the greatest double. -/
theorem exists_scale?_of_nonpos (x : Binary64) {exponent : Int} (h : exponent ≤ 0) :
    ∃ y, x.scale? exponent = some y := by
  have hpower : ¬ (greatestPower : Int) < exponent := by
    unfold greatestPower
    omega
  rw [scale?, if_neg hpower]
  by_cases hsign : 0 ≤ exponent
  · obtain ⟨hone, hvalue⟩ := tenTo_hasValue (Nat.zero_le 22)
    refine ⟨x, ?_⟩
    rw [if_pos hsign, show exponent.toNat = 0 by omega, times?, hone, Bool.bne_false, hvalue,
      Nat.pow_zero, Nat.one_mul, ← x.nearest?_ratio]
    have hpos := Nat.mul_pos x.ratio_pos (tenTo 0).ratio_pos
    exact nearest?_congr hpos x.ratio_pos (by ac_rfl) _
  · rw [if_neg hsign]
    refine exists_overTenTo? _ _ x ?_
    unfold greatestPower
    omega

/-- The midpoint of the two greatest doubles. -/
@[irreducible] def lastMidpoint : Nat :=
  (2 ^ 54 - 3) * 2 ^ 970

/-- A whole number that is rounded to less than the greatest double is at most the midpoint before
it. -/
theorem le_lastMidpoint {n : Nat} (h : rounded n 1 < greatestMagnitude) : n ≤ lastMidpoint := by
  refine Nat.le_of_not_lt fun hgt => Nat.not_le.mpr h ?_
  have hnext : rounded (lastMidpoint + 1) 1 = greatestMagnitude := by decide +kernel
  calc greatestMagnitude = rounded (lastMidpoint + 1) 1 := hnext.symm
    _ ≤ rounded n 1 := rounded_mono (by decide) hgt

/-- The greatest power of ten whose products with numbers of sixty-four bits all stay below the
midpoint. -/
@[irreducible] def surePower : Nat := 288

/-- For each power of ten from there on, the greatest number of sixty-four bits whose product with
it stays below the midpoint has a product that can be computed. -/
theorem isSome_times?_tenTo (last : Fin (greatestPower - surePower + 1)) :
    ((nearest? false (min (2 ^ 64 - 1) (lastMidpoint / 10 ^ (surePower + last.val))) 1).bind
      (·.times? (tenTo (surePower + last.val)))).isSome := by
  revert last
  decide +kernel

/-- A number of sixty-four bits that has been rounded can be multiplied by a power of ten, as long
as the exact product stays below the midpoint of the two greatest doubles. -/
theorem exists_scale?_of_le {x : Binary64} {n : Nat} (hx : x.magnitude = rounded n 1)
    (hn : n < 2 ^ 64) {exponent : Int} (hsign : 0 ≤ exponent)
    (h : n * 10 ^ exponent.toNat ≤ lastMidpoint) : ∃ y, x.scale? exponent = some y := by
  rw [scale?]
  by_cases hgreatest : (greatestPower : Int) < exponent
  · -- Only zero has so small a product with so great a power.
    have hzero : n = 0 := by
      refine Nat.eq_zero_of_not_pos fun hpos => Nat.not_lt.mpr h ?_
      calc lastMidpoint < 1 * 10 ^ (greatestPower + 1) := by decide +kernel
        _ ≤ n * 10 ^ exponent.toNat :=
          Nat.mul_le_mul hpos (Nat.pow_le_pow_right (by decide) (by omega))
    have hsignificand : x.significand = 0 := by
      rw [hzero, rounded_zero] at hx
      exact (Nat.mul_eq_zero.mp hx).resolve_right (Nat.ne_of_gt (Nat.two_pow_pos _))
    exact ⟨x, by rw [if_pos hgreatest, if_pos hsignificand]⟩
  · rw [if_neg hgreatest, if_pos hsign]
    have hpower : exponent.toNat ≤ greatestPower := by omega
    have hsure : surePower ≤ greatestPower := by decide +kernel
    -- A power before these is replaced by the first of them.
    obtain ⟨last, hlast, hbelow⟩ : ∃ last : Fin (greatestPower - surePower + 1),
        exponent.toNat ≤ surePower + last.val ∧
          n * 10 ^ (surePower + last.val) ≤ lastMidpoint := by
      by_cases hfew : exponent.toNat ≤ surePower
      · refine ⟨0, hfew, ?_⟩
        calc n * 10 ^ surePower ≤ 2 ^ 64 * 10 ^ surePower :=
              Nat.mul_le_mul_right _ (Nat.le_of_lt hn)
          _ ≤ lastMidpoint := by decide +kernel
      · have hself : surePower + (exponent.toNat - surePower) = exponent.toNat := by omega
        refine ⟨⟨exponent.toNat - surePower, by omega⟩, Nat.le_of_eq hself.symm, ?_⟩
        rwa [hself]
    obtain ⟨product, hproduct⟩ := Option.isSome_iff_exists.mp (isSome_times?_tenTo last)
    obtain ⟨most, hmost, htimes⟩ := Option.bind_eq_some_iff.mp hproduct
    refine exists_times? ?_ (magnitude_tenTo_mono hlast (by omega))
      (Option.isSome_iff_exists.mpr ⟨product, htimes⟩)
    rw [hx, (magnitude_of_nearest? (by decide) hmost).2]
    refine rounded_mono (by decide) (Nat.le_min.mpr ⟨by omega, ?_⟩)
    exact (Nat.le_div_iff_mul_le (Nat.pow_pos (by decide))).mpr hbelow

end TagGraph.Binary64
