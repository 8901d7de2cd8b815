import TagGraph.Number.Notation

/-!
# Rounding depends on the value alone

A quotient has one place at which a double next to it has 53 bits (`Binary64.IsPlace`), whatever
fraction writes the quotient. So rounding gives one double for all fractions of one value
(`Binary64.nearest?_congr`), and a double for itself (`Binary64.nearest?_exact`). Written numbers of
one value are read as one double, and the shortest form of a double is read as that double.
-/

namespace TagGraph

namespace Binary64

/-! ## Rounding a quotient -/

/-- Equal quotients are rounded to one whole number. -/
theorem roundDiv_congr {num den num' den' : Nat} (hden : 0 < den) (hden' : 0 < den')
    (h : num * den' = num' * den) : roundDiv num den = roundDiv num' den' := by
  have hfloor : num / den = num' / den' := by
    rw [← Nat.mul_div_mul_right num den hden', h, Nat.mul_comm den den',
      Nat.mul_div_mul_right num' den' hden]
  have hrest : num % den * den' = num' % den' * den := by
    rw [← Nat.mul_mod_mul_right, h, Nat.mul_comm den den', Nat.mul_mod_mul_right]
  -- Multiplied out, a rest and its divisor compare as the other rest and its divisor do.
  have hscale : ∀ a b c d : Nat, 0 < c → 0 < d → a * d = b * c → (a < c ↔ b < d) := by
    intro a b c d hc hd heq
    rw [← Nat.mul_lt_mul_right hd, heq, Nat.mul_comm c d, Nat.mul_lt_mul_right hc]
  have hbelow : 2 * (num % den) < den ↔ 2 * (num' % den') < den' :=
    hscale _ _ _ _ hden hden' (by rw [Nat.mul_assoc, Nat.mul_assoc, hrest])
  have habove : den < 2 * (num % den) ↔ den' < 2 * (num' % den') := by
    rw [← Nat.mul_lt_mul_right hden', ← Nat.mul_lt_mul_right hden, Nat.mul_assoc 2, hrest,
      ← Nat.mul_assoc 2, Nat.mul_comm den den']
    rw [Nat.mul_lt_mul_right hden, Nat.mul_lt_mul_right hden]
  unfold roundDiv
  simp only [hbelow, habove, hfloor]

/-- A whole quotient is left as it is. -/
theorem roundDiv_exact {den : Nat} (hden : 0 < den) (n : Nat) : roundDiv (n * den) den = n := by
  unfold roundDiv
  simp [Nat.mul_div_cancel n hden, hden]

/-! ## The place of a quotient -/

/-- The least distance between doubles is the power of a half with this exponent. -/
@[irreducible] def leastPower : Nat := 1074

theorem leastPower_eq : leastPower = 1074 := by
  rw [leastPower]

/-- The quotient lies below `2 ^ 53` in units of `2 ^ (place - 1074)`. -/
def FitsAt (num den place : Nat) : Prop :=
  num * 2 ^ leastPower < den * 2 ^ 53 * 2 ^ place

/-- The least place at which a quotient lies below `2 ^ 53`. -/
structure IsPlace (num den place : Nat) : Prop where
  fits : FitsAt num den place
  least : ∀ lower, lower < place → ¬ FitsAt num den lower

theorem FitsAt.mono {num den place higher : Nat} (h : FitsAt num den place)
    (hle : place ≤ higher) : FitsAt num den higher :=
  Nat.lt_of_lt_of_le h (Nat.mul_le_mul_left _ (Nat.pow_le_pow_right (by decide) hle))

theorem fitsAt_congr {num den num' den' : Nat} (hden : 0 < den) (hden' : 0 < den')
    (h : num * den' = num' * den) (place : Nat) :
    FitsAt num den place ↔ FitsAt num' den' place := by
  have hleft : num * 2 ^ leastPower * den' = num' * 2 ^ leastPower * den := by
    rw [Nat.mul_right_comm, h, Nat.mul_right_comm]
  have hright : den * 2 ^ 53 * 2 ^ place * den' = den' * 2 ^ 53 * 2 ^ place * den := by ac_rfl
  unfold FitsAt
  rw [← Nat.mul_lt_mul_right hden', hleft, hright, Nat.mul_lt_mul_right hden]

theorem IsPlace.congr {num den num' den' place : Nat} (hden : 0 < den) (hden' : 0 < den')
    (h : num * den' = num' * den) (hplace : IsPlace num den place) : IsPlace num' den' place where
  fits := (fitsAt_congr hden hden' h place).mp hplace.fits
  least lower hlower hfits :=
    hplace.least lower hlower ((fitsAt_congr hden hden' h lower).mpr hfits)

theorem IsPlace.unique {num den place place' : Nat} (h : IsPlace num den place)
    (h' : IsPlace num den place') : place = place' := by
  rcases Nat.lt_trichotomy place place' with hlt | heq | hgt
  · exact absurd h.fits (h'.least place hlt)
  · exact heq
  · exact absurd h'.fits (h.least place' hgt)

/-- An exponent counted from the least one. -/
theorem fits_iff (num den : Nat) {exponent : Int} (h : -1074 ≤ exponent) :
    num * 2 ^ (-exponent).toNat < den * 2 ^ 53 * 2 ^ exponent.toNat ↔
      FitsAt num den (exponent + 1074).toNat := by
  -- Both sides are scaled by what the negative part of the exponent lacks to 1074.
  have hleast := leastPower_eq
  have hscale : 0 < 2 ^ (leastPower - (-exponent).toNat) := Nat.two_pow_pos _
  have hlow : (-exponent).toNat + (leastPower - (-exponent).toNat) = leastPower := by omega
  have hhigh : exponent.toNat + (leastPower - (-exponent).toNat) = (exponent + 1074).toNat := by
    omega
  have hnum : num * 2 ^ (-exponent).toNat * 2 ^ (leastPower - (-exponent).toNat) =
      num * 2 ^ leastPower := by
    rw [Nat.mul_assoc, ← Nat.pow_add, hlow]
  have hden : den * 2 ^ 53 * 2 ^ exponent.toNat * 2 ^ (leastPower - (-exponent).toNat) =
      den * 2 ^ 53 * 2 ^ (exponent + 1074).toNat := by
    rw [Nat.mul_assoc, ← Nat.pow_add, hhigh]
  unfold FitsAt
  rw [← hnum, ← hden]
  exact (Nat.mul_lt_mul_right hscale).symm

/-- The exponent that the lengths in bits suggest. -/
def guessFor (num den : Nat) : Int :=
  max (-1074) ((Nat.log2 num : Int) - Nat.log2 den - 53)

theorem exponentFor_eq (num den : Nat) :
    exponentFor num den =
      if num * 2 ^ (-guessFor num den).toNat < den * 2 ^ 53 * 2 ^ (guessFor num den).toNat
      then guessFor num den else guessFor num den + 1 :=
  rfl

/-- The lengths in bits tell that a place is high enough. -/
theorem fitsAt_of_log2_le {num den place : Nat} (hden : 0 < den)
    (hle : num.log2 + 1 + leastPower ≤ den.log2 + 53 + place) : FitsAt num den place := by
  have hnumHigh : num < 2 ^ (num.log2 + 1) := Nat.lt_log2_self
  have hdenLow : 2 ^ den.log2 ≤ den := Nat.log2_self_le (by omega)
  have hleft : num * 2 ^ leastPower < 2 ^ (num.log2 + 1 + leastPower) := by
    rw [Nat.pow_add _ (num.log2 + 1)]
    exact Nat.mul_lt_mul_of_pos_right hnumHigh (Nat.two_pow_pos _)
  have hmiddle : 2 ^ (num.log2 + 1 + leastPower) ≤ 2 ^ (den.log2 + 53 + place) :=
    Nat.pow_le_pow_right (by decide) hle
  have hright : 2 ^ (den.log2 + 53 + place) ≤ den * 2 ^ 53 * 2 ^ place := by
    rw [Nat.pow_add, Nat.pow_add]
    exact Nat.mul_le_mul_right _ (Nat.mul_le_mul_right _ hdenLow)
  exact Nat.lt_of_lt_of_le hleft (Nat.le_trans hmiddle hright)

/-- The lengths in bits tell that a place is too low. -/
theorem not_fitsAt_of_log2_le {num den place : Nat} (hnum : num ≠ 0)
    (hle : den.log2 + 1 + 53 + place ≤ num.log2 + leastPower) : ¬ FitsAt num den place := by
  have hnumLow : 2 ^ num.log2 ≤ num := Nat.log2_self_le hnum
  have hdenHigh : den < 2 ^ (den.log2 + 1) := Nat.lt_log2_self
  have hleft : den * 2 ^ 53 * 2 ^ place ≤ 2 ^ (den.log2 + 1 + 53 + place) := by
    rw [Nat.pow_add, Nat.pow_add _ (den.log2 + 1)]
    exact Nat.mul_le_mul_right _ (Nat.mul_le_mul_right _ (Nat.le_of_lt hdenHigh))
  have hmiddle : 2 ^ (den.log2 + 1 + 53 + place) ≤ 2 ^ (num.log2 + leastPower) :=
    Nat.pow_le_pow_right (by decide) hle
  have hright : 2 ^ (num.log2 + leastPower) ≤ num * 2 ^ leastPower := by
    rw [Nat.pow_add]
    exact Nat.mul_le_mul_right _ hnumLow
  exact Nat.not_lt.mpr (Nat.le_trans hleft (Nat.le_trans hmiddle hright))

/-- The exponent that rounding takes is the place of the quotient. -/
theorem exponentFor_isPlace {num den : Nat} (hnum : num ≠ 0) (hden : 0 < den) :
    -1074 ≤ exponentFor num den ∧ IsPlace num den (exponentFor num den + 1074).toNat := by
  have hfits : ∀ place, num.log2 + 1 + leastPower ≤ den.log2 + 53 + place → FitsAt num den place :=
    fun _ hle => fitsAt_of_log2_le hden hle
  have hnotFits : ∀ place, den.log2 + 1 + 53 + place ≤ num.log2 + leastPower →
      ¬ FitsAt num den place :=
    fun _ hle => not_fitsAt_of_log2_le hnum hle
  have hleast := leastPower_eq
  have hguess : guessFor num den = max (-1074) ((num.log2 : Int) - den.log2 - 53) := rfl
  rw [exponentFor_eq]
  -- From here on the lengths in bits are any two numbers.
  generalize guessFor num den = guess at *
  generalize num.log2 = a at *
  generalize den.log2 = b at *
  have hfit := fits_iff num den (show -1074 ≤ guess by omega)
  by_cases hlow : num * 2 ^ (-guess).toNat < den * 2 ^ 53 * 2 ^ guess.toNat
  · rw [if_pos hlow]
    refine ⟨by omega, hfit.mp hlow, fun lower hlower => hnotFits lower ?_⟩
    omega
  · rw [if_neg hlow]
    refine ⟨by omega, hfits _ (by omega), fun lower hlower hlowerFits => hlow (hfit.mpr ?_)⟩
    exact hlowerFits.mono (by omega)

/-! ## Rounding to a double -/

theorem nearest?_zero (negative : Bool) (den : Nat) :
    nearest? negative 0 den = some (zero negative) := by
  rw [nearest?, if_pos rfl]

/-- Rounding at the place of the quotient. -/
theorem nearest?_eq {num den place : Nat} (hnum : num ≠ 0) (hden : 0 < den)
    (h : IsPlace num den place) (negative : Bool) :
    nearest? negative num den =
      ofParts? negative (roundDiv (num * 2 ^ leastPower) (den * 2 ^ place)) (place - 1074) := by
  obtain ⟨hleast, hplace⟩ := exponentFor_isPlace hnum hden
  have hexponent : exponentFor num den = place - 1074 := by
    have heq := h.unique hplace
    omega
  have hround : roundDiv (num * 2 ^ (-exponentFor num den).toNat)
      (den * 2 ^ (exponentFor num den).toNat) =
        roundDiv (num * 2 ^ leastPower) (den * 2 ^ place) := by
    refine roundDiv_congr (Nat.mul_pos hden (Nat.two_pow_pos _))
      (Nat.mul_pos hden (Nat.two_pow_pos _)) ?_
    have hpow : (-exponentFor num den).toNat + place =
        leastPower + (exponentFor num den).toNat := by
      have hleastPower := leastPower_eq
      omega
    rw [Nat.mul_mul_mul_comm, ← Nat.pow_add, hpow, Nat.pow_add, Nat.mul_mul_mul_comm]
  rw [nearest?, if_neg hnum]
  simp only [hround]
  rw [hexponent]

/-- Rounding depends on the value of a quotient alone. -/
theorem nearest?_congr {num den num' den' : Nat} (hden : 0 < den) (hden' : 0 < den')
    (h : num * den' = num' * den) (negative : Bool) :
    nearest? negative num den = nearest? negative num' den' := by
  by_cases hnum : num = 0
  · subst hnum
    have hnum' : num' = 0 := by
      rw [Nat.zero_mul] at h
      exact (Nat.mul_eq_zero.mp h.symm).resolve_right (by omega)
    rw [hnum', nearest?_zero, nearest?_zero]
  · have hnum' : num' ≠ 0 := by
      rintro rfl
      rw [Nat.zero_mul] at h
      rcases Nat.mul_eq_zero.mp h with h | h <;> omega
    obtain ⟨_, hplace⟩ := exponentFor_isPlace hnum hden
    rw [nearest?_eq hnum hden hplace, nearest?_eq hnum' hden' (hplace.congr hden hden' h)]
    congr 1
    refine roundDiv_congr (Nat.mul_pos hden (Nat.two_pow_pos _))
      (Nat.mul_pos hden' (Nat.two_pow_pos _)) ?_
    rw [Nat.mul_mul_mul_comm, h, ← Nat.mul_mul_mul_comm]

/-- The place of the value of a double is its own exponent: a shorter significand has the least. -/
theorem isPlace_of_isNormal {num den significand : Nat} {exponent : Int} (hden : 0 < den)
    (hnormal : IsNormal significand exponent)
    (h : num * 2 ^ leastPower = den * (significand * 2 ^ (exponent + 1074).toNat)) :
    IsPlace num den (exponent + 1074).toNat := by
  obtain ⟨hlt, hleast, _, hsmall⟩ := hnormal
  generalize hplace : (exponent + 1074).toNat = place at *
  refine ⟨?_, fun lower hlower hfits => ?_⟩
  · unfold FitsAt
    rw [h, Nat.mul_assoc]
    exact Nat.mul_lt_mul_of_pos_left (Nat.mul_lt_mul_of_pos_right hlt (Nat.two_pow_pos _)) hden
  -- A lower place would leave a shorter significand, which only the least place may have.
  · have hbits : 2 ^ 52 ≤ significand := by
      refine Nat.not_lt.mp fun hbits => ?_
      have heq := hsmall hbits
      omega
    have hlow : den * 2 ^ 53 * 2 ^ lower ≤ den * (significand * 2 ^ place) := by
      rw [Nat.mul_assoc]
      refine Nat.mul_le_mul_left _ (Nat.le_trans ?_ (Nat.mul_le_mul_right _ hbits))
      rw [← Nat.pow_add, ← Nat.pow_add]
      exact Nat.pow_le_pow_right (by decide) (by omega)
    unfold FitsAt at hfits
    rw [h] at hfits
    exact absurd hfits (Nat.not_lt.mpr hlow)

/-- A double is what its own value is rounded to. -/
theorem nearest?_exact (x : Binary64) {num den : Nat} (hden : 0 < den)
    (h : num * 2 ^ leastPower = den * (x.significand * 2 ^ (x.exponent + 1074).toNat)) :
    nearest? x.negative num den = some x := by
  obtain ⟨negative, significand, exponent, hnormal⟩ := x
  obtain ⟨_, hleast, _, hsmall⟩ := id hnormal
  have hscale : 2 ^ leastPower ≠ 0 := Nat.ne_of_gt (Nat.two_pow_pos _)
  by_cases hzero : significand = 0
  · subst hzero
    have hnum : num = 0 := by
      rw [Nat.zero_mul, Nat.mul_zero] at h
      exact (Nat.mul_eq_zero.mp h).resolve_right hscale
    obtain rfl : exponent = -1074 := hsmall (by decide)
    rw [hnum, nearest?_zero]
    rfl
  · have hunits : den * (significand * 2 ^ (exponent + 1074).toNat) ≠ 0 :=
      Nat.mul_ne_zero (Nat.ne_of_gt hden)
        (Nat.mul_ne_zero hzero (Nat.ne_of_gt (Nat.two_pow_pos _)))
    have hnum : num ≠ 0 := by
      rintro rfl
      rw [Nat.zero_mul] at h
      exact hunits h.symm
    have hplace := isPlace_of_isNormal hden hnormal h
    have hround : roundDiv (num * 2 ^ leastPower) (den * 2 ^ (exponent + 1074).toNat) =
        significand := by
      rw [h, Nat.mul_left_comm]
      exact roundDiv_exact (Nat.mul_pos hden (Nat.two_pow_pos _)) significand
    have hexponent : ((exponent + 1074).toNat : Int) - 1074 = exponent := by omega
    rw [nearest?_eq hnum hden hplace, hround, hexponent, ofParts?, dif_pos hnormal]

/-! ## Whole numbers -/

/-- The magnitude of a double is a whole number. -/
def HasValue (x : Binary64) (n : Nat) : Prop :=
  x.ratio.1 = n * x.ratio.2

theorem ratio_pos (x : Binary64) : 0 < x.ratio.2 :=
  Nat.two_pow_pos _

/-- Cutting off the fraction divides the numerator by the denominator. -/
theorem truncate_eq_ratio (x : Binary64) :
    x.truncate = if x.negative then -((x.ratio.1 / x.ratio.2 : Nat) : Int)
      else (x.ratio.1 / x.ratio.2 : Nat) := by
  have hmagnitude : (if 0 ≤ x.exponent then ((x.significand * 2 ^ x.exponent.toNat : Nat) : Int)
      else ((x.significand / 2 ^ (-x.exponent).toNat : Nat) : Int)) =
        ((x.ratio.1 / x.ratio.2 : Nat) : Int) := by
    unfold ratio
    by_cases h : 0 ≤ x.exponent
    · rw [if_pos h, show (-x.exponent).toNat = 0 by omega, Nat.pow_zero, Nat.div_one]
    · rw [if_neg h, show x.exponent.toNat = 0 by omega, Nat.pow_zero, Nat.mul_one]
  unfold truncate
  simp only [hmagnitude]

theorem HasValue.truncate {x : Binary64} {n : Nat} (h : x.HasValue n) :
    x.truncate = if x.negative then -(n : Int) else n := by
  rw [truncate_eq_ratio, h, Nat.mul_div_cancel _ x.ratio_pos]

/-- A whole number of 53 bits times a power of two is a double: its significand is the number,
shifted until it has all its bits. -/
theorem exists_hasValue {n shift : Nat} (h : n < 2 ^ 53) (hshift : shift ≤ 971)
    (negative : Bool) :
    ∃ x, nearest? negative (n * 2 ^ shift) 1 = some x ∧ x.negative = negative ∧
      x.HasValue (n * 2 ^ shift) := by
  by_cases hzero : n = 0
  · subst hzero
    rw [Nat.zero_mul]
    refine ⟨zero negative, nearest?_zero negative 1, rfl, ?_⟩
    show 0 * 2 ^ _ = 0 * _
    rw [Nat.zero_mul, Nat.zero_mul]
  have hbits : n.log2 < 53 := (Nat.log2_lt hzero).mpr h
  obtain ⟨more, hmore⟩ : ∃ more, n.log2 + more = 52 := ⟨52 - n.log2, by omega⟩
  have hlow : 2 ^ 52 ≤ n * 2 ^ more := by
    rw [← hmore, Nat.pow_add]
    exact Nat.mul_le_mul_right _ (Nat.log2_self_le hzero)
  have hhigh : n * 2 ^ more < 2 ^ 53 := by
    rw [show 53 = n.log2 + 1 + more by omega, Nat.pow_add]
    exact Nat.mul_lt_mul_of_pos_right Nat.lt_log2_self (Nat.two_pow_pos _)
  have hleast := leastPower_eq
  refine ⟨⟨negative, n * 2 ^ more, shift - more, hhigh, by omega, by omega, by omega⟩, ?_, rfl, ?_⟩
  · apply nearest?_exact ⟨negative, n * 2 ^ more, shift - more, _⟩ (by decide)
    show n * 2 ^ shift * 2 ^ leastPower =
      1 * (n * 2 ^ more * 2 ^ ((shift : Int) - more + 1074).toNat)
    rw [Nat.one_mul, Nat.mul_assoc, Nat.mul_assoc, ← Nat.pow_add, ← Nat.pow_add]
    congr 2
    omega
  · show n * 2 ^ more * 2 ^ ((shift : Int) - more).toNat =
      n * 2 ^ shift * 2 ^ (-((shift : Int) - more)).toNat
    rw [Nat.mul_assoc, Nat.mul_assoc, ← Nat.pow_add, ← Nat.pow_add]
    congr 2
    omega

/-- Whole numbers up to `2 ^ 53` are doubles. -/
theorem exists_natural {n : Nat} (h : n ≤ 2 ^ 53) (negative : Bool) :
    ∃ x, nearest? negative n 1 = some x ∧ x.negative = negative ∧ x.HasValue n := by
  by_cases hlt : n < 2 ^ 53
  · have hexists := exists_hasValue hlt (Nat.zero_le 971) negative
    rwa [Nat.pow_zero, Nat.mul_one] at hexists
  · obtain rfl : n = 2 ^ 52 * 2 ^ 1 := by omega
    exact exists_hasValue (by decide) (by decide) negative

/-- Whole numbers between `-2 ^ 53` and `2 ^ 53` are doubles. -/
theorem exists_ofInt? {i : Int} (hlow : -2 ^ 53 ≤ i) (hhigh : i ≤ 2 ^ 53) :
    ∃ x, ofInt? i = some x ∧ x.truncate = i := by
  have hmagnitude : i.natAbs ≤ 2 ^ 53 := by omega
  obtain ⟨x, hx, hsign, hvalue⟩ := exists_natural hmagnitude (decide (i < 0))
  refine ⟨x, hx, ?_⟩
  rw [hvalue.truncate, hsign]
  by_cases hneg : i < 0
  · rw [if_pos (decide_eq_true hneg)]
    omega
  · rw [if_neg (by simpa using hneg)]
    omega

/-- There is no double next to a quotient of `2 ^ 1030` or more. -/
theorem nearest?_of_large {num den power : Nat} (hden : 0 < den) (h : den * 2 ^ power ≤ num)
    (hpower : 1030 ≤ power) (negative : Bool) : nearest? negative num den = none := by
  have hnum : num ≠ 0 := by
    have hpos := Nat.mul_pos hden (Nat.two_pow_pos power)
    omega
  obtain ⟨_, hplace⟩ := exponentFor_isPlace hnum hden
  generalize (exponentFor num den + 1074).toNat = place at hplace
  -- The power of two alone already needs a place above those of doubles.
  have hlt : power + leastPower < 53 + place := by
    refine (Nat.pow_lt_pow_iff_right (a := 2) (by decide)).mp ?_
    refine Nat.lt_of_mul_lt_mul_left (a := den) ?_
    rw [Nat.pow_add, Nat.pow_add, ← Nat.mul_assoc, ← Nat.mul_assoc]
    exact Nat.lt_of_le_of_lt (Nat.mul_le_mul_right _ h) hplace.fits
  have hhigh : (971 : Int) < place - 1074 := by
    have hleast := leastPower_eq
    omega
  rw [nearest?_eq hnum hden hplace, ofParts?, dif_neg, dif_neg]
  · rintro ⟨_, _, hle, _⟩
    omega
  · rintro ⟨_, _, hle, _⟩
    omega

/-- A quotient below half the least double is rounded to zero. -/
theorem nearest?_of_small {num den : Nat} (h : num * 2 ^ leastPower * 2 < den) (negative : Bool) :
    nearest? negative num den = some (zero negative) := by
  by_cases hnum : num = 0
  · rw [hnum, nearest?_zero]
  · have hden : 0 < den := by omega
    have hplace : IsPlace num den 0 := by
      refine ⟨?_, fun lower hlower => absurd hlower (Nat.not_lt_zero lower)⟩
      show num * 2 ^ leastPower < den * 2 ^ 53 * 2 ^ 0
      omega
    have hround : roundDiv (num * 2 ^ leastPower) (den * 2 ^ 0) = 0 := by
      generalize num * 2 ^ leastPower = scaled at h
      have hlt : scaled < den := by omega
      rw [Nat.pow_zero, Nat.mul_one, roundDiv]
      simp only [Nat.div_eq_of_lt hlt, Nat.mod_eq_of_lt hlt]
      rw [if_pos (by omega)]
    rw [nearest?_eq hnum hden hplace, hround]
    rfl

end Binary64

/-! ## Reading a written number -/

namespace Decimal

/-- The numerator of the magnitude. -/
def numerator (d : Decimal) : Nat :=
  d.digits * 10 ^ d.exponent.toNat

/-- The denominator of the magnitude. -/
def denominator (d : Decimal) : Nat :=
  10 ^ (-d.exponent).toNat

theorem denominator_pos (d : Decimal) : 0 < d.denominator :=
  Nat.pow_pos (by decide)

theorem two_pow_three_mul_le (n : Nat) : 2 ^ (3 * n) ≤ 10 ^ n := by
  rw [Nat.pow_mul]
  exact Nat.pow_le_pow_left (by decide) n

/-- A number beyond `10 ^ 400` is beyond the doubles. -/
theorem nearest?_of_long {digits : Nat} {exponent : Int} (hdigits : digits ≠ 0)
    (h : 400 < exponent) (negative : Bool) :
    Binary64.nearest? negative (numerator ⟨negative, digits, exponent⟩)
      (denominator ⟨negative, digits, exponent⟩) = none := by
  have hden : denominator ⟨negative, digits, exponent⟩ = 1 := by
    show 10 ^ (-exponent).toNat = 1
    rw [show (-exponent).toNat = 0 by omega, Nat.pow_zero]
  have hpower : 1030 ≤ 3 * exponent.toNat := by omega
  refine Binary64.nearest?_of_large (denominator_pos _) ?_ hpower negative
  rw [hden, Nat.one_mul]
  exact Nat.le_trans (two_pow_three_mul_le _)
    (Nat.le_mul_of_pos_left _ (Nat.pos_of_ne_zero hdigits))

/-- A number below `10 ^ (-400)` is nearest to zero. -/
theorem nearest?_of_short {digits : Nat} {exponent : Int}
    (h : exponent + Nat.log2 digits < -400) (negative : Bool) :
    Binary64.nearest? negative (numerator ⟨negative, digits, exponent⟩)
      (denominator ⟨negative, digits, exponent⟩) = some (Binary64.zero negative) := by
  have hnum : numerator ⟨negative, digits, exponent⟩ = digits := by
    show digits * 10 ^ exponent.toNat = digits
    rw [show exponent.toNat = 0 by omega, Nat.pow_zero, Nat.mul_one]
  have hdigits : digits < 2 ^ (digits.log2 + 1) := Nat.lt_log2_self
  have hle : digits.log2 + 1 + Binary64.leastPower + 1 ≤ 3 * (-exponent).toNat := by
    have hleast := Binary64.leastPower_eq
    omega
  refine Binary64.nearest?_of_small ?_ negative
  rw [hnum]
  refine Nat.lt_of_lt_of_le ?_ (two_pow_three_mul_le (-exponent).toNat)
  refine Nat.lt_of_lt_of_le ?_ (Nat.pow_le_pow_right (by decide) hle)
  rw [Nat.pow_add, Nat.pow_add]
  exact Nat.mul_lt_mul_of_pos_right
    (Nat.mul_lt_mul_of_pos_right hdigits (Nat.two_pow_pos _)) (by decide)

/-- Reading rounds the value. What is told by its length alone would be rounded to the same. -/
theorem toBinary64?_eq (d : Decimal) :
    d.toBinary64? = Binary64.nearest? d.negative d.numerator d.denominator := by
  obtain ⟨negative, digits, exponent⟩ := d
  unfold toBinary64?
  by_cases hzero : digits = 0
  · rw [if_pos hzero, numerator, hzero, Nat.zero_mul, Binary64.nearest?_zero]
  · rw [if_neg hzero]
    by_cases hlarge : 400 < exponent
    · rw [if_pos hlarge]
      exact (nearest?_of_long hzero hlarge negative).symm
    · rw [if_neg hlarge]
      by_cases hsmall : exponent + Nat.log2 digits < -400
      · rw [if_pos hsmall]
        exact (nearest?_of_short hsmall negative).symm
      · rw [if_neg hsmall]
        rfl

/-- Further zeros at the end of the digits change nothing if the exponent makes up for them. -/
theorem toBinary64?_shift (negative : Bool) (digits : Nat) (exponent : Int) (zeros : Nat) :
    toBinary64? ⟨negative, digits * 10 ^ zeros, exponent - zeros⟩ =
      toBinary64? ⟨negative, digits, exponent⟩ := by
  rw [toBinary64?_eq, toBinary64?_eq]
  refine Binary64.nearest?_congr (denominator_pos _) (denominator_pos _) ?_ negative
  show digits * 10 ^ zeros * 10 ^ (exponent - zeros).toNat * 10 ^ (-exponent).toNat =
    digits * 10 ^ exponent.toNat * 10 ^ (-(exponent - zeros)).toNat
  -- Both sides are the digits times the same power of ten.
  have hpow : zeros + (exponent - zeros).toNat + (-exponent).toNat =
      exponent.toNat + (-(exponent - zeros)).toNat := by omega
  rw [Nat.mul_assoc, Nat.mul_assoc, Nat.mul_assoc, ← Nat.pow_add, ← Nat.pow_add, ← Nat.pow_add,
    ← Nat.add_assoc, hpow]

theorem toBinary64?_stripZeros (negative : Bool) (fuel : Nat) :
    ∀ (digits : Nat) (exponent : Int),
      (stripZeros negative fuel digits exponent).toBinary64? =
        toBinary64? ⟨negative, digits, exponent⟩ := by
  induction fuel with
  | zero => exact fun _ _ => rfl
  | succ fuel ih =>
    intro digits exponent
    rw [stripZeros]
    by_cases h : digits ≠ 0 ∧ digits % 10 = 0
    · rw [if_pos h, ih, ← toBinary64?_shift negative (digits / 10) (exponent + 1) 1]
      congr 2
      · omega
      · omega
    · rw [if_neg h]

@[simp] theorem toBinary64?_normalize (d : Decimal) : d.normalize.toBinary64? = d.toBinary64? :=
  toBinary64?_stripZeros d.negative _ d.digits d.exponent

end Decimal

/-! ## The shortest form -/

namespace Binary64

/-- A double with all its decimal digits is read as that double. -/
theorem exactDecimal_toBinary64? (x : Binary64) : x.exactDecimal.toBinary64? = some x := by
  obtain ⟨hlt, hleastExponent, _, _⟩ := x.normal
  have hleast := leastPower_eq
  have hnegative : x.exactDecimal.negative = x.negative := by
    unfold exactDecimal
    split <;> rfl
  rw [Decimal.toBinary64?_eq, hnegative]
  refine nearest?_exact x (Decimal.denominator_pos _) ?_
  unfold exactDecimal Decimal.numerator Decimal.denominator
  by_cases h : 0 ≤ x.exponent
  · rw [if_pos h]
    show x.significand * 2 ^ x.exponent.toNat * 10 ^ 0 * 2 ^ leastPower =
      10 ^ 0 * (x.significand * 2 ^ (x.exponent + 1074).toNat)
    rw [Nat.pow_zero, Nat.mul_one, Nat.one_mul, Nat.mul_assoc, ← Nat.pow_add]
    congr 2
    omega
  · rw [if_neg h]
    show x.significand * 5 ^ (-x.exponent).toNat * 10 ^ x.exponent.toNat * 2 ^ leastPower =
      10 ^ (-x.exponent).toNat * (x.significand * 2 ^ (x.exponent + 1074).toNat)
    have hpow : leastPower = (-x.exponent).toNat + (x.exponent + 1074).toNat := by omega
    have hten : 10 ^ (-x.exponent).toNat = 5 ^ (-x.exponent).toNat * 2 ^ (-x.exponent).toNat := by
      rw [← Nat.mul_pow]
    rw [show x.exponent.toNat = 0 by omega, Nat.pow_zero, Nat.mul_one, hpow, Nat.pow_add, hten,
      Nat.mul_mul_mul_comm (5 ^ (-x.exponent).toNat), Nat.mul_comm _ x.significand]

/-- The shortest form of a double is read as that double. -/
theorem shortest_toBinary64? (tie : Tie) (x : Binary64) :
    (x.shortest tie).toBinary64? = some x := by
  unfold shortest
  by_cases hzero : x.significand = 0
  · obtain ⟨negative, significand, exponent, hnormal⟩ := x
    obtain rfl : significand = 0 := hzero
    obtain rfl : exponent = -1074 := hnormal.2.2.2 (by decide)
    rw [if_pos rfl]
    rfl
  · rw [if_neg hzero]
    -- What has been found on a grid has been read back before it was taken.
    cases hfound : (List.range 17).findSome? fun n => x.onGrid? tie (n + 1) with
    | none => exact exactDecimal_toBinary64? x
    | some d =>
      obtain ⟨n, _, hgrid⟩ := List.exists_of_findSome?_eq_some hfound
      have hreads : x.readsBack d = true := List.find?_some hgrid
      exact eq_of_beq hreads

end Binary64

end TagGraph
