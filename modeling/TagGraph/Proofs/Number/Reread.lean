import TagGraph.Proofs.Number.Shortest

/-!
# Doubles that are written and read again

The tagged notation of a double is always read as a double (`Written.number?_reread`), though by the
short way of reading not always as the same one. It is the same for numbers with few digits
(`Binary64.readsBack_of_tagged`), whole numbers below `2 ^ 53 / 10` among them. Up to `2 ^ 53` a
whole number is read again with an error of at most one (`Binary64.HasValue.truncate_reread`).
-/

namespace TagGraph

namespace Decimal

theorem mul_le_digitsFrom (cs : List Char) :
    ∀ acc, acc * 10 ^ cs.length ≤ digitsFrom acc cs := by
  induction cs with
  | nil => exact fun acc => Nat.le_of_eq (Nat.mul_one acc)
  | cons c cs ih =>
    intro acc
    calc acc * 10 ^ (cs.length + 1) = 10 * acc * 10 ^ cs.length := by
          rw [Nat.pow_succ', ← Nat.mul_assoc, Nat.mul_comm acc]
      _ ≤ (10 * acc + (c.toNat - '0'.toNat)) * 10 ^ cs.length :=
          Nat.mul_le_mul_right _ (Nat.le_add_right _ _)
      _ ≤ digitsFrom (10 * acc + (c.toNat - '0'.toNat)) cs := ih _

theorem le_digitsFrom (acc : Nat) (cs : List Char) : acc ≤ digitsFrom acc cs :=
  Nat.le_trans (Nat.le_mul_of_pos_right acc (Nat.pow_pos (by decide))) (mul_le_digitsFrom cs acc)

theorem digitsFrom_append (cs ds : List Char) :
    ∀ acc, digitsFrom acc (cs ++ ds) = digitsFrom (digitsFrom acc cs) ds := by
  induction cs with
  | nil => exact fun _ => rfl
  | cons c cs ih => exact fun acc => ih _

end Decimal

namespace NumberLiteral

open Decimal

/-! ## Taking digits together -/

/-- All digits are taken if they fit. -/
theorem absorb_of_lt (cs : List Char) :
    ∀ {acc : Nat}, digitsFrom acc cs < 2 ^ 64 → absorb acc cs = (digitsFrom acc cs, []) := by
  induction cs with
  | nil => exact fun _ => rfl
  | cons c cs ih =>
    intro acc h
    have hnext : 10 * acc + (c.toNat - '0'.toNat) < 2 ^ 64 :=
      Nat.lt_of_le_of_lt (le_digitsFrom _ cs) h
    rw [absorb]
    simp only [hnext, if_true]
    exact ih h

/-- The digits that are taken make the number up to as many places as are left. -/
theorem absorb_le (cs : List Char) : ∀ {acc : Nat}, acc < 2 ^ 64 →
    (absorb acc cs).1 < 2 ^ 64 ∧
      (absorb acc cs).1 * 10 ^ (absorb acc cs).2.length ≤ digitsFrom acc cs := by
  induction cs with
  | nil => exact fun {acc} h => ⟨h, Nat.le_of_eq (Nat.mul_one acc)⟩
  | cons c cs ih =>
    intro acc h
    rw [absorb]
    by_cases hnext : 10 * acc + (c.toNat - '0'.toNat) < 2 ^ 64
    · simp only [hnext, if_true]
      exact ih hnext
    · simp only [hnext, if_false]
      exact ⟨h, mul_le_digitsFrom (c :: cs) acc⟩

variable {n : NumberLiteral}

theorem digits_decimal (n : NumberLiteral) :
    n.decimal.digits = digitsFrom (digitsValue n.whole) n.fraction :=
  digitsFrom_append n.whole n.fraction 0

/-- A number whose digits fit is taken as it is. -/
theorem significand_of_lt (h : n.decimal.digits < 2 ^ 64) :
    n.significand = n.decimal.digits ∧ n.power = n.decimal.exponent := by
  rw [digits_decimal] at h
  have hwhole : absorb 0 n.whole = (digitsValue n.whole, []) :=
    absorb_of_lt n.whole (Nat.lt_of_le_of_lt (le_digitsFrom _ n.fraction) h)
  have hfraction := absorb_of_lt n.fraction h
  constructor
  · rw [significand, hwhole, hfraction, digits_decimal]
  · rw [power, hwhole, hfraction]
    show n.exponent + 0 - (n.fraction.length - 0) = n.exponent - n.fraction.length
    omega

/-- If the digits before the point fit, what is taken is the number cut off at some place. -/
theorem significand_le (h : digitsValue n.whole < 2 ^ 64) :
    n.significand < 2 ^ 64 ∧ ∃ dropped : Nat, n.power = n.decimal.exponent + dropped ∧
      n.significand * 10 ^ dropped ≤ n.decimal.digits := by
  have hwhole : absorb 0 n.whole = (digitsValue n.whole, []) := absorb_of_lt n.whole h
  obtain ⟨hlt, hle⟩ := absorb_le n.fraction h
  rw [significand, power, hwhole, digits_decimal]
  refine ⟨hlt, (absorb (digitsValue n.whole) n.fraction).2.length, ?_, hle⟩
  show n.exponent + 0 - (n.fraction.length - (absorb (digitsValue n.whole) n.fraction).2.length) =
    n.exponent - n.fraction.length + (absorb (digitsValue n.whole) n.fraction).2.length
  omega

/-! ## Reading exactly -/

/-- A number of few digits and a small power is read as the double nearest to it. -/
theorem toBinary64?_of_lt (hdigits : n.decimal.digits < 2 ^ 53) (hlow : -22 ≤ n.decimal.exponent)
    (hhigh : n.decimal.exponent ≤ 22) : n.toBinary64? = n.decimal.toBinary64? := by
  obtain ⟨hsignificand, hpower⟩ :=
    significand_of_lt (Nat.lt_of_lt_of_le hdigits (by decide : 2 ^ 53 ≤ 2 ^ 64))
  obtain ⟨x, hx, hsign, hvalue⟩ := Binary64.exists_natural (Nat.le_of_lt hdigits) n.negative
  rw [toBinary64?, hsignificand, hpower, hx, Option.bind_some,
    Binary64.scale?_of_hasValue hvalue hlow hhigh, hsign]
  rfl

/-! ## Reading something -/

/-- A number that is nearest to a double other than the greatest ones is read as a double. -/
theorem exists_toBinary64? {x : Binary64} (hwhole : digitsValue n.whole < 2 ^ 64)
    (hx : n.decimal.toBinary64? = some x) (hlt : x.magnitude < Binary64.greatestMagnitude) :
    ∃ y, n.toBinary64? = some y := by
  obtain ⟨hfits, dropped, hpower, hle⟩ := significand_le hwhole
  -- A number of sixty-four bits is never past the greatest double.
  have hrounded : Binary64.rounded n.significand 1 ≤ Binary64.greatestMagnitude := by
    obtain ⟨bound, -, -, hbound⟩ := Binary64.exists_hasValue (show 1 < 2 ^ 53 by decide)
      (show 64 ≤ 971 by decide) false
    refine Nat.le_trans (Binary64.rounded_mono (by decide) (Nat.le_of_lt hfits)) ?_
    rw [show (2 : Nat) ^ 64 = 1 * 2 ^ 64 from rfl, Binary64.rounded_of_hasValue hbound]
    exact bound.magnitude_le
  obtain ⟨first, hfirst, -, hmagnitude⟩ :=
    Binary64.exists_nearest? (by decide) hrounded n.negative
  rw [toBinary64?, hfirst, Option.bind_some]
  by_cases hsign : n.power ≤ 0
  · exact first.exists_scale?_of_nonpos hsign
  · refine Binary64.exists_scale?_of_le hmagnitude hfits (by omega) ?_
    refine Binary64.le_lastMidpoint (Nat.lt_of_le_of_lt ?_ hlt)
    rw [toBinary64?_eq] at hx
    rw [(Binary64.magnitude_of_nearest? n.decimal.denominator_pos hx).2]
    refine Binary64.rounded_le_rounded (by decide) n.decimal.denominator_pos ?_
    rw [Nat.mul_one, numerator, denominator]
    calc n.significand * 10 ^ n.power.toNat * 10 ^ (-n.decimal.exponent).toNat
        = n.significand * 10 ^ dropped * 10 ^ n.decimal.exponent.toNat := by
          rw [Nat.mul_assoc, Nat.mul_assoc, ← Nat.pow_add, ← Nat.pow_add]
          congr 2
          omega
      _ ≤ n.decimal.digits * 10 ^ n.decimal.exponent.toNat := Nat.mul_le_mul_right _ hle

end NumberLiteral

/-! ## Doubles -/

namespace NumberLiteral.Shows

/-- The literal of a number has the number's value. -/
theorem toBinary64?_decimal {n : NumberLiteral} {d : Decimal} {zeros : Nat} (h : n.Shows d zeros) :
    n.decimal.toBinary64? = d.toBinary64? := by
  rw [h.decimal, Decimal.toBinary64?_shift]

end NumberLiteral.Shows

namespace Binary64

/-- The double that the tagged notation of a double is read as. -/
def reread (x : Binary64) : Binary64 :=
  ((Written.number? x.taggedText).bind fun found => found.1.toBinary64?).getD x

/-- A double that is read again as it was. -/
def ReadsBack (x : Binary64) : Prop :=
  x.reread = x

instance (x : Binary64) : Decidable x.ReadsBack :=
  inferInstanceAs (Decidable (x.reread = x))

/-- A double is one of the two greatest or lies below them. -/
theorem magnitude_lt_or_eq (x : Binary64) :
    x.magnitude < greatestMagnitude ∨ x = ⟨x.negative, 2 ^ 53 - 1, 971, by decide⟩ := by
  obtain ⟨negative, significand, exponent, hnormal⟩ := x
  obtain ⟨hlt, hlow, hhigh, -⟩ := id hnormal
  have hhighest := highestPlace_eq
  have hpos : 0 < 2 ^ highestPlace := Nat.two_pow_pos _
  by_cases hexponent : exponent = 971
  · by_cases hsignificand : significand = 2 ^ 53 - 1
    · subst hexponent hsignificand
      exact Or.inr rfl
    · left
      show significand * 2 ^ (exponent + 1074).toNat < (2 ^ 53 - 1) * 2 ^ highestPlace
      rw [show (exponent + 1074).toNat = highestPlace by omega]
      exact Nat.mul_lt_mul_of_pos_right (by omega) hpos
  · left
    calc significand * 2 ^ (exponent + 1074).toNat
        ≤ (2 ^ 53 - 1) * 2 ^ (highestPlace - 1) :=
          Nat.mul_le_mul (by omega) (Nat.pow_le_pow_right (by decide) (by omega))
      _ < (2 ^ 53 - 1) * 2 ^ highestPlace :=
          Nat.mul_lt_mul_of_pos_left (Nat.pow_lt_pow_right (by decide) (by omega)) (by decide)

end Binary64

namespace Written

/-- The tagged notation of a double is read as the double that `reread` tells. -/
theorem number?_reread (x : Binary64) :
    ∃ n : NumberLiteral, n.isWhole = false ∧ n.toBinary64? = some x.reread ∧
      ∀ rest, Ends rest → number? (x.taggedText ++ rest) = some (n, rest) := by
  obtain ⟨n, zeros, -, hshows, hread⟩ := number?_taggedText x
  have hself : number? x.taggedText = some (n, []) := by
    have hend := hread [] ends_nil
    rwa [List.append_nil] at hend
  have hsome : ∃ y, n.toBinary64? = some y := by
    rcases x.magnitude_lt_or_eq with hlt | hgreatest
    · exact NumberLiteral.exists_toBinary64? hshows.whole_lt
        (hshows.toBinary64?_decimal.trans x.tagged_toBinary64?) hlt
    -- The greatest doubles are looked at.
    · have hall : ∀ negative, ((number? (Binary64.taggedText
          ⟨negative, 2 ^ 53 - 1, 971, by decide⟩)).bind
            fun found => found.1.toBinary64?).isSome := by decide +kernel
      have hsome := hall x.negative
      rw [← hgreatest, hself] at hsome
      exact Option.isSome_iff_exists.mp hsome
  obtain ⟨y, hy⟩ := hsome
  have hreread : x.reread = y := by
    rw [Binary64.reread, hself, Option.bind_some, hy, Option.getD_some]
  exact ⟨n, hshows.isWhole, hreread ▸ hy, hread⟩

end Written

namespace Binary64

variable {x : Binary64} {t : Nat}

theorem reread_eq_of_read {n : NumberLiteral} {y : Binary64}
    (hread : Written.number? x.taggedText = some (n, [])) (hy : n.toBinary64? = some y) :
    x.reread = y := by
  rw [reread, hread, Option.bind_some, hy, Option.getD_some]

/-- A double with few digits, and with neither many places behind the point nor a great power of
ten, is read again as it was. -/
theorem readsBack_of_tagged
    (hdigits : x.tagged.digits * 10 ^ (x.tagged.exponent + 1).toNat < 2 ^ 53)
    (hlow : -22 ≤ x.tagged.exponent) : x.ReadsBack := by
  obtain ⟨n, zeros, hzeros, hshows, hread⟩ := Written.number?_taggedText x
  have hend := hread [] Written.ends_nil
  rw [List.append_nil] at hend
  have hhigh : x.tagged.exponent ≤ 22 := by
    refine Int.not_lt.mp fun hgt => ?_
    by_cases hzero : x.tagged.digits = 0
    · rw [tagged_exponent_of_digits hzero] at hgt
      omega
    · refine absurd hdigits (Nat.not_lt.mpr ?_)
      calc 2 ^ 53 ≤ 1 * 10 ^ 22 := by decide
        _ ≤ x.tagged.digits * 10 ^ (x.tagged.exponent + 1).toNat :=
          Nat.mul_le_mul (Nat.pos_of_ne_zero hzero)
            (Nat.pow_le_pow_right (by decide) (by omega))
  refine reread_eq_of_read hend ?_
  rw [NumberLiteral.toBinary64?_of_lt, hshows.toBinary64?_decimal, tagged_toBinary64?]
  · rw [hshows.decimal]
    exact Nat.lt_of_le_of_lt
      (Nat.mul_le_mul_left _ (Nat.pow_le_pow_right (by decide) hzeros)) hdigits
  · rw [hshows.decimal]
    show -22 ≤ x.tagged.exponent - zeros
    omega
  · rw [hshows.decimal]
    show x.tagged.exponent - zeros ≤ 22
    omega

/-! ## Whole numbers -/

/-- A whole number below `2 ^ 53 / 10` is read again as it was. -/
theorem HasValue.readsBack (h : x.HasValue t) (ht : 10 * t < 2 ^ 53) : x.ReadsBack := by
  obtain ⟨hexponent, hdigits⟩ := tagged_of_hasValue h (by omega)
  refine readsBack_of_tagged ?_ (by omega)
  rw [show (x.tagged.exponent + 1).toNat = x.tagged.exponent.toNat + 1 by omega, Nat.pow_succ,
    ← Nat.mul_assoc, hdigits, Nat.mul_comm]
  exact ht

theorem tagged_negative (x : Binary64) : x.tagged.negative = x.negative := by
  have hread := x.tagged_toBinary64?
  rw [Decimal.toBinary64?_eq] at hread
  exact (magnitude_of_nearest? x.tagged.denominator_pos hread).1.symm

/-- A whole number up to `2 ^ 53` is written with a zero behind the point. -/
theorem HasValue.number?_taggedText (h : x.HasValue t) (ht : t ≤ 2 ^ 53) :
    ∃ n : NumberLiteral, Written.number? x.taggedText = some (n, []) ∧
      n.decimal = ⟨x.negative, 10 * t, -1⟩ := by
  obtain ⟨hexponent, hdigits⟩ := tagged_of_hasValue h ht
  have hpos : 0 < (Decimal.digitsOf x.tagged.digits).length := Nat.length_toDigits_pos
  have hlength : (Decimal.digitsOf x.tagged.digits).length + x.tagged.exponent ≤ 16 := by
    by_cases hzero : x.tagged.digits = 0
    · rw [tagged_exponent_of_digits hzero, hzero]
      decide
    · have hall := Decimal.length_digitsOf_mul hzero x.tagged.exponent.toNat
      have hfew : (Decimal.digitsOf t).length ≤ 16 :=
        (Nat.length_toDigits_le_iff (by decide) (by decide)).mpr
          (Nat.lt_of_le_of_lt ht (by decide))
      rw [hdigits] at hall
      omega
  have htext : x.taggedText = x.tagged.withSign (x.tagged.positional ['.', '0']) := by
    rw [taggedText_eq, if_pos (Or.inr ⟨by omega, by omega⟩)]
  obtain ⟨n, hshows, hread⟩ :=
    Written.number?_positional _ tagged_exponent_of_digits hlength
  have hend := hread [] Written.ends_nil
  rw [List.append_nil, ← htext] at hend
  refine ⟨n, hend, ?_⟩
  rw [hshows.decimal, tagged_negative,
    show (x.tagged.exponent + 1).toNat = x.tagged.exponent.toNat + 1 by omega, Nat.pow_succ,
    ← Nat.mul_assoc, hdigits, Nat.mul_comm t,
    show x.tagged.exponent - ((x.tagged.exponent.toNat + 1 : Nat) : Int) = -1 by omega]

/-- A whole number up to `2 ^ 53` is read again through ten times itself. -/
theorem HasValue.reread_eq (h : x.HasValue t) (ht : t ≤ 2 ^ 53) :
    ∃ y, nearest? x.negative (10 * t) 1 = some y ∧ y.over? (tenTo 1) = some x.reread := by
  obtain ⟨n, hread, hdecimal⟩ := h.number?_taggedText ht
  have hfits : n.decimal.digits < 2 ^ 64 := by
    rw [hdecimal]
    show 10 * t < 2 ^ 64
    omega
  obtain ⟨hsignificand, hpower⟩ := NumberLiteral.significand_of_lt hfits
  have hsign : n.negative = x.negative := congrArg Decimal.negative hdecimal
  obtain ⟨m, -, hsome, hagain⟩ := Written.number?_reread x
  have hself := hagain [] Written.ends_nil
  rw [List.append_nil, hread] at hself
  obtain ⟨rfl, -⟩ := Prod.mk.inj (Option.some.inj hself)
  rw [NumberLiteral.toBinary64?, hsignificand, hpower, hdecimal, hsign] at hsome
  obtain ⟨y, hy, hscale⟩ := Option.bind_eq_some_iff.mp hsome
  have hover : y.scale? (-1) = y.over? (tenTo 1) := y.scale?_of_neg (by decide) (by decide)
  exact ⟨y, hy, hover.symm.trans hscale⟩

/-- A rounded quotient is off by half a unit at most. -/
theorem roundDiv_near (num : Nat) {den : Nat} (hden : 0 < den) :
    2 * num ≤ 2 * (roundDiv num den * den) + den ∧
      2 * (roundDiv num den * den) ≤ 2 * num + den := by
  have hsplit := Nat.div_add_mod num den
  have hrest := Nat.mod_lt num hden
  rw [Nat.mul_comm] at hsplit
  have hnext : (num / den + 1) * den = num / den * den + den := Nat.succ_mul _ _
  unfold roundDiv
  simp only
  split_ifs <;> omega

/-- Below `2 ^ 57` a whole number is rounded by eight at most. -/
theorem rounded_near {n : Nat} (h : n < 2 ^ 57) :
    n * 2 ^ leastPower ≤ rounded n 1 + 8 * 2 ^ leastPower ∧
      rounded n 1 ≤ n * 2 ^ leastPower + 8 * 2 ^ leastPower := by
  by_cases hn : n = 0
  · rw [hn, rounded_zero, Nat.zero_mul]
    omega
  obtain ⟨-, hplace⟩ := exponentFor_isPlace hn (by decide : 0 < 1)
  rw [rounded_eq (by decide) hn hplace]
  generalize (exponentFor n 1 + 1074).toNat = place at hplace
  have hfits : FitsAt n 1 (leastPower + 4) := by
    unfold FitsAt
    calc n * 2 ^ leastPower < 2 ^ 57 * 2 ^ leastPower :=
          Nat.mul_lt_mul_of_pos_right h (Nat.two_pow_pos _)
      _ = 1 * 2 ^ 53 * 2 ^ (leastPower + 4) := by
          rw [Nat.one_mul, ← Nat.pow_add, ← Nat.pow_add]
          congr 1
          omega
  have hle : place ≤ leastPower + 4 :=
    Nat.le_of_not_lt fun hlt => hplace.least _ hlt hfits
  have hunit : 2 ^ place ≤ 2 ^ leastPower * 2 ^ 4 := by
    rw [← Nat.pow_add]
    exact Nat.pow_le_pow_right (by decide) hle
  obtain ⟨hlow, hhigh⟩ := roundDiv_near (n * 2 ^ leastPower) (Nat.two_pow_pos place)
  rw [Nat.one_mul]
  omega

/-- Cutting off the fraction keeps what the magnitude is between. -/
theorem truncate_between {x : Binary64} {low high : Nat} (hsign : x.negative = false)
    (hlow : low * 2 ^ leastPower ≤ x.magnitude) (hhigh : x.magnitude ≤ high * 2 ^ leastPower) :
    low ≤ x.truncate ∧ x.truncate ≤ high := by
  have htruncate : x.truncate = (x.magnitude / 2 ^ leastPower : Nat) := by
    rw [truncate_eq, units_eq, hsign]
    rfl
  rw [htruncate]
  exact ⟨Int.ofNat_le.mpr ((Nat.le_div_iff_mul_le (Nat.two_pow_pos _)).mpr hlow),
    Int.ofNat_le.mpr (Nat.div_le_of_le_mul (Nat.mul_comm high _ ▸ hhigh))⟩

/-- What is at least a whole number is not rounded below it. -/
theorem le_rounded_of_le {n num den : Nat} (hn : n ≤ 2 ^ 53) (hden : 0 < den)
    (h : n * den ≤ num) : n * 2 ^ leastPower ≤ rounded num den := by
  obtain ⟨whole, -, -, hwhole⟩ := exists_natural hn false
  rw [← hwhole.magnitude, ← rounded_of_hasValue hwhole]
  exact rounded_le_rounded (by decide) hden (by rwa [Nat.mul_one])

/-- What is at most a whole number is not rounded above it. -/
theorem rounded_le_of_le {n num den : Nat} (hn : n ≤ 2 ^ 53) (hden : 0 < den)
    (h : num ≤ n * den) : rounded num den ≤ n * 2 ^ leastPower := by
  obtain ⟨whole, -, -, hwhole⟩ := exists_natural hn false
  rw [← hwhole.magnitude, ← rounded_of_hasValue hwhole]
  exact rounded_le_rounded hden (by decide) (by rwa [Nat.mul_one])

/-- The tenth of a double that differs from ten times a whole number by eight at most is between the
neighbours of the whole number. -/
theorem rounded_tenth {first : Binary64} (ht : t < 2 ^ 53)
    (hbelow : 10 * t * 2 ^ leastPower ≤ first.magnitude + 8 * 2 ^ leastPower)
    (habove : first.magnitude ≤ 10 * t * 2 ^ leastPower + 8 * 2 ^ leastPower) :
    (t - 1) * 2 ^ leastPower ≤ rounded first.ratio.1 (first.ratio.2 * 10) ∧
      rounded first.ratio.1 (first.ratio.2 * 10) ≤ (t + 1) * 2 ^ leastPower := by
  have hpos : 0 < first.ratio.2 * 10 := Nat.mul_pos first.ratio_pos (by decide)
  have hunit := Nat.two_pow_pos leastPower
  rw [Nat.mul_assoc] at hbelow habove
  constructor
  · refine le_rounded_of_le (by omega) hpos (Nat.le_of_mul_le_mul_right ?_ hunit)
    have hstep : (t - 1) * 2 ^ leastPower = t * 2 ^ leastPower - 2 ^ leastPower :=
      Nat.sub_one_mul _ _
    calc (t - 1) * (first.ratio.2 * 10) * 2 ^ leastPower
        = 10 * ((t - 1) * 2 ^ leastPower) * first.ratio.2 := by ac_rfl
      _ ≤ first.magnitude * first.ratio.2 := Nat.mul_le_mul_right _ (by omega)
      _ = first.ratio.1 * 2 ^ leastPower := first.ratio_mul_leastPower.symm
  · refine rounded_le_of_le (by omega) hpos (Nat.le_of_mul_le_mul_right ?_ hunit)
    have hstep : (t + 1) * 2 ^ leastPower = t * 2 ^ leastPower + 2 ^ leastPower :=
      Nat.succ_mul _ _
    calc first.ratio.1 * 2 ^ leastPower = first.magnitude * first.ratio.2 :=
          first.ratio_mul_leastPower
      _ ≤ 10 * ((t + 1) * 2 ^ leastPower) * first.ratio.2 := Nat.mul_le_mul_right _ (by omega)
      _ = (t + 1) * (first.ratio.2 * 10) * 2 ^ leastPower := by ac_rfl

/-- The greatest of the whole numbers that doubles do not leave out is read again as it was. -/
theorem HasValue.reread_last (h : x.HasValue (2 ^ 53)) (hsign : x.negative = false) :
    x.reread = x := by
  have hback : (⟨false, 2 ^ 52, 1, by decide⟩ : Binary64).ReadsBack := by decide +kernel
  have hvalue : (⟨false, 2 ^ 52, 1, by decide⟩ : Binary64).HasValue (2 ^ 53) := rfl
  have hnearest := h.nearest?_eq
  rw [hsign] at hnearest
  obtain rfl := Option.some.inj (hnearest.symm.trans hvalue.nearest?_eq)
  exact hback

/-- A whole number up to `2 ^ 53` is read again as a number that differs from it by one at most,
when its fraction is cut off. -/
theorem HasValue.truncate_reread (h : x.HasValue t) (hsign : x.negative = false)
    (ht : t ≤ 2 ^ 53) :
    x.reread.truncate ≤ t + 1 ∧ (t : Int) ≤ x.reread.truncate + 1 := by
  by_cases hlast : t = 2 ^ 53
  · have hsame : x.reread = x := (hlast ▸ h : x.HasValue (2 ^ 53)).reread_last hsign
    rw [hsame, h.truncate, hsign]
    simp only [Bool.false_eq_true, if_false]
    omega
  obtain ⟨first, hfirst, hover⟩ := h.reread_eq ht
  obtain ⟨hten, hvalue⟩ := tenTo_hasValue (show 1 ≤ 22 by decide)
  obtain ⟨hfirstSign, hfirstMagnitude⟩ := magnitude_of_nearest? (by decide) hfirst
  have hpos : 0 < first.ratio.2 * (tenTo 1).ratio.1 := by
    rw [hvalue]
    exact Nat.mul_pos first.ratio_pos (Nat.mul_pos (by decide) (tenTo 1).ratio_pos)
  obtain ⟨hagainSign, hagain⟩ := magnitude_of_nearest? hpos hover
  have htenth : x.reread.magnitude = rounded first.ratio.1 (first.ratio.2 * 10) := by
    rw [hagain, hvalue]
    refine rounded_congr ?_ (Nat.mul_pos first.ratio_pos (by decide)) ?_
    · rw [← hvalue]
      exact hpos
    · rw [Nat.pow_one]
      ac_rfl
  obtain ⟨hbelow, habove⟩ := rounded_near (show 10 * t < 2 ^ 57 by omega)
  rw [← hfirstMagnitude] at hbelow habove
  obtain ⟨hlow, hhigh⟩ := rounded_tenth (by omega) hbelow habove
  rw [← htenth] at hlow hhigh
  obtain ⟨hleast, hmost⟩ := truncate_between (by rw [hagainSign, hfirstSign, hsign, hten]; rfl)
    hlow hhigh
  omega

end Binary64

end TagGraph
