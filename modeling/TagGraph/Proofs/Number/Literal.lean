import TagGraph.Json.Reader
import TagGraph.Proofs.Number.Rounding

/-!
# Numbers as literals

What the printer of JSON writes for a number is read as one literal, if no character follows that
would carry it on: a double in tagged notation as a literal of its value
(`Written.number?_taggedText`), a whole number as its digits (`Written.number?_toString`).
-/

namespace TagGraph

/-- The exact value of a literal. -/
def NumberLiteral.decimal (n : NumberLiteral) : Decimal :=
  ⟨n.negative, Decimal.digitsValue (n.whole ++ n.fraction), n.exponent - n.fraction.length⟩

namespace Decimal

/-! ## Digits -/

/-- A text made of digits. -/
def AllDigits (cs : List Char) : Prop :=
  ∀ c ∈ cs, isDigit c = true

/-- A text that does not begin with a digit. -/
def NoDigitAhead (cs : List Char) : Prop :=
  ∀ c rest, cs = c :: rest → isDigit c = false

theorem noDigitAhead_cons {c : Char} (h : isDigit c = false) (cs : List Char) :
    NoDigitAhead (c :: cs) := by
  intro d rest heq
  obtain ⟨rfl, _⟩ := List.cons.inj heq
  exact h

theorem AllDigits.append {cs ds : List Char} (hcs : AllDigits cs) (hds : AllDigits ds) :
    AllDigits (cs ++ ds) := by
  intro c hc
  rcases List.mem_append.mp hc with h | h
  · exact hcs c h
  · exact hds c h

theorem allDigits_zeros (n : Nat) : AllDigits (List.replicate n '0') := by
  intro c hc
  rw [List.eq_of_mem_replicate hc]
  rfl

theorem allDigits_digitsOf (n : Nat) : AllDigits (digitsOf n) := by
  intro c hc
  have h := Nat.isDigit_of_mem_toDigits (by decide) (by decide) hc
  simp only [Char.isDigit, Bool.and_eq_true, decide_eq_true_eq] at h
  simp only [isDigit, Bool.and_eq_true, decide_eq_true_eq]
  exact h

theorem digitsFrom_eq (cs : List Char) : ∀ acc, digitsFrom acc cs = Nat.ofDigitChars 10 cs acc := by
  induction cs with
  | nil => exact fun _ => rfl
  | cons c cs ih => exact fun acc => ih _

/-- Digits behind digits. -/
theorem digitsValue_append (cs ds : List Char) :
    digitsValue (cs ++ ds) = digitsValue cs * 10 ^ ds.length + digitsValue ds := by
  rw [digitsValue, digitsValue, digitsValue, digitsFrom_eq, digitsFrom_eq, digitsFrom_eq,
    Nat.ofDigitChars_append, Nat.ofDigitChars_eq_ofDigitChars_zero, Nat.mul_comm]

@[simp] theorem digitsValue_zeros (n : Nat) : digitsValue (List.replicate n '0') = 0 := by
  rw [digitsValue, digitsFrom_eq, Nat.ofDigitChars_replicate_zero, Nat.mul_zero]

@[simp] theorem digitsValue_digitsOf (n : Nat) : digitsValue (digitsOf n) = n := by
  rw [digitsValue, digitsFrom_eq, digitsOf, Nat.ofDigitChars_ten_toDigits]

theorem digitsOf_ne_nil (n : Nat) : digitsOf n ≠ [] :=
  Nat.toDigits_ne_nil

theorem sub_zero_lt_of_isDigit {c : Char} (h : isDigit c = true) : c.toNat - '0'.toNat < 10 := by
  simp only [isDigit, Bool.and_eq_true, decide_eq_true_eq] at h
  have hle : c.toNat ≤ '9'.toNat := h.2
  have hnine : '9'.toNat = '0'.toNat + 9 := rfl
  omega

/-- A run of digits writes a number below the power of ten of its length. -/
theorem digitsFrom_lt {cs : List Char} (h : AllDigits cs) :
    ∀ acc, digitsFrom acc cs < (acc + 1) * 10 ^ cs.length := by
  induction cs with
  | nil =>
    intro acc
    show acc < (acc + 1) * 10 ^ 0
    omega
  | cons c cs ih =>
    intro acc
    have hdigit := sub_zero_lt_of_isDigit (h c List.mem_cons_self)
    have hrest := ih (fun d hd => h d (List.mem_cons_of_mem c hd))
      (10 * acc + (c.toNat - '0'.toNat))
    show digitsFrom (10 * acc + (c.toNat - '0'.toNat)) cs < (acc + 1) * 10 ^ (cs.length + 1)
    refine Nat.lt_of_lt_of_le hrest ?_
    rw [Nat.pow_succ', ← Nat.mul_assoc]
    exact Nat.mul_le_mul_right _ (by omega)

/-- The digits of a number other than zero do not begin with a zero. -/
theorem digitsOf_ne_zero_cons {n : Nat} (h : n ≠ 0) (cs : List Char) : digitsOf n ≠ '0' :: cs := by
  -- Induction on the number without its last digit, which has the same first digit.
  induction n using Nat.strongRecOn generalizing cs with
  | _ n ih =>
    unfold digitsOf
    by_cases hsmall : n < 10
    · rw [Nat.toDigits_of_lt_base hsmall]
      intro heq
      have hchar := (List.cons.inj heq).1
      have hdigit : ∀ m : Fin 10, m.val ≠ 0 → m.val.digitChar ≠ '0' := by decide
      exact hdigit ⟨n, hsmall⟩ h hchar
    · rw [Nat.toDigits_of_base_le (by decide) (by omega)]
      intro heq
      cases hfront : Nat.toDigits 10 (n / 10) with
      | nil => exact Nat.toDigits_ne_nil hfront
      | cons c front =>
        rw [hfront] at heq
        obtain ⟨rfl, _⟩ := List.cons.inj heq
        exact ih (n / 10) (by omega) (by omega) front hfront

theorem spanDigits_append {cs rest : List Char} (hcs : AllDigits cs) (hrest : NoDigitAhead rest) :
    spanDigits (cs ++ rest) = (cs, rest) := by
  have htake : rest.takeWhile isDigit = [] := by
    cases rest with
    | nil => rfl
    | cons c rest => rw [List.takeWhile_cons, hrest c rest rfl]; rfl
  have hdrop : rest.dropWhile isDigit = rest := by
    cases rest with
    | nil => rfl
    | cons c rest => rw [List.dropWhile_cons, hrest c rest rfl]; rfl
  rw [spanDigits, List.takeWhile_append_of_pos hcs, List.dropWhile_append_of_pos hcs, htake, hdrop,
    List.append_nil]

/-! ## Exponents -/

/-- A signed exponent behind `e`. -/
theorem spanExponent?_signed (power : Int) {rest : List Char} (h : NoDigitAhead rest) :
    spanExponent? ('e' :: (if power < 0 then '-' else '+') :: (digitsOf power.natAbs ++ rest)) =
      some (power, rest) := by
  have hspan := spanDigits_append (allDigits_digitsOf power.natAbs) h
  have hnonempty : (digitsOf power.natAbs).isEmpty = false := by
    simpa using digitsOf_ne_nil power.natAbs
  by_cases hneg : power < 0
  · have hvalue : -(power.natAbs : Int) = power := by omega
    rw [if_pos hneg, spanExponent?, if_pos (Or.inl rfl)]
    simp only [spanSign, hspan, hnonempty, Bool.false_eq_true, if_false, if_true,
      digitsValue_digitsOf, hvalue]
  · have hvalue : (power.natAbs : Int) = power := by omega
    rw [if_neg hneg, spanExponent?, if_pos (Or.inl rfl)]
    simp only [spanSign, hspan, hnonempty, Bool.false_eq_true, if_false, digitsValue_digitsOf,
      hvalue]

end Decimal

namespace Written

/-- What may follow a value inside of a text: nothing, a comma or a closing bracket. -/
def Ends (rest : List Char) : Prop :=
  ∀ c cs, rest = c :: cs → c = ',' ∨ c = ']' ∨ c = '\x7d'

theorem ends_nil : Ends [] :=
  fun _ _ h => nomatch h

theorem ends_cons {c : Char} (h : c = ',' ∨ c = ']' ∨ c = '\x7d') (cs : List Char) :
    Ends (c :: cs) := by
  intro d rest heq
  obtain ⟨rfl, _⟩ := List.cons.inj heq
  exact h

theorem Ends.noDigitAhead {rest : List Char} (h : Ends rest) : Decimal.NoDigitAhead rest := by
  intro c cs heq
  rcases h c cs heq with rfl | rfl | rfl <;> rfl

theorem Ends.spanExponent? {rest : List Char} (h : Ends rest) :
    Decimal.spanExponent? rest = some (0, rest) := by
  cases rest with
  | nil => rfl
  | cons c cs => rcases h c cs rfl with rfl | rfl | rfl <;> rfl

theorem Ends.startsExponent {rest : List Char} (h : Ends rest) : startsExponent rest = false := by
  cases rest with
  | nil => rfl
  | cons c cs => rcases h c cs rfl with rfl | rfl | rfl <;> rfl

/-! ## The parts of a literal -/

/-- The whole part: digits, of which the first is no zero unless it is the only one. -/
theorem wholePart?_append {whole rest : List Char} (hdigits : Decimal.AllDigits whole)
    (hne : whole ≠ []) (hzero : ∀ c cs, whole ≠ '0' :: c :: cs)
    (hrest : Decimal.NoDigitAhead rest) : wholePart? (whole ++ rest) = some (whole, rest) := by
  rw [wholePart?, Decimal.spanDigits_append hdigits hrest]
  split
  · next heq => exact absurd (Prod.mk.inj heq).1 hne
  · next heq => exact absurd (Prod.mk.inj heq).1 (hzero _ _)
  · next heq =>
    obtain ⟨rfl, rfl⟩ := Prod.mk.inj heq
    rfl

/-- The fraction: digits behind a point. -/
theorem fractionPart?_point {fraction rest : List Char} (hdigits : Decimal.AllDigits fraction)
    (hne : fraction ≠ []) (hrest : Decimal.NoDigitAhead rest) :
    fractionPart? ('.' :: (fraction ++ rest)) = some (fraction, rest) := by
  rw [fractionPart?, Decimal.spanDigits_append hdigits hrest]
  split
  · next heq => exact absurd (Prod.mk.inj heq).1 hne
  · next heq =>
    obtain ⟨rfl, rfl⟩ := Prod.mk.inj heq
    rfl

theorem fractionPart?_none {rest : List Char} (h : ∀ cs, rest ≠ '.' :: cs) :
    fractionPart? rest = some ([], rest) := by
  unfold fractionPart?
  split
  · next cs => exact absurd rfl (h cs)
  · rfl

/-- A literal behind its sign. -/
def unsigned? (negative : Bool) (cs : List Char) : Option (NumberLiteral × List Char) :=
  match wholePart? cs with
  | none => none
  | some (whole, cs) =>
    match fractionPart? cs with
    | none => none
    | some (fraction, cs) =>
      match Decimal.spanExponent? cs with
      | none => none
      | some (exponent, rest) =>
        some (⟨negative, whole, fraction, exponent, fraction.isEmpty && !startsExponent cs⟩, rest)

theorem number?_minus (cs : List Char) : number? ('-' :: cs) = unsigned? true cs := rfl

theorem number?_of_ne_minus {c : Char} (hc : c ≠ '-') (cs : List Char) :
    number? (c :: cs) = unsigned? false (c :: cs) := by
  unfold number?
  split
  next negative cs' heq =>
    split at heq
    · next h => exact absurd (List.cons.inj h).1 hc
    · obtain ⟨rfl, rfl⟩ := Prod.mk.inj heq
      rfl

/-- A sign is read apart from what stands behind it. -/
theorem number?_withSign (d : Decimal) {magnitude : List Char} (rest : List Char)
    (h : ∃ c cs, magnitude = c :: cs ∧ Decimal.isDigit c = true) :
    number? (d.withSign magnitude ++ rest) = unsigned? d.negative (magnitude ++ rest) := by
  obtain ⟨c, cs, rfl, hc⟩ := h
  unfold Decimal.withSign
  cases d.negative with
  | true => exact number?_minus _
  | false =>
    refine number?_of_ne_minus ?_ _
    rintro rfl
    exact absurd hc (by decide)

theorem exists_digit {cs : List Char} (hdigits : Decimal.AllDigits cs) (hne : cs ≠ [])
    (more : List Char) : ∃ c ds, cs ++ more = c :: ds ∧ Decimal.isDigit c = true := by
  cases cs with
  | nil => exact absurd rfl hne
  | cons c cs => exact ⟨c, cs ++ more, rfl, hdigits c (List.mem_cons_self ..)⟩

/-- Digits with a point among them. -/
theorem unsigned?_pointed (negative : Bool) {whole fraction rest : List Char}
    (hwhole : Decimal.AllDigits whole) (hwholeNe : whole ≠ [])
    (hzero : ∀ c cs, whole ≠ '0' :: c :: cs) (hfraction : Decimal.AllDigits fraction)
    (hfractionNe : fraction ≠ []) (hrest : Ends rest) :
    unsigned? negative (whole ++ '.' :: (fraction ++ rest)) =
      some (⟨negative, whole, fraction, 0, false⟩, rest) := by
  have hpoint : Decimal.NoDigitAhead ('.' :: (fraction ++ rest)) :=
    Decimal.noDigitAhead_cons rfl _
  have hempty : fraction.isEmpty = false := by simpa using hfractionNe
  rw [unsigned?, wholePart?_append hwhole hwholeNe hzero hpoint]
  simp only [fractionPart?_point hfraction hfractionNe hrest.noDigitAhead, hrest.spanExponent?,
    hempty, Bool.false_and]

/-- One digit, perhaps others behind a point, and an exponent. -/
theorem unsigned?_scientific (negative : Bool) {c : Char} (hc : Decimal.isDigit c = true)
    {fraction rest : List Char} (hfraction : Decimal.AllDigits fraction) (power : Int)
    (hrest : Ends rest) :
    unsigned? negative ([c] ++ (if fraction = [] then [] else '.' :: fraction) ++
        'e' :: (if power < 0 then '-' else '+') :: (Decimal.digitsOf power.natAbs ++ rest)) =
      some (⟨negative, [c], fraction, power, false⟩, rest) := by
  have hexponent := Decimal.spanExponent?_signed power hrest.noDigitAhead
  have hdigit : Decimal.AllDigits [c] := fun d hd => List.mem_singleton.mp hd ▸ hc
  have hzero : ∀ d ds, [c] ≠ '0' :: d :: ds := by simp
  -- The exponent is no digit and no point, so that the digits end in front of it.
  generalize htail : 'e' :: (if power < 0 then '-' else '+') ::
    (Decimal.digitsOf power.natAbs ++ rest) = tail at *
  have hstarts : startsExponent tail = true := by
    rw [← htail]
    rfl
  have hahead : Decimal.NoDigitAhead tail := by
    rw [← htail]
    exact Decimal.noDigitAhead_cons rfl _
  have hdot : ∀ cs, tail ≠ '.' :: cs := by
    intro cs heq
    rw [← htail] at heq
    exact absurd (List.cons.inj heq).1 (by decide)
  by_cases hempty : fraction = []
  · subst hempty
    rw [if_pos rfl, List.append_nil, unsigned?, wholePart?_append hdigit (by simp) hzero hahead]
    simp only [fractionPart?_none hdot, hexponent, hstarts]
    rfl
  · have hpoint : Decimal.NoDigitAhead ('.' :: (fraction ++ tail)) :=
      Decimal.noDigitAhead_cons rfl _
    have hisEmpty : fraction.isEmpty = false := by simpa using hempty
    rw [if_neg hempty, List.append_assoc, List.cons_append (a := '.'), unsigned?,
      wholePart?_append hdigit (by simp) hzero hpoint]
    simp only [fractionPart?_point hfraction hempty hahead, hexponent, hisEmpty, Bool.false_and]

end Written

/-! ## Doubles -/

namespace Decimal

/-- The digits in front of the point and those behind it of a text that writes a number. A number
without fraction gets a zero behind the point, and zeros in front of it in place of its exponent. -/
structure Pointed (d : Decimal) (whole fraction : List Char) : Prop where
  whole_digits : AllDigits whole
  whole_ne_nil : whole ≠ []
  no_leading_zero : ∀ c cs, whole ≠ '0' :: c :: cs
  whole_length : whole.length ≤ max 1 ((digitsOf d.digits).length + d.exponent).toNat
  fraction_digits : AllDigits fraction
  fraction_ne_nil : fraction ≠ []
  fraction_length : (fraction.length : Int) = (d.exponent + 1).toNat - d.exponent
  value : digitsValue (whole ++ fraction) = d.digits * 10 ^ (d.exponent + 1).toNat

/-- The point behind all digits, with zeros between. -/
theorem pointed_whole {d : Decimal} (hzero : d.digits = 0 → d.exponent = 0)
    (h : 0 ≤ d.exponent) :
    Pointed d (digitsOf d.digits ++ List.replicate d.exponent.toNat '0') ['0'] where
  whole_digits := (allDigits_digitsOf _).append (allDigits_zeros _)
  whole_ne_nil := by simp [digitsOf_ne_nil]
  no_leading_zero := by
    intro c cs heq
    by_cases hdigits : d.digits = 0
    · rw [hdigits, hzero hdigits] at heq
      simp [digitsOf] at heq
    · cases hfront : digitsOf d.digits with
      | nil => exact digitsOf_ne_nil _ hfront
      | cons f front =>
        rw [hfront] at heq
        obtain ⟨rfl, _⟩ := List.cons.inj heq
        exact digitsOf_ne_zero_cons hdigits front hfront
  whole_length := by
    rw [List.length_append, List.length_replicate]
    omega
  fraction_digits := allDigits_zeros 1
  fraction_ne_nil := by simp
  fraction_length := by
    rw [List.length_singleton]
    omega
  value := by
    rw [List.append_assoc, digitsValue_append, ← List.replicate_succ', digitsValue_zeros,
      digitsValue_digitsOf, List.length_replicate, Nat.add_zero]
    congr 2
    omega

/-- The point among the digits. -/
theorem pointed_among {d : Decimal} (h : d.exponent < 0)
    (hpoint : 0 < (digitsOf d.digits).length + d.exponent) :
    Pointed d ((digitsOf d.digits).take ((digitsOf d.digits).length + d.exponent).toNat)
      ((digitsOf d.digits).drop ((digitsOf d.digits).length + d.exponent).toNat) where
  whole_digits c hc := allDigits_digitsOf _ c (List.mem_of_mem_take hc)
  whole_ne_nil := by
    have hne := digitsOf_ne_nil d.digits
    simp only [ne_eq, List.take_eq_nil_iff, not_or]
    exact ⟨by omega, hne⟩
  no_leading_zero := by
    intro c cs heq
    have hdigits : digitsOf d.digits = '0' :: c ::
        (cs ++ (digitsOf d.digits).drop ((digitsOf d.digits).length + d.exponent).toNat) := by
      rw [← List.cons_append, ← List.cons_append, ← heq, List.take_append_drop]
    by_cases hzero : d.digits = 0
    · rw [hzero] at hdigits
      simp [digitsOf] at hdigits
    · exact digitsOf_ne_zero_cons hzero _ hdigits
  whole_length := by
    rw [List.length_take]
    omega
  fraction_digits c hc := allDigits_digitsOf _ c (List.mem_of_mem_drop hc)
  fraction_ne_nil := by
    simp only [ne_eq, List.drop_eq_nil_iff]
    omega
  fraction_length := by
    rw [List.length_drop]
    omega
  value := by
    rw [List.take_append_drop, digitsValue_digitsOf, show (d.exponent + 1).toNat = 0 by omega,
      Nat.pow_zero, Nat.mul_one]

/-- The point in front of all digits, with zeros between. -/
theorem pointed_behind {d : Decimal} (hpoint : (digitsOf d.digits).length + d.exponent ≤ 0) :
    Pointed d ['0'] (List.replicate (-((digitsOf d.digits).length + d.exponent)).toNat '0' ++
      digitsOf d.digits) where
  whole_digits := allDigits_zeros 1
  whole_ne_nil := by simp
  no_leading_zero := by simp
  whole_length := Nat.le_max_left 1 _
  fraction_digits := (allDigits_zeros _).append (allDigits_digitsOf _)
  fraction_ne_nil := by simp [digitsOf_ne_nil]
  fraction_length := by
    have hlength : 0 < (digitsOf d.digits).length := List.length_pos_iff.mpr (digitsOf_ne_nil _)
    rw [List.length_append, List.length_replicate]
    omega
  value := by
    have hlength : 0 < (digitsOf d.digits).length := List.length_pos_iff.mpr (digitsOf_ne_nil _)
    rw [← List.append_assoc, digitsValue_append, List.singleton_append, ← List.replicate_succ,
      digitsValue_zeros, digitsValue_digitsOf, Nat.zero_mul, Nat.zero_add,
      show (d.exponent + 1).toNat = 0 by omega, Nat.pow_zero, Nat.mul_one]

/-- In positional notation with a fraction a number shows a point. -/
theorem positional_pointed (d : Decimal) (hzero : d.digits = 0 → d.exponent = 0) :
    ∃ whole fraction, d.positional ['.', '0'] = whole ++ '.' :: fraction ∧
      Pointed d whole fraction := by
  unfold positional
  simp only
  by_cases hwhole : 0 ≤ d.exponent
  · rw [if_pos hwhole]
    exact ⟨_, _, rfl, pointed_whole hzero hwhole⟩
  · rw [if_neg hwhole]
    by_cases hpoint : 0 < ((digitsOf d.digits).length : Int) + d.exponent
    · rw [if_pos hpoint]
      exact ⟨_, _, rfl, pointed_among (by omega) hpoint⟩
    · rw [if_neg hpoint]
      exact ⟨_, _, rfl, pointed_behind (by omega)⟩

end Decimal

/-- A literal with a point or an exponent that writes a number with some zeros more behind its
digits. What stands before the point fits sixty-four bits. -/
structure NumberLiteral.Shows (n : NumberLiteral) (d : Decimal) (zeros : Nat) : Prop where
  isWhole : n.isWhole = false
  whole_lt : Decimal.digitsValue n.whole < 2 ^ 64
  decimal : n.decimal = ⟨d.negative, d.digits * 10 ^ zeros, d.exponent - zeros⟩

namespace Written

/-- A number below `10 ^ 16` in positional notation with a fraction. -/
theorem number?_positional (d : Decimal) (hzero : d.digits = 0 → d.exponent = 0)
    (hpower : (Decimal.digitsOf d.digits).length + d.exponent ≤ 16) :
    ∃ n : NumberLiteral, n.Shows d (d.exponent + 1).toNat ∧ ∀ rest, Ends rest →
      number? (d.withSign (d.positional ['.', '0']) ++ rest) = some (n, rest) := by
  obtain ⟨whole, fraction, hparts, hpointed⟩ := d.positional_pointed hzero
  refine ⟨⟨d.negative, whole, fraction, 0, false⟩, ⟨rfl, ?_, ?_⟩, fun rest hrest => ?_⟩
  · have hlength : whole.length ≤ 16 := by
      have hle := hpointed.whole_length
      omega
    calc Decimal.digitsValue whole < (0 + 1) * 10 ^ whole.length :=
          Decimal.digitsFrom_lt hpointed.whole_digits 0
      _ ≤ 1 * 10 ^ 16 := Nat.mul_le_mul_left _ (Nat.pow_le_pow_right (by decide) hlength)
      _ < 2 ^ 64 := by decide
  · rw [NumberLiteral.decimal, hpointed.value, hpointed.fraction_length,
      show (0 : Int) - ((d.exponent + 1).toNat - d.exponent) =
        d.exponent - (d.exponent + 1).toNat by omega]
  · have hsign := number?_withSign d rest
      (exists_digit hpointed.whole_digits hpointed.whole_ne_nil ('.' :: fraction))
    rw [hparts, hsign, List.append_assoc, List.cons_append]
    exact unsigned?_pointed d.negative hpointed.whole_digits hpointed.whole_ne_nil
      hpointed.no_leading_zero hpointed.fraction_digits hpointed.fraction_ne_nil hrest

/-- A number in scientific notation. -/
theorem number?_scientific (d : Decimal) :
    ∃ n : NumberLiteral, n.Shows d 0 ∧ ∀ rest, Ends rest →
      number? (d.withSign d.scientific ++ rest) = some (n, rest) := by
  obtain ⟨negative, digits, exponent⟩ := d
  have hdigits := Decimal.allDigits_digitsOf digits
  have hvalue := Decimal.digitsValue_digitsOf digits
  unfold Decimal.scientific
  simp only
  cases hfront : Decimal.digitsOf digits with
  | nil => exact absurd hfront (Decimal.digitsOf_ne_nil digits)
  | cons c fraction =>
    rw [hfront] at hdigits hvalue
    have hc : Decimal.isDigit c = true := hdigits c (List.mem_cons_self ..)
    have hfraction : Decimal.AllDigits fraction := fun e he => hdigits e (List.mem_cons_of_mem c he)
    have hdigit : Decimal.AllDigits [c] := fun d hd => List.mem_singleton.mp hd ▸ hc
    generalize hpower : ((c :: fraction).length : Int) + exponent - 1 = power
    have hexponent : power - fraction.length = exponent := by
      rw [List.length_cons] at hpower
      omega
    refine ⟨⟨negative, [c], fraction, power, false⟩, ⟨rfl, ?_, ?_⟩, fun rest hrest => ?_⟩
    · have hten : (0 + 1) * 10 ^ 1 < 2 ^ 64 := by decide
      exact Nat.lt_trans (Decimal.digitsFrom_lt hdigit 0) hten
    · rw [NumberLiteral.decimal, List.singleton_append, hvalue, hexponent, Nat.pow_zero,
        Nat.mul_one, Int.natCast_zero, Int.sub_zero]
    · have hif : (if (c :: fraction).length ≤ 1 then [] else '.' :: (c :: fraction).drop 1) =
          if fraction = [] then [] else '.' :: fraction := by
        cases fraction <;> simp
      rw [hif, show (c :: fraction).take 1 = [c] from rfl, List.append_assoc,
        number?_withSign _ _ (exists_digit hdigit (by simp) _)]
      refine Eq.trans ?_ (unsigned?_scientific negative hc hfraction power hrest)
      simp

end Written

namespace Binary64

/-- The decimal number that the tagged notation of a double writes. -/
def tagged (x : Binary64) : Decimal :=
  (x.shortest .toEven).normalize

/-- Reading it to the nearest double gives the double again. -/
theorem tagged_toBinary64? (x : Binary64) : x.tagged.toBinary64? = some x := by
  rw [tagged, Decimal.toBinary64?_normalize, shortest_toBinary64?]

theorem tagged_of_zero {x : Binary64} (h : x.significand = 0) : x.tagged = ⟨x.negative, 0, 0⟩ := by
  rw [tagged, shortest, if_pos h]
  rfl

/-- Only zero has no digits, and its exponent is zero. -/
theorem tagged_exponent_of_digits {x : Binary64} (h : x.tagged.digits = 0) :
    x.tagged.exponent = 0 := by
  have hread := x.tagged_toBinary64?
  rw [Decimal.toBinary64?, if_pos h] at hread
  have hx : x.significand = 0 := by
    rw [← Option.some.inj hread]
    rfl
  rw [tagged_of_zero hx]

theorem taggedText_eq (x : Binary64) : x.taggedText =
    if x.significand = 0 ∨
        (-5 ≤ ((Decimal.digitsOf x.tagged.digits).length : Int) + x.tagged.exponent - 1 ∧
          ((Decimal.digitsOf x.tagged.digits).length : Int) + x.tagged.exponent - 1 < 16)
    then x.tagged.withSign (x.tagged.positional ['.', '0'])
    else x.tagged.withSign x.tagged.scientific :=
  rfl

end Binary64

namespace Written

/-- A double in tagged notation is read as a literal of its decimal number. -/
theorem number?_taggedText (x : Binary64) :
    ∃ (n : NumberLiteral) (zeros : Nat), zeros ≤ (x.tagged.exponent + 1).toNat ∧
      n.Shows x.tagged zeros ∧
      ∀ rest, Ends rest → number? (x.taggedText ++ rest) = some (n, rest) := by
  rw [Binary64.taggedText_eq]
  split
  · next hpositional =>
    have hpower : (Decimal.digitsOf x.tagged.digits).length + x.tagged.exponent ≤ 16 := by
      rcases hpositional with hzero | ⟨_, hlt⟩
      · have hone : (Decimal.digitsOf 0).length + (0 : Int) ≤ 16 := by decide
        rw [Binary64.tagged_of_zero hzero]
        exact hone
      · omega
    obtain ⟨n, hshows, hread⟩ :=
      number?_positional _ Binary64.tagged_exponent_of_digits hpower
    exact ⟨n, _, Nat.le_refl _, hshows, hread⟩
  · obtain ⟨n, hshows, hread⟩ := number?_scientific x.tagged
    exact ⟨n, 0, Nat.zero_le _, hshows, hread⟩

/-! ## Whole numbers -/

/-- Digits alone are read as a whole literal. -/
theorem unsigned?_digitsOf (negative : Bool) (n : Nat) {rest : List Char} (hrest : Ends rest) :
    unsigned? negative (Decimal.digitsOf n ++ rest) =
      some (⟨negative, Decimal.digitsOf n, [], 0, true⟩, rest) := by
  have hleading : ∀ c cs, Decimal.digitsOf n ≠ '0' :: c :: cs := by
    intro c cs heq
    by_cases hzero : n = 0
    · rw [hzero] at heq
      simp [Decimal.digitsOf] at heq
    · exact Decimal.digitsOf_ne_zero_cons hzero _ heq
  have hdot : ∀ cs, rest ≠ '.' :: cs := by
    intro cs heq
    rcases hrest '.' cs heq with h | h | h <;> exact absurd h (by decide)
  rw [unsigned?, wholePart?_append (Decimal.allDigits_digitsOf n) (Decimal.digitsOf_ne_nil n)
    hleading hrest.noDigitAhead]
  simp only [fractionPart?_none hdot, hrest.spanExponent?, hrest.startsExponent]
  rfl

/-- A whole number is written as its digits behind its sign. -/
theorem toString_toList (i : Int) :
    (toString i).toList = Decimal.withSign ⟨decide (i < 0), 0, 0⟩ (Decimal.digitsOf i.natAbs) := by
  rw [Int.toString_eq_repr, Int.repr_eq_if, Decimal.withSign, Decimal.digitsOf]
  by_cases h : i < 0
  · rw [if_neg (by omega), String.toList_append, Nat.toList_repr]
    simp only [h, decide_true, if_true]
    rw [show (-i).toNat = i.natAbs by omega]
    rfl
  · rw [if_pos (by omega), Nat.toList_repr]
    simp only [h, decide_false]
    rw [show i.toNat = i.natAbs by omega]
    rfl

/-- A whole number is read as the literal of its digits. -/
theorem number?_toString (i : Int) {rest : List Char} (hrest : Ends rest) :
    number? ((toString i).toList ++ rest) =
      some (⟨decide (i < 0), Decimal.digitsOf i.natAbs, [], 0, true⟩, rest) := by
  rw [toString_toList, number?_withSign _ _ (by
    have h := exists_digit (Decimal.allDigits_digitsOf i.natAbs)
      (Decimal.digitsOf_ne_nil i.natAbs) []
    rwa [List.append_nil] at h)]
  exact unsigned?_digitsOf _ _ hrest

/-- The literal of a whole number in range stands for that number. -/
theorem toJson?_digitsOf {i : Int} (inRange : -2 ^ 63 ≤ i ∧ i < 2 ^ 64) :
    NumberLiteral.toJson? ⟨decide (i < 0), Decimal.digitsOf i.natAbs, [], 0, true⟩ =
      some (.whole i inRange) := by
  have hwhole : JsonNumber.ofInt? i = some (.whole i inRange) := dif_pos inRange
  rw [NumberLiteral.toJson?]
  simp only [Decimal.digitsValue_digitsOf, if_true]
  by_cases hneg : i < 0
  · have hvalue : -(i.natAbs : Int) = i := by omega
    have hdigits : (i.natAbs == 0) = false := beq_eq_false_iff_ne.mpr (by omega)
    simp only [decide_eq_true hneg, hdigits, Bool.and_false, if_true, Bool.false_eq_true,
      if_false, hvalue, hwhole]
  · have hvalue : (i.natAbs : Int) = i := by omega
    simp only [decide_eq_false hneg, Bool.false_and, Bool.false_eq_true, if_false, hvalue, hwhole]

end Written

end TagGraph
