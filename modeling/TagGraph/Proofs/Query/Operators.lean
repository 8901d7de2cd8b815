import TagGraph.Proofs.Number.SmallLetters

/-!
# Equality and order of values

Equality and order are decided apart, each with its own rule for when the two sides count as
numbers. They make one order of values (`PropertyValue.equals_iff_order_eq`) but for two texts that
write one number in different ways: these are in order as numbers and differ as texts
(`PropertyValue.SpelledApart`).
-/

namespace TagGraph

theorem Binary64.order_eq_iff {x y : Binary64} : x.order y = .eq ↔ x.sameValue y = true := by
  unfold order sameValue
  rw [Std.LawfulEqOrd.compare_eq_iff_eq, beq_iff_eq]

theorem Json.same_string_iff {s : String} {j : Json} :
    (Json.string s).same j = true ↔ j = .string s := by
  cases j with
  | string t =>
    rw [Json.same, beq_iff_eq, Json.string.injEq]
    exact eq_comm
  | _ => simp [Json.same]

namespace PropertyValue

variable {v : PropertyValue} {e : Expected} {left right : String}

/-! ## Equality of texts -/

theorem equalsText_iff (hleft : v.folded? = some left) (hright : Expected.folded? e = some right) :
    v.equalsText e = true ↔ left = right := by
  unfold equalsText
  rw [hleft, hright]
  exact beq_iff_eq

theorem equalsText_string_iff {s t : String} (he : e.json = .string t) :
    (string s).equalsText e = true ↔ Text.lower s = Text.lower t := by
  have hright : Expected.folded? e = some (Text.lower t) := by
    unfold Expected.folded? Expected.text?
    rw [he]
    rfl
  exact equalsText_iff rfl hright

/-- A blob with the expected content has its text, if it has one. -/
theorem folded?_eq_of_equalsBlob (h : v.equalsBlob e = true) (hleft : v.folded? = some left)
    (hright : Expected.folded? e = some right) : left = right := by
  cases v with
  | json d =>
    have hsame : d.json.same e.json = true := h
    have htext : d.json.asString?.map Text.lower = some left := hleft
    cases hd : d.json with
    | string s =>
      rw [hd, Json.same_string_iff] at hsame
      rw [hd] at htext
      rw [Expected.folded?, Expected.text?, hsame] at hright
      exact Option.some.inj (htext.symm.trans hright)
    | _ => simp [hd, Json.asString?] at htext
  | _ => cases h

/-- Truth values are equal exactly if their texts are. -/
theorem folded?_boolean_eq_iff {a b : Bool} (he : e.json = .bool b)
    (hleft : (boolean a).folded? = some left) (hright : Expected.folded? e = some right) :
    left = right ↔ a = b := by
  have htexts : ∀ a b : Bool, Text.lower (if a then "true" else "false") =
      Text.lower (if b then "true" else "false") ↔ a = b := by decide +kernel
  unfold Expected.folded? Expected.text? at hright
  rw [he] at hright
  obtain rfl := Option.some.inj hleft
  obtain rfl := Option.some.inj hright
  exact htexts a b

/-- Where the two sides do not both count as numbers, equality is that of the texts. -/
theorem equals_iff_of_texts (hnumbers : v.numeric? = none ∨ Expected.numeric? e = none)
    (hleft : v.folded? = some left) (hright : Expected.folded? e = some right) :
    v.equals e = true ↔ left = right := by
  have hscalar : v.equalsScalar e = v.equalsText e := by
    unfold equalsScalar
    rcases hnumbers with h | h
    · rw [h]
    · rw [h]
      cases v.numeric? <;> rfl
  unfold equals
  rw [Bool.or_eq_true]
  constructor
  · rintro (hblob | hrest)
    · exact folded?_eq_of_equalsBlob hblob hleft hright
    · split at hrest
      · next a b he => exact (folded?_boolean_eq_iff he hleft hright).mpr (beq_iff_eq.mp hrest)
      · rw [hscalar] at hrest
        exact (equalsText_iff hleft hright).mp hrest
  · intro heq
    apply Or.inr
    split
    · next a b he => exact beq_iff_eq.mpr ((folded?_boolean_eq_iff he hleft hright).mp heq)
    · rw [hscalar]
      exact (equalsText_iff hleft hright).mpr heq

/-! ## Equality of numbers -/

/-- Two texts write one number in different ways, such as `1` and `1.0`. -/
def SpelledApart (v : PropertyValue) (e : Expected) : Prop :=
  ∃ s t x y, v = .string s ∧ e.json = .string t ∧ Number.ofText? s = some x ∧
    Number.ofText? t = some y ∧ x.sameValue y = true ∧ Text.lower s ≠ Text.lower t

theorem numeric?_of_string {t : String} (he : e.json = .string t) :
    Expected.numeric? e = Number.ofText? t := by
  unfold Expected.numeric?
  rw [he]

/-- Where both sides count as numbers, each is a number or a text that writes one. -/
theorem equals_eq_of_numbers {x y : Binary64} (hx : v.numeric? = some x)
    (hy : Expected.numeric? e = some y) : v.equals e =
      if v.isNumber || Expected.isNumber e then x.sameValue y else v.equalsText e := by
  have hscalar : v.equalsScalar e =
      if v.isNumber || Expected.isNumber e then x.sameValue y else v.equalsText e := by
    unfold equalsScalar
    rw [hx, hy]
  rw [← hscalar]
  cases v with
  | number n => rfl
  | string s => rfl
  | _ => cases hx

/-- Texts that are equal without regard to case and write numbers write the same one. -/
theorem ofText?_eq_of_lower_eq {s t : String} {x y : Binary64} (hx : Number.ofText? s = some x)
    (hy : Number.ofText? t = some y) (h : Text.lower s = Text.lower t) : x = y := by
  have hlower := Number.ofText?_lower hx
  rw [h, Number.ofText?_lower hy] at hlower
  exact Option.some.inj hlower.symm

/-- Numbers that are not spelled apart are equal exactly if they are level. -/
theorem equals_iff_of_numbers {x y : Binary64} (hx : v.numeric? = some x)
    (hy : Expected.numeric? e = some y) (hapart : ¬ SpelledApart v e) :
    v.equals e = true ↔ x.sameValue y = true := by
  rw [equals_eq_of_numbers hx hy]
  by_cases hnumber : (v.isNumber || Expected.isNumber e) = true
  · rw [if_pos hnumber]
  · rw [if_neg hnumber]
    -- Neither side is a number, so that both are texts.
    obtain ⟨s, rfl⟩ : ∃ s, v = .string s := by
      cases v with
      | string s => exact ⟨s, rfl⟩
      | number n => simp [isNumber, asNumber?] at hnumber
      | _ => cases hx
    obtain ⟨t, he⟩ : ∃ t, e.json = .string t := by
      unfold Expected.numeric? at hy
      cases he : e.json with
      | string t => exact ⟨t, rfl⟩
      | number n => simp [Expected.isNumber, he] at hnumber
      | _ => simp [he] at hy
    have hs : Number.ofText? s = some x := hx
    have ht : Number.ofText? t = some y := (numeric?_of_string he).symm.trans hy
    rw [equalsText_string_iff he]
    constructor
    · intro hlower
      rw [ofText?_eq_of_lower_eq hs ht hlower]
      exact beq_self_eq_true _
    · intro hsame
      by_contra hlower
      exact hapart ⟨s, t, x, y, rfl, he, hs, ht, hsame, hlower⟩

/-! ## One order -/

theorem order?_of_numbers {x y : Binary64} (hx : v.numeric? = some x)
    (hy : Expected.numeric? e = some y) : v.order? e = some (x.order y) := by
  unfold order?
  rw [hx, hy]

/-- Two sides that compare are level exactly if they are equal, unless they are spelled apart. -/
theorem equals_iff_order_eq {order : Ordering} (h : v.order? e = some order)
    (hapart : ¬ SpelledApart v e) : v.equals e = true ↔ order = .eq := by
  by_cases hnumbers : v.numeric? = none ∨ Expected.numeric? e = none
  · have htexts : ∃ left right, v.folded? = some left ∧ Expected.folded? e = some right ∧
        order = compare left right := by
      unfold order? at h
      split at h
      · next x y hx hy => simp [hx, hy] at hnumbers
      · split at h
        · next left right hleft hright =>
          exact ⟨left, right, hleft, hright, (Option.some.inj h).symm⟩
        · cases h
    obtain ⟨left, right, hleft, hright, rfl⟩ := htexts
    rw [equals_iff_of_texts hnumbers hleft hright, Std.LawfulEqOrd.compare_eq_iff_eq]
  · obtain ⟨hx, hy⟩ := not_or.mp hnumbers
    obtain ⟨x, hx⟩ := Option.ne_none_iff_exists'.mp hx
    obtain ⟨y, hy⟩ := Option.ne_none_iff_exists'.mp hy
    rw [order?_of_numbers hx hy] at h
    rw [equals_iff_of_numbers hx hy hapart, ← Binary64.order_eq_iff, Option.some.inj h]

/-- Two texts that are spelled apart are level and not equal. -/
theorem SpelledApart.level (h : SpelledApart v e) :
    v.order? e = some .eq ∧ v.equals e = false := by
  obtain ⟨s, t, x, y, rfl, he, hs, ht, hsame, hlower⟩ := h
  have hy : Expected.numeric? e = some y := (numeric?_of_string he).trans ht
  have hnumber : ¬ ((string s).isNumber || Expected.isNumber e) = true := by
    simp [isNumber, asNumber?, Expected.isNumber, he]
  constructor
  · rw [order?_of_numbers (v := .string s) hs hy, Binary64.order_eq_iff.mpr hsame]
  · rw [equals_eq_of_numbers (v := .string s) hs hy, if_neg hnumber, ← Bool.not_eq_true,
      equalsText_string_iff he]
    exact hlower

end PropertyValue

/-! ## Operators -/

namespace PropertyOp

variable {v : PropertyValue} {e : Expected}

theorem test_eq_single : eq.test [v] e = v.equals e := by
  rw [test, List.any_cons, List.any_nil, Bool.or_false]

/-- An operator of order on one value asks for the order of it. -/
theorem anyOrder_single {order : Ordering} (h : v.order? e = some order)
    (wanted : Ordering → Bool) : PropertyValue.anyOrder [v] e wanted = wanted order := by
  unfold PropertyValue.anyOrder
  rw [List.any_cons, List.any_nil, Bool.or_false, h, Option.any_some]

/-- Of a value that compares with the expected one exactly one of less, equal and greater holds, and
the two other operators of order say greater or equal and less or equal; unless both are texts that
write one number in different ways. Of such a value none of the three holds, and both of the others
do. -/
theorem test_order (v : PropertyValue) (e : Expected) (h : (v.order? e).isSome = true) :
    (¬ v.SpelledApart e →
      (∃! op, op ∈ [lt, eq, gt] ∧ test op [v] e = true) ∧
      (gte.test [v] e = true ↔ gt.test [v] e = true ∨ eq.test [v] e = true) ∧
      (lte.test [v] e = true ↔ lt.test [v] e = true ∨ eq.test [v] e = true)) ∧
    (v.SpelledApart e →
      (∀ op ∈ [lt, eq, gt], test op [v] e = false) ∧ ∀ op ∈ [gte, lte], test op [v] e = true) := by
  obtain ⟨order, horder⟩ := Option.isSome_iff_exists.mp h
  have hlt : lt.test [v] e = (order == .lt) := anyOrder_single horder _
  have hgt : gt.test [v] e = (order == .gt) := anyOrder_single horder _
  have hgte : gte.test [v] e = (order != .lt) := anyOrder_single horder _
  have hlte : lte.test [v] e = (order != .gt) := anyOrder_single horder _
  constructor
  · intro hapart
    have heq : eq.test [v] e = (order == .eq) := by
      rw [test_eq_single, Bool.eq_iff_iff, PropertyValue.equals_iff_order_eq horder hapart,
        beq_iff_eq]
    refine ⟨?_, ?_, ?_⟩
    · cases order with
      | lt => exact ⟨lt, by simp [hlt], by simp [heq, hgt]⟩
      | eq => exact ⟨eq, by simp [heq], by simp [hlt, hgt]⟩
      | gt => exact ⟨gt, by simp [hgt], by simp [hlt, heq]⟩
    · rw [hgte, hgt, heq]
      cases order <;> decide
    · rw [hlte, hlt, heq]
      cases order <;> decide
  · intro hapart
    obtain ⟨hlevel, hequals⟩ := hapart.level
    obtain rfl : order = .eq := Option.some.inj (horder.symm.trans hlevel)
    simp [hlt, hgt, hgte, hlte, test_eq_single, hequals]

/-- A number in two spellings that differ in case alone. -/
theorem test_order_exponent :
    let v : PropertyValue := .string "1E2"
    let e : Expected := .ofJson (.string "1e2")
    (v.order? e).isSome = true ∧ ¬ v.SpelledApart e ∧
      ∃! op, op ∈ [lt, eq, gt] ∧ test op [v] e = true := by
  intro v e
  have hsome : (v.order? e).isSome = true := by decide +kernel
  have hapart : ¬ v.SpelledApart e := by
    rintro ⟨s, t, x, y, hs, ht, -, -, -, hlower⟩
    obtain rfl : "1E2" = s := PropertyValue.string.inj hs
    obtain rfl : "1e2" = t := Json.string.inj ht
    exact hlower (by decide +kernel)
  exact ⟨hsome, hapart, ((test_order v e hsome).1 hapart).1⟩

/-- A number in two spellings is neither less than itself nor equal to itself nor greater, but not
less and not greater. -/
theorem not_test_order_spelled :
    let v : PropertyValue := .string "1.0"
    let e : Expected := .ofJson (.string "1")
    (v.order? e).isSome = true ∧ (∀ op ∈ [lt, eq, gt], test op [v] e = false) ∧
      ¬ (gte.test [v] e = true ↔ gt.test [v] e = true ∨ eq.test [v] e = true) ∧
      ¬ (lte.test [v] e = true ↔ lt.test [v] e = true ∨ eq.test [v] e = true) := by
  decide +kernel

end PropertyOp

end TagGraph
