import TagGraph.Proofs.Calendar.Written
import TagGraph.Proofs.Query.Links
import TagGraph.Proofs.Query.Operators
import TagGraph.Proofs.Query.Sorting

/-!
# Dates as values

Dates are stored as texts, and are compared and put in order as such. The year, the month and the
day have a fixed number of figures each, and the greatest part comes first, so that the order of the
texts is that of the days (`Calendar.Date.compare_text`). No date is taken for a number
(`Calendar.Date.ofText?_text`).
-/

namespace TagGraph

open Reading

/-! ## The order of figures -/

namespace Decimal

/-- Of two texts with fronts of one length the fronts decide, and if these are equal the rests. -/
theorem append_lt_append_iff {front front' rest rest' : List Char}
    (h : front.length = front'.length) :
    front ++ rest < front' ++ rest' ↔ front < front' ∨ front = front' ∧ rest < rest' := by
  induction front generalizing front' with
  | nil =>
    obtain rfl := List.length_eq_zero_iff.mp h.symm
    simp
  | cons c cs ih =>
    cases front' with
    | nil => cases h
    | cons d ds =>
      rw [List.cons_append, List.cons_append, List.cons_lt_cons_iff, List.cons_lt_cons_iff,
        ih (Nat.succ.inj h), List.cons.injEq]
      tauto

variable {width m n : Nat}

theorem map_smallMark_figures (width n : Nat) :
    (figures width n).map smallMark = figures width n :=
  (List.map_congr_left fun c hc => smallMark_of_isDigit (allDigits_figures width n c hc)).trans
    (List.map_id _)

theorem figures_inj (hm : m < 10 ^ width) (hn : n < 10 ^ width) :
    figures width m = figures width n ↔ m = n := by
  refine ⟨fun h => ?_, fun h => by rw [h]⟩
  rw [← digitsValue_figures hm, h, digitsValue_figures hn]

/-- Figures have the order of the numbers. -/
theorem figures_lt_iff (hm : m < 10 ^ width) (hn : n < 10 ^ width) :
    figures width m < figures width n ↔ m < n := by
  induction width generalizing m n with
  | zero =>
    obtain rfl : m = 0 := Nat.lt_one_iff.mp hm
    obtain rfl : n = 0 := Nat.lt_one_iff.mp hn
    exact iff_of_false (List.lt_irrefl _) (Nat.lt_irrefl 0)
  | succ width ih =>
    have hfront {n : Nat} (h : n < 10 ^ (width + 1)) : n / 10 < 10 ^ width := by
      rw [Nat.pow_succ] at h
      exact Nat.div_lt_of_lt_mul (by omega)
    have hlast : ∀ d e : Fin 10, [d.val.digitChar] < [e.val.digitChar] ↔ d < e := by decide
    have hdigit := hlast ⟨m % 10, Nat.mod_lt m (by decide)⟩ ⟨n % 10, Nat.mod_lt n (by decide)⟩
    rw [figures, figures, append_lt_append_iff (by simp only [length_figures]),
      ih (hfront hm) (hfront hn), figures_inj (hfront hm) (hfront hn), hdigit, Fin.mk_lt_mk]
    omega

end Decimal

/-! ## The texts of dates -/

namespace Calendar.Date

open Decimal

variable {a b d : Date}

/-- A date as `YYYY-MM-DD`. -/
def text (d : Date) : String :=
  String.ofList d.chars

theorem chars_lt_iff (ha : a.Fits) (hb : b.Fits) : a.chars < b.chars ↔ a.Before b := by
  have hyear {d : Date} (hd : d.Fits) : d.year.toNat < 10 ^ 4 := by
    have := hd.year.2
    omega
  rw [chars, chars, append_lt_append_iff (by simp only [length_figures]), List.cons_lt_cons_iff,
    append_lt_append_iff (by simp only [length_figures]), List.cons_lt_cons_iff,
    figures_lt_iff (hyear ha) (hyear hb), figures_inj (hyear ha) (hyear hb),
    figures_lt_iff ha.month hb.month, figures_inj ha.month hb.month, figures_lt_iff ha.day hb.day]
  have := ha.year.1
  have := hb.year.1
  simp only [Char.lt_irrefl, false_or, true_and, Before]
  omega

theorem text_lt_iff (ha : a.Fits) (hb : b.Fits) : a.text < b.text ↔ a.Before b := by
  have hlists : a.text < b.text ↔ a.text.toList < b.text.toList := Iff.rfl
  rw [hlists, text, text, String.toList_ofList, String.toList_ofList, chars_lt_iff ha hb]

/-- The texts of dates have the order of the days. -/
theorem compare_text (ha : a.Fits) (hb : b.Fits) (hexists : a.Exists) (hexists' : b.Exists) :
    compare a.text b.text = compare a.epochDay b.epochDay := by
  have hlt {a b : Date} (ha : a.Fits) (hb : b.Fits) (hexists : a.Exists) (hexists' : b.Exists) :
      compare a.text b.text = .lt ↔ a.epochDay < b.epochDay := by
    rw [Text.compare_eq_lt_iff, ← Text.lt_iff_bytes_lt, text_lt_iff ha hb,
      epochDay_lt_iff hexists hexists']
  rcases Int.lt_trichotomy a.epochDay b.epochDay with h | h | h
  · rw [Int.compare_eq_lt.mpr h, hlt ha hb hexists hexists']
    exact h
  · obtain rfl := (epochDay_inj hexists hexists').mp h
    rw [Std.LawfulEqOrd.compare_eq_iff_eq.mpr rfl, Std.LawfulEqOrd.compare_eq_iff_eq.mpr rfl]
  · rw [Int.compare_eq_gt.mpr h, Std.OrientedCmp.gt_iff_lt, hlt hb ha hexists' hexists]
    exact h

theorem isNumeral_of_mem_chars {c : Char} (h : c ∈ d.chars) : IsNumeral c := by
  have hfigures (width n : Nat) : ∀ c ∈ figures width n, IsNumeral c :=
    fun c hc => Or.inl (allDigits_figures width n c hc)
  have hhyphen : IsNumeral '-' := Or.inr (by decide)
  revert c
  simp only [chars, List.forall_mem_append, List.forall_mem_cons]
  exact ⟨hfigures _ _, hhyphen, hfigures _ _, hhyphen, hfigures _ _⟩

/-- A date has no letters. -/
theorem lower_text (d : Date) : Text.lower d.text = d.text := by
  have hmarks : d.chars.map smallMark = d.chars := by
    simp only [chars, List.map_append, List.map_cons, map_smallMark_figures]
    rfl
  rw [Text.lower, text, String.toList_ofList,
    Text.lowerChars_eq_map fun c hc => Text.lowerChar_of_isNumeral (isNumeral_of_mem_chars hc),
    hmarks]

/-- No date is taken for a number: a hyphen does not carry a number on. -/
theorem ofText?_text (d : Date) : Number.ofText? d.text = none := by
  have hspan (rest : List Char) : spanDigits (figures 4 d.year.toNat ++ '-' :: rest) =
      (figures 4 d.year.toNat, '-' :: rest) :=
    spanDigits_append (allDigits_figures _ _) (noDigitAhead_hyphen rest)
  obtain ⟨c, cs, hcons, hc⟩ := exists_figures_cons (by decide : 0 < 4) d.year.toNat
  have htrim : Text.trimChars d.chars = d.chars := by
    have haround := Text.trimChars_around (List.forall_mem_nil _) (List.forall_mem_nil _)
      d.isBlank_chars
    rwa [List.nil_append, List.append_nil] at haround
  have hnone : Decimal.ofChars? d.chars = none := by
    have hsign : spanSign d.chars = (false, d.chars) := by
      rw [chars, hcons, List.cons_append]
      unfold spanSign
      split
      · next heq => obtain ⟨rfl, -⟩ := List.cons.inj heq; cases hc
      · next heq => obtain ⟨rfl, -⟩ := List.cons.inj heq; cases hc
      · rfl
    rw [Decimal.ofChars?_eq]
    simp only [hsign]
    rw [chars, hspan]
    rfl
  rw [Number.ofText?, text, String.toList_ofList, htrim, hnone]
  rfl

theorem ofString?_text (hd : d.Fits) (hexists : d.Exists) :
    ofString? d.text = some (d.epochDay * 86400000) := by
  obtain ⟨hstamp, htime, hdate⟩ := ofChars?_chars hd
  have hread := readWithin_eq (List.forall_mem_nil _) (List.forall_mem_nil _) d.isBlank_chars
  rw [hstamp, htime, hdate, instant?_eq_some hd hexists rfl, readWithin, List.nil_append,
    List.append_nil] at hread
  rw [text, hread]
  simp [instant, Time.milliseconds, Time.midnight]

end Calendar.Date

/-! ## Dates among other values -/

open Calendar (Date)

variable {a b : Date}

/-- A date compares with an expected one as the days do. -/
theorem PropertyValue.order?_date (ha : a.Fits) (hb : b.Fits) (hexists : a.Exists)
    (hexists' : b.Exists) {e : Expected} (he : e.json = .string b.text) :
    (string a.text).order? e = some (compare a.epochDay b.epochDay) := by
  have hleft : (string a.text).numeric? = none := a.ofText?_text
  have hfolded : (string a.text).folded? = some a.text := congrArg some a.lower_text
  have hfolded' : Expected.folded? e = some b.text := by
    rw [Expected.folded?, Expected.text?, he]
    exact congrArg some b.lower_text
  unfold order?
  rw [hleft, hfolded, hfolded', ← Date.compare_text ha hb hexists hexists']

/-- The operators of order ask for the order of the days. -/
theorem PropertyOp.test_date (ha : a.Fits) (hb : b.Fits) (hexists : a.Exists) (hexists' : b.Exists)
    {e : Expected} (he : e.json = .string b.text) :
    test .gt [.string a.text] e = decide (b.epochDay < a.epochDay) ∧
      test .gte [.string a.text] e = decide (b.epochDay ≤ a.epochDay) ∧
      test .lt [.string a.text] e = decide (a.epochDay < b.epochDay) ∧
      test .lte [.string a.text] e = decide (a.epochDay ≤ b.epochDay) := by
  have horder := PropertyValue.order?_date ha hb hexists hexists' he
  have hgt : (compare a.epochDay b.epochDay == .gt) = decide (b.epochDay < a.epochDay) := by
    rw [Bool.eq_iff_iff, beq_iff_eq, Int.compare_eq_gt, decide_eq_true_eq]
  have hlt : (compare a.epochDay b.epochDay == .lt) = decide (a.epochDay < b.epochDay) := by
    rw [Bool.eq_iff_iff, beq_iff_eq, Int.compare_eq_lt, decide_eq_true_eq]
  refine ⟨(anyOrder_single horder _).trans hgt, (anyOrder_single horder _).trans ?_,
    (anyOrder_single horder _).trans hlt, (anyOrder_single horder _).trans ?_⟩
  · rw [bne, hlt, ← decide_not, decide_eq_decide, Int.not_lt]
  · rw [bne, hgt, ← decide_not, decide_eq_decide, Int.not_lt]

namespace SortKey

/-- The key of a date is its text. -/
theorem ofValue?_date (d : Date) : ofValue? (.string d.text) = some (.text d.text) := by
  have hnumeric : (PropertyValue.string d.text).numeric? = none := d.ofText?_text
  have hfolded : (PropertyValue.string d.text).folded? = some d.text := congrArg some d.lower_text
  rw [ofValue?, hnumeric, hfolded]
  rfl

theorem below_date_iff (ha : a.Fits) (hb : b.Fits) (hexists : a.Exists) (hexists' : b.Exists) :
    (text a.text).Below (text b.text) ↔ a.epochDay < b.epochDay := by
  rw [Below, ← Text.lt_iff_bytes_lt, Date.text_lt_iff ha hb, Date.epochDay_lt_iff hexists hexists']

end SortKey

namespace Store

variable {s : Store} {now : Int} {name : String} {field : Node}

/-- The first value of a node under the name of a field is a date. -/
def HoldsDate (s : Store) (name : String) (n : NodeId) (d : Date) : Prop :=
  d.Fits ∧ d.Exists ∧ s.value? n name = .ok (some (.string d.text))

namespace Sound

variable (hs : s.Sound) (hfield : s.findLive? name = .ok (some field))
include hs hfield

/-- What is read under a name is what an assembled node has under the field. -/
theorem values_of_mem_joinedNodes {n : AssembledNode} (hn : n ∈ s.joinedNodes) :
    s.values n.id name = .ok (n.valuesByFieldId field.id) := by
  obtain ⟨node, hnode, rfl⟩ := List.mem_map.mp hn
  exact hs.values_joined hnode hfield

theorem value?_of_mem_joinedNodes {n : AssembledNode} (hn : n ∈ s.joinedNodes) :
    s.value? n.id name = .ok (n.valuesByFieldId field.id).head? := by
  rw [value?, hs.values_of_mem_joinedNodes hfield hn]
  rfl

omit hs in
theorem found?_findLiveId? : found? (s.findLiveId? name) = some field.id := by
  rw [findLiveId?, hfield]
  rfl

theorem decides_property (now : Int) {n : NodeId} (hlive : s.IsLive n) {values : List PropertyValue}
    (hvalues : s.values n name = .ok values) (op : PropertyOp) (e : Expected) {answer : Bool}
    (hanswer : op.test (PropertyValue.flatten values) e = answer) :
    s.Decides now n (.property name op e) answer := by
  obtain ⟨n, hn, rfl⟩ := hs.exists_joined hlive
  obtain rfl := Except.ok.inj ((hs.values_of_mem_joinedNodes hfield hn).symm.trans hvalues)
  rw [hs.decides_id_iff hn, Filter.holds, found?_findLiveId? hfield]
  exact hanswer

omit hs in
theorem sortKeyOf_field (hname : name ∉ ["content", "createdAt", "updatedAt"])
    (n : AssembledNode) :
    s.sortKeyOf name n = (n.valuesByFieldId field.id).head?.bind SortKey.ofValue? := by
  simp only [List.mem_cons, List.not_mem_nil, or_false, not_or] at hname
  unfold sortKeyOf
  split
  · exact absurd rfl hname.1
  · exact absurd rfl hname.2.1
  · exact absurd rfl hname.2.2
  · rw [found?_findLiveId? hfield]
    rfl

theorem sortKeyOf_date (hname : name ∉ ["content", "createdAt", "updatedAt"])
    {n : AssembledNode} (hn : n ∈ s.joinedNodes) {d : Date} (hd : s.HoldsDate name n.id d) :
    s.sortKeyOf name n = some (.text d.text) := by
  have hvalue := hd.2.2
  rw [hs.value?_of_mem_joinedNodes hfield hn] at hvalue
  rw [sortKeyOf_field hfield hname, Except.ok.inj hvalue, Option.bind_some, SortKey.ofValue?_date]

theorem sortKeyOf_eq_none (hname : name ∉ ["content", "createdAt", "updatedAt"])
    {n : AssembledNode} (hn : n ∈ s.joinedNodes) (hnone : s.value? n.id name = .ok none) :
    s.sortKeyOf name n = none := by
  rw [hs.value?_of_mem_joinedNodes hfield hn] at hnone
  rw [sortKeyOf_field hfield hname, Except.ok.inj hnone]
  rfl

/-! ## Sorting by dates -/

/-- Nodes with dates are put in the order of these. -/
theorem arranged_dates (hname : name ∉ ["content", "createdAt", "updatedAt"])
    {nodes : List AssembledNode} (hnodes : ∀ n ∈ nodes, n ∈ s.joinedNodes)
    (hdates : ∀ n ∈ nodes, s.value? n.id name = .ok none ∨ ∃ d, s.HoldsDate name n.id d) :
    ∃ dated undated : List AssembledNode, (dated ++ undated).Perm nodes ∧ undated.Sublist nodes ∧
      (∀ n ∈ undated, s.value? n.id name = .ok none) ∧
      (∀ n ∈ dated, ∃ d, s.HoldsDate name n.id d) ∧
      (dated.Pairwise fun a b => ∃ d e, s.HoldsDate name a.id d ∧ s.HoldsDate name b.id e ∧
        (d.epochDay < e.epochDay ∨ d.epochDay = e.epochDay ∧ [a, b].Sublist nodes)) ∧
      ∀ direction,
        (RankedNode.sort direction (s.ranked name nodes)).map (·.node) = match direction with
          | .asc => dated ++ undated
          | .desc => dated.reverse ++ undated.reverse := by
  have hkey : ∀ n ∈ nodes, ∀ d, s.HoldsDate name n.id d →
      s.sortKeyOf name n = some (.text d.text) :=
    fun n hn _ hd => hs.sortKeyOf_date hfield hname (hnodes n hn) hd
  have hranked := s.ranked_pairwise name nodes
  have hordered := s.orderedBy_keyed name nodes
  have hdated : ∀ n ∈ (RankedNode.keyed (s.ranked name nodes)).map (·.node),
      n ∈ nodes ∧ ∃ d, s.HoldsDate name n.id d := by
    intro n hn
    obtain ⟨hmem, hsome⟩ := List.mem_filter.mp (hordered.perm.subset hn)
    refine ⟨hmem, (hdates n hmem).resolve_left fun hnone => ?_⟩
    rw [hs.sortKeyOf_eq_none hfield hname (hnodes n hmem) hnone] at hsome
    cases hsome
  refine ⟨_, _, s.keyed_append_unkeyed_nodes_perm name nodes, List.filter_sublist, ?_,
    fun n hn => (hdated n hn).2, hordered.pairwise.imp_of_mem ?_, fun direction => ?_⟩
  · intro n hn
    obtain ⟨hmem, hnone⟩ := List.mem_filter.mp hn
    refine (hdates n hmem).resolve_right fun ⟨d, hd⟩ => ?_
    rw [hkey n hmem d hd] at hnone
    cases hnone
  · rintro a b ha hb ⟨k, l, hk, hl, hkeys⟩
    obtain ⟨ha, d, hd⟩ := hdated a ha
    obtain ⟨hb, e, he⟩ := hdated b hb
    obtain rfl := Option.some.inj ((hkey a ha d hd).symm.trans hk)
    obtain rfl := Option.some.inj ((hkey b hb e he).symm.trans hl)
    rw [SortKey.below_date_iff hd.1 he.1 hd.2.1 he.2.1,
      SortKey.below_date_iff he.1 hd.1 he.2.1 hd.2.1] at hkeys
    refine ⟨d, e, hd, he, ?_⟩
    rcases hkeys with hlt | ⟨hle, hpair⟩
    · exact Or.inl hlt
    · rcases Int.lt_or_eq_of_le (Int.not_lt.mp hle) with hlt | heq
      · exact Or.inl hlt
      · exact Or.inr ⟨heq, hpair⟩
  · cases direction with
    | asc =>
      rw [RankedNode.sort_asc_eq hranked, List.map_append, RankedNode.unkeyed,
        filter_ranked (·.isNone)]
    | desc =>
      rw [RankedNode.sort_desc_eq hranked, List.map_append, List.map_reverse, List.map_reverse,
        RankedNode.unkeyed, filter_ranked (·.isNone)]

end Sound

/-- On every store that a run leaves, a name stands for a field. A live node whose only value under
it is a date passes the operators of order, with another date as the expected value, exactly as the
instants of the two dates compare. Live nodes whose first values under it are dates, if they have
any, are sorted by it into the order of the instants, with equal dates in the order of creation;
those without a value follow. In the other direction both parts are turned round. -/
theorem dates_run (steps : List Step) (now : Int) {name : String} {field : Node}
    (hfield : (Store.empty.run steps).findLive? name = .ok (some field)) :
    let s := Store.empty.run steps
    (∀ n (a b : Date) (e : Expected), a.Fits → b.Fits → a.Exists → b.Exists →
      s.IsLive n → s.values n name = .ok [.string a.text] → e.json = .string b.text →
      ∃ t u, Calendar.ofString? a.text = some t ∧ Calendar.ofString? b.text = some u ∧
        s.Decides now n (.property name .gt e) (decide (t > u)) ∧
        s.Decides now n (.property name .gte e) (decide (t ≥ u)) ∧
        s.Decides now n (.property name .lt e) (decide (t < u)) ∧
        s.Decides now n (.property name .lte e) (decide (t ≤ u))) ∧
    ∀ filters, name ∉ ["content", "createdAt", "updatedAt"] →
      let nodes := s.matching now filters
      (∀ n ∈ nodes, s.value? n.id name = .ok none ∨ ∃ d, s.HoldsDate name n.id d) →
      (nodes.Pairwise fun a b => a.createdAt ≤ b.createdAt) ∧
      ∃ dated undated : List AssembledNode, (dated ++ undated).Perm nodes ∧ undated.Sublist nodes ∧
        (∀ n ∈ undated, s.value? n.id name = .ok none) ∧
        (∀ n ∈ dated, ∃ d, s.HoldsDate name n.id d) ∧
        (dated.Pairwise fun a b => ∃ d e t u, s.HoldsDate name a.id d ∧ s.HoldsDate name b.id e ∧
          Calendar.ofString? d.text = some t ∧ Calendar.ofString? e.text = some u ∧
          (t < u ∨ t = u ∧ [a, b].Sublist nodes)) ∧
        ∀ direction limit,
          (⟨filters, some ⟨name, direction⟩, limit⟩ : QueryDefinition).isValid = true →
          ∃ page, s.evaluate now ⟨filters, some ⟨name, direction⟩, limit⟩ = .ok page ∧
            page.nodes = ((match direction with
              | .asc => dated ++ undated
              | .desc => dated.reverse ++ undated.reverse).take limit.toNat) := by
  intro s
  have hs : s.Sound := empty_sound.run steps
  refine ⟨fun n a b e ha hb hexists hexists' hlive hvalues he => ?_, fun filters hname => ?_⟩
  · obtain ⟨hgt, hgte, hlt, hlte⟩ := PropertyOp.test_date ha hb hexists hexists' he
    refine ⟨_, _, Date.ofString?_text ha hexists, Date.ofString?_text hb hexists', ?_, ?_, ?_, ?_⟩
    · refine hs.decides_property hfield now hlive hvalues .gt e (hgt.trans ?_)
      exact decide_eq_decide.mpr (by omega)
    · refine hs.decides_property hfield now hlive hvalues .gte e (hgte.trans ?_)
      exact decide_eq_decide.mpr (by omega)
    · refine hs.decides_property hfield now hlive hvalues .lt e (hlt.trans ?_)
      exact decide_eq_decide.mpr (by omega)
    · refine hs.decides_property hfield now hlive hvalues .lte e (hlte.trans ?_)
      exact decide_eq_decide.mpr (by omega)
  · intro nodes hdates
    have hnodes : nodes.Sublist s.joinedNodes := List.filter_sublist
    obtain ⟨dated, undated, hperm, hundated, hnone, hsome, hordered, hsort⟩ :=
      hs.arranged_dates hfield hname (fun n hn => hnodes.subset hn) hdates
    refine ⟨hs.joinedNodes_createdAt.sublist hnodes, dated, undated, hperm, hundated, hnone, hsome,
      hordered.imp ?_, fun direction limit hvalid => ?_⟩
    · rintro a b ⟨d, e, hd, he, hlt⟩
      refine ⟨d, e, _, _, hd, he, Date.ofString?_text hd.1 hd.2.1,
        Date.ofString?_text he.1 he.2.1, hlt.imp (fun h => ?_) (And.imp_left fun h => ?_)⟩
      · omega
      · rw [h]
    · obtain ⟨arrangement, harranged, hpage⟩ :=
        hs.evaluate_eq now filters (some ⟨name, direction⟩)
      rw [← hsort direction, ← harranged.eq_sort]
      exact ⟨_, hpage limit hvalid, rfl⟩

/-- Two things that are due on the first of March and the last of February of a leap year. -/
theorem dates_run_due :
    let id (i : Nat) (h : i < 2 ^ 128) : NodeId := ⟨i, h⟩
    let create (id : NodeId) (systemId : String) : Step :=
      ⟨5, .graph (.createNode ⟨id, systemId, some systemId, none, []⟩)⟩
    let due := id 1 (by decide)
    let milk := id 2 (by decide)
    let bread := id 3 (by decide)
    let s := Store.empty.run [create due "shop:due", create milk "shop:milk",
      create bread "shop:bread",
      ⟨6, .graph (.setProperty milk "shop:due" (.string "2024-03-01") none)⟩,
      ⟨6, .graph (.setProperty bread "shop:due" (.string "2024-02-29") none)⟩]
    s.Decides 7 bread (.property "shop:due" .lt (.ofJson (.string "2024-03-01"))) true ∧
      ∃ page, s.evaluate 7 ⟨[], some ⟨"shop:due", .asc⟩, 2⟩ = .ok page := by
  intro id create due milk bread s
  have hs : s.Sound := empty_sound.run _
  have hname : IsName "shop:due" := ⟨by decide +kernel, by decide +kernel⟩
  have hdue : s.Holds (.known due) (some "shop:due") := by
    unfold Holds
    decide +kernel
  obtain ⟨field, hfield, hid, -⟩ := hs.findLive?_of_holds hname hdue
  have hvalues (n : NodeId) (hn : (s.liveRecordOf? n).isSome = true) {d : Date}
      (hstored : (s.texts n due).map some = [(PropertyValue.string d.text).encode?]) :
      s.values n "shop:due" = .ok [.string d.text] := by
    obtain ⟨text, htexts, htext⟩ := List.map_eq_singleton_iff.mp hstored
    have hread : PropertyValue.decode? text = some (.string d.text) :=
      PropertyValue.decode?_of_encode? htext.symm
    rw [hs.values_eq (hs.isLive_of_liveRecordOf? hn) hfield, hid, htexts,
      List.filterMap_cons_some hread]
    rfl
  have hmilk := hvalues milk (by decide +kernel) (d := ⟨2024, 3, 1⟩) (by decide +kernel)
  have hbread := hvalues bread (by decide +kernel) (d := ⟨2024, 2, 29⟩) (by decide +kernel)
  have hnothing : s.values due "shop:due" = .ok [] := by
    have htexts : s.texts due due = [] := by decide +kernel
    rw [hs.values_eq (hs.isLive_of_liveRecordOf? (by decide +kernel)) hfield, hid, htexts]
    rfl
  have hfirst : Date.Fits ⟨2024, 3, 1⟩ := ⟨by decide, by decide, by decide⟩
  have hleap : Date.Fits ⟨2024, 2, 29⟩ := ⟨by decide, by decide, by decide⟩
  obtain ⟨hfilter, hsort⟩ := dates_run _ 7 hfield
  constructor
  · have htext : Date.text ⟨2024, 3, 1⟩ = "2024-03-01" := by decide +kernel
    obtain ⟨t, u, ht, hu, -, -, hlt, -⟩ := hfilter bread ⟨2024, 2, 29⟩ ⟨2024, 3, 1⟩
      (.ofJson (.string "2024-03-01")) hleap hfirst (by decide) (by decide)
      (hs.isLive_of_liveRecordOf? (by decide +kernel)) hbread (by rw [htext]; rfl)
    obtain rfl := Option.some.inj (ht.symm.trans (Date.ofString?_text hleap (by decide)))
    obtain rfl := Option.some.inj (hu.symm.trans (Date.ofString?_text hfirst (by decide)))
    exact hlt
  · have hids : ∀ r ∈ s.nodes, r.id = .known due ∨ r.id = .known milk ∨ r.id = .known bread := by
      decide +kernel
    have hdates : ∀ n ∈ s.matching 7 [], s.value? n.id "shop:due" = .ok none ∨
        ∃ d, s.HoldsDate "shop:due" n.id d := by
      intro n hn
      have hshows := hs.shows_of_mem_joinedNodes (List.mem_of_mem_filter hn)
      obtain ⟨_, r, hr, -, hnode, -⟩ := hs.isLive_iff.mp hshows.live
      have hknown := hids r hr
      rw [hnode, StoredId.known.injEq, StoredId.known.injEq, StoredId.known.injEq] at hknown
      rcases hknown with h | h | h
      · exact Or.inl (by rw [h, value?, hnothing]; rfl)
      · exact Or.inr ⟨_, hfirst, by decide, by rw [h, value?, hmilk]; rfl⟩
      · exact Or.inr ⟨_, hleap, by decide, by rw [h, value?, hbread]; rfl⟩
    obtain ⟨-, _, _, -, -, -, -, -, hpages⟩ := hsort [] (by decide) hdates
    obtain ⟨page, hpage, -⟩ := hpages .asc 2 (by decide)
    exact ⟨page, hpage⟩

end Store

end TagGraph
