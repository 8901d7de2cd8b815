import Mathlib.Order.Defs.Unbundled
import TagGraph.Proofs.Assembly.Values
import TagGraph.Proofs.Number.Monotone
import TagGraph.Proofs.Property.Codec
import TagGraph.Proofs.Query.Evaluation
import TagGraph.Proofs.Text.Bytes

/-!
# What sorting gives

Nodes with keys come first, in the order of their keys and with equal keys in the order of creation;
the others follow in the order of creation. In the other direction each of the two parts is turned
round (`RankedNode.sort_asc_eq`, `RankedNode.sort_desc_eq`).

A time is rounded to a double to become a key, which may make two times one key. The order of the
times survives nevertheless (`Store.arrange_run`).
-/

namespace TagGraph

open Reading

/-! ## The order of keys -/

namespace SortKey

/-- A key stands in front of another one: numbers by value, behind them texts by their bytes. -/
def Below : SortKey → SortKey → Prop
  | .number x, .number y => x.units < y.units
  | .number _, .text _ => True
  | .text _, .number _ => False
  | .text s, .text t => Text.bytes s < Text.bytes t

theorem order_eq_lt_iff {k l : SortKey} : k.order l = .lt ↔ k.Below l := by
  cases k with
  | number x =>
    cases l with
    | number y => exact Int.compare_eq_lt
    | text t => exact iff_of_true rfl trivial
  | text s =>
    cases l with
    | number y => exact iff_of_false (fun h => (nomatch h)) id
    | text t => exact Text.compare_eq_lt_iff

/-- Of two keys that are level none stands in front. -/
theorem not_below_of_order_eq {k l : SortKey} (h : k.order l = .eq) : ¬ l.Below k := by
  rw [← order_eq_lt_iff, @Std.OrientedCmp.eq_swap _ SortKey.order _ l k, h]
  decide

/-- A later time has no lesser key. -/
theorem not_below_ofTime {t u : Int} (ht : fitsLong t = true) (hu : fitsLong u = true)
    (h : t ≤ u) : ¬ (ofTime u).Below (ofTime t) := by
  obtain ⟨x, hx, -⟩ := Binary64.exists_ofInt?_of_fitsLong ht
  obtain ⟨y, hy, -⟩ := Binary64.exists_ofInt?_of_fitsLong hu
  rw [ofTime, ofTime, hx, hy]
  exact Int.not_lt.mpr (Binary64.units_le_of_le ht hu h hx hy)

/-- Up to `2 ^ 53` times have the order of their keys. -/
theorem below_ofTime_iff {t u : Int} (ht : -2 ^ 53 ≤ t ∧ t ≤ 2 ^ 53)
    (hu : -2 ^ 53 ≤ u ∧ u ≤ 2 ^ 53) : (ofTime t).Below (ofTime u) ↔ t < u := by
  obtain ⟨x, hx, -⟩ := Binary64.exists_ofInt? ht.1 ht.2
  obtain ⟨y, hy, -⟩ := Binary64.exists_ofInt? hu.1 hu.2
  rw [ofTime, ofTime, hx, hy]
  exact Binary64.units_lt_iff ht hu hx hy

end SortKey

/-! ## Nodes with and without keys -/

namespace RankedNode

variable {nodes : List RankedNode} {a b : RankedNode}

/-- The nodes with keys, in the order of these. -/
def keyed (nodes : List RankedNode) : List RankedNode :=
  sort .asc (nodes.filter (·.key.isSome))

/-- The nodes without keys. -/
def unkeyed (nodes : List RankedNode) : List RankedNode :=
  nodes.filter (·.key.isNone)

theorem mem_keyed {r : RankedNode} : r ∈ keyed nodes ↔ r ∈ nodes ∧ r.key.isSome = true := by
  rw [keyed, (sort_perm _ _).mem_iff, List.mem_filter]

theorem mem_unkeyed {r : RankedNode} : r ∈ unkeyed nodes ↔ r ∈ nodes ∧ r.key.isNone = true :=
  List.mem_filter

theorem keyed_perm (nodes : List RankedNode) :
    (keyed nodes).Perm (nodes.filter (·.key.isSome)) :=
  sort_perm _ _

theorem keyed_append_unkeyed_perm (nodes : List RankedNode) :
    (keyed nodes ++ unkeyed nodes).Perm nodes := by
  have hnone : unkeyed nodes = nodes.filter fun r => !r.key.isSome :=
    List.filter_congr fun r _ => (Option.not_isSome r.key).symm
  rw [hnone]
  exact ((keyed_perm nodes).append_right _).trans (List.filter_append_perm _ nodes)

/-- Nodes with keys stand in front of those without, in either direction. -/
theorem order_of_mem_keyed (direction : SortDirection) (ha : a ∈ keyed nodes)
    (hb : b ∈ unkeyed nodes) : order direction a b = .lt := by
  obtain ⟨k, hk⟩ := Option.isSome_iff_exists.mp (mem_keyed.mp ha).2
  exact order_of_key hk (Option.isNone_iff_eq_none.mp (mem_unkeyed.mp hb).2)

section Placed

variable (h : nodes.Pairwise fun a b => a.place < b.place)
include h

theorem places_nodup : (nodes.map (·.place)).Nodup :=
  List.pairwise_map.mpr (h.imp Nat.ne_of_lt)

theorem keyed_pairwise : (keyed nodes).Pairwise fun a b => order .asc a b = .lt :=
  sort_pairwise .asc (places_nodup (h.filter _))

theorem unkeyed_pairwise : (unkeyed nodes).Pairwise fun a b => order .asc a b = .lt := by
  refine (h.filter (·.key.isNone)).imp_of_mem fun {a b} ha hb hlt => ?_
  have hnone : ∀ r ∈ unkeyed nodes, r.key = none := fun r hr =>
    Option.isNone_iff_eq_none.mp (mem_unkeyed.mp hr).2
  rw [order_of_no_keys (hnone a ha) (hnone b hb)]
  exact Nat.compare_eq_lt.mpr hlt

theorem sort_asc_eq : sort .asc nodes = keyed nodes ++ unkeyed nodes := by
  refine (eq_sort (places_nodup h) (keyed_append_unkeyed_perm nodes) ?_).symm
  exact List.pairwise_append.mpr ⟨keyed_pairwise h, unkeyed_pairwise h,
    fun a ha b hb => order_of_mem_keyed .asc ha hb⟩

theorem sort_desc_eq : sort .desc nodes = (keyed nodes).reverse ++ (unkeyed nodes).reverse := by
  refine (eq_sort (places_nodup h) ?_ ?_).symm
  · exact ((List.reverse_perm _).append (List.reverse_perm _)).trans
      (keyed_append_unkeyed_perm nodes)
  -- Within each part the other direction is the order turned round.
  · refine List.pairwise_append.mpr ⟨?_, ?_, fun a ha b hb => ?_⟩
    · refine List.pairwise_reverse.mpr ((keyed_pairwise h).imp_of_mem fun {a b} ha hb hlt => ?_)
      rwa [order_desc_eq ((mem_keyed.mp hb).2.trans (mem_keyed.mp ha).2.symm)]
    · refine List.pairwise_reverse.mpr ((unkeyed_pairwise h).imp_of_mem fun {a b} ha hb hlt => ?_)
      rwa [order_desc_eq]
      rw [Option.isNone_iff_eq_none.mp (mem_unkeyed.mp ha).2,
        Option.isNone_iff_eq_none.mp (mem_unkeyed.mp hb).2]
    · exact order_of_mem_keyed .desc (List.mem_reverse.mp ha) (List.mem_reverse.mp hb)

/-- Of two nodes in their places the one with the lesser place comes first. -/
theorem pair_sublist (ha : a ∈ nodes) (hb : b ∈ nodes) (hlt : a.place < b.place) :
    [a, b].Sublist nodes := by
  induction nodes with
  | nil => cases ha
  | cons r rest ih =>
    obtain ⟨hfirst, hrest⟩ := List.pairwise_cons.mp h
    rcases List.mem_cons.mp hb with rfl | hb'
    · rcases List.mem_cons.mp ha with rfl | ha'
      · exact absurd hlt (Nat.lt_irrefl _)
      · exact absurd (hfirst a ha') (Nat.lt_asymm hlt)
    · rcases List.mem_cons.mp ha with rfl | ha'
      · exact (List.singleton_sublist.mpr hb').cons_cons a
      · exact (ih hrest ha' hb').cons r

/-- No two nodes at different places are level, so their order is a strict and total one. -/
theorem isStrictTotalOrder (direction : SortDirection) :
    IsStrictTotalOrder {r // r ∈ nodes} fun a b => order direction a.1 b.1 = .lt where
  irrefl a := by
    rw [@Std.ReflCmp.compare_self _ (order direction) _ a.1]
    decide
  trans a b c hab hbc := Std.TransCmp.lt_trans hab hbc
  trichotomous a b hab hba := by
    by_contra hne
    have hplace : a.1.place ≠ b.1.place := fun hplace =>
      hne (Subtype.ext (List.inj_on_of_nodup_map (places_nodup h) a.2 b.2 hplace))
    cases horder : order direction a.1 b.1 with
    | lt => exact hab horder
    | eq => exact order_ne_eq hplace horder
    | gt => exact hba (Std.OrientedCmp.lt_of_gt horder)

end Placed

end RankedNode

/-! ## The nodes of a store -/

/-- Nodes have been put in order by their keys: those of lesser keys come first, and of nodes with
equal keys the one that comes first among all. -/
structure OrderedBy (key : AssembledNode → Option SortKey) (nodes ordered : List AssembledNode) :
    Prop where
  perm : ordered.Perm (nodes.filter fun n => (key n).isSome)
  pairwise : ordered.Pairwise fun a b => ∃ k l, key a = some k ∧ key b = some l ∧
    (k.Below l ∨ ¬ l.Below k ∧ [a, b].Sublist nodes)

namespace Store

variable {s : Store} {field : String} {nodes : List AssembledNode}

theorem ranked_pairwise (s : Store) (field : String) (nodes : List AssembledNode) :
    (s.ranked field nodes).Pairwise fun a b => a.place < b.place := by
  refine List.pairwise_map.mp ?_
  rw [ranked_places]
  exact List.pairwise_lt_range

theorem key_of_mem_ranked {r : RankedNode} (h : r ∈ s.ranked field nodes) :
    r.key = s.sortKeyOf field r.node := by
  obtain ⟨i, hi, rfl⟩ := List.mem_mapIdx.mp h
  rfl

/-- The nodes with keys are the same before and after they have been ranked. -/
theorem filter_ranked (p : Option SortKey → Bool) :
    ((s.ranked field nodes).filter fun r => p r.key).map (·.node) =
      nodes.filter fun n => p (s.sortKeyOf field n) := by
  have hcongr : ((s.ranked field nodes).filter fun r => p r.key) =
      (s.ranked field nodes).filter ((fun n => p (s.sortKeyOf field n)) ∘ (·.node)) :=
    List.filter_congr fun r hr => by rw [key_of_mem_ranked hr]; rfl
  rw [hcongr, ← List.filter_map, ranked_nodes]

theorem orderedBy_keyed (s : Store) (field : String) (nodes : List AssembledNode) :
    OrderedBy (s.sortKeyOf field) nodes
      ((RankedNode.keyed (s.ranked field nodes)).map (·.node)) where
  perm := by
    rw [← filter_ranked (·.isSome)]
    exact (RankedNode.keyed_perm _).map _
  pairwise := by
    have hranked := s.ranked_pairwise field nodes
    refine List.pairwise_map.mpr ((RankedNode.keyed_pairwise hranked).imp_of_mem ?_)
    intro a b ha hb hlt
    obtain ⟨ha, hkey⟩ := RankedNode.mem_keyed.mp ha
    obtain ⟨hb, hkey'⟩ := RankedNode.mem_keyed.mp hb
    obtain ⟨k, hk⟩ := Option.isSome_iff_exists.mp hkey
    obtain ⟨l, hl⟩ := Option.isSome_iff_exists.mp hkey'
    refine ⟨k, l, (key_of_mem_ranked ha).symm.trans hk, (key_of_mem_ranked hb).symm.trans hl, ?_⟩
    rw [RankedNode.order_of_keys hk hl] at hlt
    rcases Ordering.then_eq_lt.mp hlt with hbelow | ⟨hlevel, hplace⟩
    · exact Or.inl (SortKey.order_eq_lt_iff.mp hbelow)
    · have hpair := RankedNode.pair_sublist hranked ha hb (Nat.compare_eq_lt.mp hplace)
      refine Or.inr ⟨SortKey.not_below_of_order_eq hlevel, ?_⟩
      have hnodes := hpair.map (·.node)
      rwa [ranked_nodes] at hnodes

/-! ## Sorting -/

namespace Sound

variable (hs : s.Sound)
include hs

/-- Sorting gives the nodes that have been put in order. -/
theorem arrange_answers_sort (now : Int) (field : String) (direction : SortDirection)
    (nodes : List AssembledNode) :
    Answers (Evaluating.Known s) (Evaluating.arrange (s.scope now) (some ⟨field, direction⟩) nodes)
      ((RankedNode.sort direction (s.ranked field nodes)).map (·.node)) := by
  obtain ⟨arrangement, hanswers, harranged⟩ :=
    Evaluating.arrange_answers hs now (some ⟨field, direction⟩) nodes
  rwa [harranged.eq_sort] at hanswers

theorem arrange_asc (now : Int) (field : String) (nodes : List AssembledNode) :
    Answers (Evaluating.Known s) (Evaluating.arrange (s.scope now) (some ⟨field, .asc⟩) nodes)
      ((RankedNode.keyed (s.ranked field nodes)).map (·.node) ++
        nodes.filter fun n => (s.sortKeyOf field n).isNone) := by
  have hsort := hs.arrange_answers_sort now field .asc nodes
  rwa [RankedNode.sort_asc_eq (s.ranked_pairwise field nodes), List.map_append,
    RankedNode.unkeyed, filter_ranked (·.isNone)] at hsort

theorem arrange_desc (now : Int) (field : String) (nodes : List AssembledNode) :
    Answers (Evaluating.Known s) (Evaluating.arrange (s.scope now) (some ⟨field, .desc⟩) nodes)
      (((RankedNode.keyed (s.ranked field nodes)).map (·.node)).reverse ++
        (nodes.filter fun n => (s.sortKeyOf field n).isNone).reverse) := by
  have hsort := hs.arrange_answers_sort now field .desc nodes
  rwa [RankedNode.sort_desc_eq (s.ranked_pairwise field nodes), List.map_append,
    List.map_reverse, List.map_reverse, RankedNode.unkeyed, filter_ranked (·.isNone)] at hsort

/-! ## Times -/

/-- Live nodes stand in the order of their creation. -/
theorem joinedNodes_createdAt : s.joinedNodes.Pairwise fun a b => a.createdAt ≤ b.createdAt := by
  obtain ⟨all, -, hlive⟩ := hs.liveNodes_eq
  have hsorted : (all.mergeSort fun a b => decide (a.createdAt ≤ b.createdAt)).Pairwise
      fun a b => decide (a.createdAt ≤ b.createdAt) = true := by
    refine List.pairwise_mergeSort (fun a b c hab hbc => ?_) (fun a b => ?_) all
    · simp only [decide_eq_true_eq] at hab hbc ⊢
      omega
    · simp only [Bool.or_eq_true, decide_eq_true_eq]
      omega
  rw [joinedNodes, hlive]
  refine List.pairwise_map.mpr ((hsorted.filter _).imp fun {a b} hab => ?_)
  exact of_decide_eq_true hab

end Sound

/-- The values of an assembled node have been read from texts, so that they hold no number that is
not finite. -/
theorem finite_of_mem_joinedNodes {n : AssembledNode} (hn : n ∈ s.joinedNodes) {id : NodeId}
    {v : PropertyValue} (hv : v ∈ n.valuesByFieldId id) : v.Finite := by
  obtain ⟨node, -, rfl⟩ := List.mem_map.mp hn
  rw [valuesByFieldId_joined] at hv
  obtain ⟨row, -, hrow⟩ := List.mem_filterMap.mp hv
  obtain ⟨held, hheld, rfl⟩ := Option.map_eq_some_iff.mp hrow
  exact PropertyValue.decode?_finite (of_heldValue? hheld).2

theorem sortKeyOf_createdAt (s : Store) (n : AssembledNode) :
    s.sortKeyOf "createdAt" n = some (.ofTime n.createdAt) :=
  rfl

theorem sortKeyOf_updatedAt (s : Store) (n : AssembledNode) :
    s.sortKeyOf "updatedAt" n = some (.ofTime n.updatedAt) :=
  rfl

/-- Nodes in the order of creation are in order by the keys of their times, though two times may
have one key. -/
theorem keyed_ranked_createdAt (hnodes : nodes.Pairwise fun a b => a.createdAt ≤ b.createdAt)
    (hfits : ∀ n ∈ nodes, fitsLong n.createdAt = true) :
    RankedNode.keyed (s.ranked "createdAt" nodes) = s.ranked "createdAt" nodes := by
  have hranked := s.ranked_pairwise "createdAt" nodes
  have hkey : ∀ r ∈ s.ranked "createdAt" nodes, r.key = some (.ofTime r.node.createdAt) :=
    fun r hr => (key_of_mem_ranked hr).trans (s.sortKeyOf_createdAt r.node)
  have hmem : ∀ r ∈ s.ranked "createdAt" nodes, r.node ∈ nodes := by
    intro r hr
    rw [← s.ranked_nodes "createdAt" nodes]
    exact List.mem_map_of_mem hr
  have hall : (s.ranked "createdAt" nodes).filter (·.key.isSome) = s.ranked "createdAt" nodes := by
    refine List.filter_eq_self.mpr fun r hr => ?_
    rw [hkey r hr]
    rfl
  have htimes : ((s.ranked "createdAt" nodes).map (·.node)).Pairwise
      fun a b => a.createdAt ≤ b.createdAt := by
    rwa [ranked_nodes]
  rw [RankedNode.keyed, hall]
  refine (RankedNode.eq_sort (RankedNode.places_nodup hranked) (List.Perm.refl _) ?_).symm
  refine (hranked.and (List.pairwise_map.mp htimes)).imp_of_mem fun {a b} ha hb hab => ?_
  rw [RankedNode.order_of_keys (hkey a ha) (hkey b hb)]
  refine Ordering.then_eq_lt.mpr ?_
  have hnot : ¬ (SortKey.ofTime b.node.createdAt).Below (.ofTime a.node.createdAt) :=
    SortKey.not_below_ofTime (hfits _ (hmem a ha)) (hfits _ (hmem b hb)) hab.2
  cases horder : (SortKey.ofTime a.node.createdAt).order (.ofTime b.node.createdAt) with
  | lt => exact Or.inl horder
  | eq => exact Or.inr ⟨horder, Nat.compare_eq_lt.mpr hab.1⟩
  | gt => exact absurd (SortKey.order_eq_lt_iff.mp (Std.OrientedCmp.lt_of_gt horder)) hnot

/-- Nodes that all have keys leave none without. -/
theorem filter_isNone_of_keys (h : ∀ n, (s.sortKeyOf field n).isSome = true)
    (nodes : List AssembledNode) : (nodes.filter fun n => (s.sortKeyOf field n).isNone) = [] := by
  refine List.filter_eq_nil_iff.mpr fun n _ hnone => ?_
  have hsome := h n
  rw [Option.isNone_iff_eq_none.mp hnone] at hsome
  cases hsome

theorem keyed_append_unkeyed_nodes_perm (s : Store) (field : String) (nodes : List AssembledNode) :
    ((RankedNode.keyed (s.ranked field nodes)).map (·.node) ++
      nodes.filter fun n => (s.sortKeyOf field n).isNone).Perm nodes := by
  have hparts := (RankedNode.keyed_append_unkeyed_perm (s.ranked field nodes)).map (·.node)
  rwa [List.map_append, RankedNode.unkeyed, filter_ranked (·.isNone), ranked_nodes] at hparts

namespace Sound

variable (hs : s.Sound) (now : Int)
include hs

/-- By the time of creation nodes are left in the order of creation, or are turned round. -/
theorem arrange_createdAt (hnodes : nodes.Pairwise fun a b => a.createdAt ≤ b.createdAt)
    (hfits : ∀ n ∈ nodes, fitsLong n.createdAt = true) :
    Answers (Evaluating.Known s)
      (Evaluating.arrange (s.scope now) (some ⟨"createdAt", .asc⟩) nodes) nodes ∧
    Answers (Evaluating.Known s)
      (Evaluating.arrange (s.scope now) (some ⟨"createdAt", .desc⟩) nodes) nodes.reverse := by
  have hnone := filter_isNone_of_keys (fun n => congrArg _ (s.sortKeyOf_createdAt n)) nodes
  have hasc := hs.arrange_asc now "createdAt" nodes
  have hdesc := hs.arrange_desc now "createdAt" nodes
  rw [keyed_ranked_createdAt hnodes hfits, ranked_nodes, hnone] at hasc hdesc
  rw [List.append_nil] at hasc
  rw [List.reverse_nil, List.append_nil] at hdesc
  exact ⟨hasc, hdesc⟩

/-- By the time of the last change nodes are put in the order of their times, as long as all times
are doubles. -/
theorem arrange_updatedAt
    (hexact : ∀ n ∈ nodes, -2 ^ 53 ≤ n.updatedAt ∧ n.updatedAt ≤ 2 ^ 53) :
    ∃ ordered, ordered.Perm nodes ∧
      (ordered.Pairwise fun a b => a.updatedAt < b.updatedAt ∨
        a.updatedAt = b.updatedAt ∧ [a, b].Sublist nodes) ∧
      Answers (Evaluating.Known s)
        (Evaluating.arrange (s.scope now) (some ⟨"updatedAt", .asc⟩) nodes) ordered ∧
      Answers (Evaluating.Known s)
        (Evaluating.arrange (s.scope now) (some ⟨"updatedAt", .desc⟩) nodes) ordered.reverse := by
  have hnone := filter_isNone_of_keys (fun n => congrArg _ (s.sortKeyOf_updatedAt n)) nodes
  have hperm := s.keyed_append_unkeyed_nodes_perm "updatedAt" nodes
  have hasc := hs.arrange_asc now "updatedAt" nodes
  have hdesc := hs.arrange_desc now "updatedAt" nodes
  rw [hnone] at hperm hasc hdesc
  rw [List.append_nil] at hperm hasc
  rw [List.reverse_nil, List.append_nil] at hdesc
  refine ⟨_, hperm, (s.orderedBy_keyed "updatedAt" nodes).pairwise.imp_of_mem ?_, hasc, hdesc⟩
  rintro a b ha hb ⟨k, l, hk, hl, hkeys⟩
  obtain rfl := Option.some.inj ((s.sortKeyOf_updatedAt a).symm.trans hk)
  obtain rfl := Option.some.inj ((s.sortKeyOf_updatedAt b).symm.trans hl)
  have hat := hexact a (hperm.subset ha)
  have hbt := hexact b (hperm.subset hb)
  rw [SortKey.below_ofTime_iff hat hbt, SortKey.below_ofTime_iff hbt hat] at hkeys
  rcases hkeys with hlt | ⟨hle, hpair⟩
  · exact Or.inl hlt
  · rcases Int.lt_or_eq_of_le (Int.not_lt.mp hle) with hlt | heq
    · exact Or.inl hlt
    · exact Or.inr ⟨heq, hpair⟩

end Sound

/-- On every store that a run leaves, any of the live nodes are sorted by any field. No value of
theirs holds a number that is not finite, and every time has a double next to it. So the order in
either direction is a strict and total one of these nodes. Those with a key come first, in the order
of their keys and with equal keys in the order of creation, and the others follow in the order of
creation; in the other direction both parts are turned round. By the time of creation nodes are left
as they are as long as all times have sixty-four bits, and by the time of their last change they are
put in the order of their times as long as all times are doubles. -/
theorem arrange_run (steps : List Step) (now : Int) (field : String)
    (chosen : AssembledNode → Bool) :
    let s := Store.empty.run steps
    let nodes := s.joinedNodes.filter chosen
    let unkeyed := nodes.filter fun n => (s.sortKeyOf field n).isNone
    let Sorts (name : String) (direction : SortDirection) (arrangement : List AssembledNode) :=
      Answers (Evaluating.Known s)
        (Evaluating.arrange (s.scope now) (some ⟨name, direction⟩) nodes) arrangement
    (∀ n ∈ nodes, ∀ id, ∀ v ∈ n.valuesByFieldId id, v.Finite) ∧
    (∀ t, fitsLong t = true → ∃ x, Binary64.ofInt? t = some x) ∧
    (∀ direction, IsStrictTotalOrder {r // r ∈ s.ranked field nodes}
      fun a b => RankedNode.order direction a.1 b.1 = .lt) ∧
    (∃ keyed, (keyed ++ unkeyed).Perm nodes ∧ OrderedBy (s.sortKeyOf field) nodes keyed ∧
      Sorts field .asc (keyed ++ unkeyed) ∧
      Sorts field .desc (keyed.reverse ++ unkeyed.reverse)) ∧
    ((∀ n ∈ nodes, fitsLong n.createdAt = true) →
      (nodes.Pairwise fun a b => a.createdAt ≤ b.createdAt) ∧
      Sorts "createdAt" .asc nodes ∧ Sorts "createdAt" .desc nodes.reverse) ∧
    ((∀ n ∈ nodes, -2 ^ 53 ≤ n.updatedAt ∧ n.updatedAt ≤ 2 ^ 53) →
      ∃ ordered, ordered.Perm nodes ∧
        (ordered.Pairwise fun a b => a.updatedAt < b.updatedAt ∨
          a.updatedAt = b.updatedAt ∧ [a, b].Sublist nodes) ∧
        Sorts "updatedAt" .asc ordered ∧ Sorts "updatedAt" .desc ordered.reverse) := by
  intro s nodes unkeyed Sorts
  have hs : s.Sound := empty_sound.run steps
  have hnodes : nodes.Sublist s.joinedNodes := List.filter_sublist
  have hcreated : nodes.Pairwise fun a b => a.createdAt ≤ b.createdAt :=
    hs.joinedNodes_createdAt.sublist hnodes
  refine ⟨fun n hn id v hv => finite_of_mem_joinedNodes (hnodes.subset hn) hv, fun t ht => ?_,
    RankedNode.isStrictTotalOrder (s.ranked_pairwise field nodes), ?_,
    fun hfits => ⟨hcreated, hs.arrange_createdAt now hcreated hfits⟩, hs.arrange_updatedAt now⟩
  · obtain ⟨x, hx, -⟩ := Binary64.exists_ofInt?_of_fitsLong ht
    exact ⟨x, hx⟩
  · exact ⟨_, s.keyed_append_unkeyed_nodes_perm field nodes, s.orderedBy_keyed field nodes,
      hs.arrange_asc now field nodes, hs.arrange_desc now field nodes⟩

end Store

end TagGraph
