import TagGraph.Query.Evaluation

/-!
# The order of answers

The order of two nodes under a query is transitive and decides between any two of them. Since their
places differ, no two are level, so that putting nodes in order leaves one possible arrangement
(`RankedNode.sort_pairwise`).
-/

namespace TagGraph

/-! ## Keys -/

namespace SortKey

/-- Numbers by value, texts by their characters, numbers in front of texts. -/
instance : Std.TransCmp SortKey.order where
  eq_swap {a b} := by
    cases a with
    | number x =>
      cases b with
      | number y => exact Std.OrientedOrd.eq_swap
      | text _ => rfl
    | text s =>
      cases b with
      | number _ => rfl
      | text t => exact Std.OrientedOrd.eq_swap
  isLE_trans {a b c} hab hbc := by
    cases a with
    | number x =>
      cases c with
      | text _ => rfl
      | number z =>
        cases b with
        | number y => exact Std.TransOrd.isLE_trans hab hbc
        | text _ => cases hbc
    | text s =>
      cases b with
      | number _ => cases hab
      | text t =>
        cases c with
        | number _ => cases hbc
        | text u => exact Std.TransOrd.isLE_trans hab hbc

end SortKey

namespace RankedNode

/-! ## Two nodes -/

/-- Keys with places: ties go by place. -/
def levelOrder (a b : SortKey × Nat) : Ordering :=
  compareLex (fun a b => a.1.order b.1) (compareOn Prod.snd) a b

instance : Std.TransCmp (fun a b : SortKey × Nat => a.1.order b.1) where
  eq_swap {a b} := @Std.OrientedCmp.eq_swap _ SortKey.order _ a.1 b.1
  isLE_trans {a b c} := @Std.TransCmp.isLE_trans _ SortKey.order _ a.1 b.1 c.1

instance : Std.TransCmp levelOrder :=
  inferInstanceAs (Std.TransCmp (compareLex _ _))

/-- The other direction is the order turned round. -/
theorem directed_desc {α : Type} {cmp : α → α → Ordering} [Std.OrientedCmp cmp] (a b : α) :
    directed .desc (cmp a b) = cmp b a :=
  Std.OrientedCmp.eq_swap.symm

/-- An order stays transitive in either direction. -/
theorem directed_isLE_trans {α : Type} {cmp : α → α → Ordering} [Std.TransCmp cmp]
    {direction : SortDirection} {a b c : α} (hab : (directed direction (cmp a b)).isLE)
    (hbc : (directed direction (cmp b c)).isLE) : (directed direction (cmp a c)).isLE := by
  cases direction with
  | asc => exact @Std.TransCmp.isLE_trans _ cmp _ a b c hab hbc
  | desc =>
    rw [directed_desc] at hab hbc ⊢
    exact Std.TransCmp.isLE_trans hbc hab

theorem directed_swap {α : Type} {cmp : α → α → Ordering} [Std.OrientedCmp cmp]
    (direction : SortDirection) (a b : α) :
    directed direction (cmp a b) = (directed direction (cmp b a)).swap := by
  cases direction with
  | asc => exact @Std.OrientedCmp.eq_swap _ cmp _ a b
  | desc =>
    rw [directed_desc, directed_desc]
    exact Std.OrientedCmp.eq_swap

variable {direction : SortDirection}

theorem order_of_keys {a b : RankedNode} {k l : SortKey} (ha : a.key = some k)
    (hb : b.key = some l) :
    order direction a b = directed direction (levelOrder (k, a.place) (l, b.place)) := by
  rw [order, ha, hb]
  rfl

theorem order_of_no_keys {a b : RankedNode} (ha : a.key = none) (hb : b.key = none) :
    order direction a b = directed direction (compare a.place b.place) := by
  rw [order, ha, hb]

theorem order_of_key {a b : RankedNode} {k : SortKey} (ha : a.key = some k) (hb : b.key = none) :
    order direction a b = .lt := by
  rw [order, ha, hb]

theorem order_of_no_key {a b : RankedNode} {l : SortKey} (ha : a.key = none)
    (hb : b.key = some l) : order direction a b = .gt := by
  rw [order, ha, hb]

/-- Nodes with keys, nodes without: each class is ordered in itself, the first in front. -/
instance : Std.TransCmp (order direction) where
  eq_swap {a b} := by
    cases ha : a.key with
    | none =>
      cases hb : b.key with
      | none =>
        rw [order_of_no_keys ha hb, order_of_no_keys hb ha]
        exact directed_swap direction a.place b.place
      | some l =>
        rw [order_of_no_key ha hb, order_of_key hb ha]
        rfl
    | some k =>
      cases hb : b.key with
      | none =>
        rw [order_of_key ha hb, order_of_no_key hb ha]
        rfl
      | some l =>
        rw [order_of_keys ha hb, order_of_keys hb ha]
        exact directed_swap direction (k, a.place) (l, b.place)
  isLE_trans {a b c} hab hbc := by
    cases ha : a.key with
    | none =>
      cases hb : b.key with
      | some l =>
        rw [order_of_no_key ha hb] at hab
        cases hab
      | none =>
        cases hc : c.key with
        | some m =>
          rw [order_of_no_key hb hc] at hbc
          cases hbc
        | none =>
          rw [order_of_no_keys ha hb] at hab
          rw [order_of_no_keys hb hc] at hbc
          rw [order_of_no_keys ha hc]
          exact directed_isLE_trans hab hbc
    | some k =>
      cases hc : c.key with
      | none =>
        rw [order_of_key ha hc]
        rfl
      | some m =>
        cases hb : b.key with
        | none =>
          rw [order_of_no_key hb hc] at hbc
          cases hbc
        | some l =>
          rw [order_of_keys ha hb] at hab
          rw [order_of_keys hb hc] at hbc
          rw [order_of_keys ha hc]
          exact directed_isLE_trans hab hbc

/-- No two nodes stand in front of each other. -/
theorem order_asymm {a b : RankedNode} (h : order direction a b = .lt) :
    order direction b a ≠ .lt := by
  rw [@Std.OrientedCmp.eq_swap _ (order direction) _ b a, h]
  decide

/-- Two nodes that both have keys, or both have none, stand the other way round in the other
direction. -/
theorem order_desc_eq {a b : RankedNode} (h : a.key.isSome = b.key.isSome) :
    order .desc a b = order .asc b a := by
  cases ha : a.key with
  | none =>
    cases hb : b.key with
    | none =>
      rw [order_of_no_keys ha hb, order_of_no_keys hb ha]
      exact directed_desc a.place b.place
    | some l => rw [ha, hb] at h; cases h
  | some k =>
    cases hb : b.key with
    | none => rw [ha, hb] at h; cases h
    | some l =>
      rw [order_of_keys ha hb, order_of_keys hb ha]
      exact directed_desc (k, a.place) (l, b.place)

/-- Nodes at different places are not level. -/
theorem order_ne_eq {a b : RankedNode} (h : a.place ≠ b.place) : order direction a b ≠ .eq := by
  have hplace : compare a.place b.place ≠ .eq := fun heq => h (Nat.compare_eq_eq.mp heq)
  have hdirected : ∀ o : Ordering, o ≠ .eq → directed direction o ≠ .eq := by
    intro o ho
    cases direction <;> cases o <;> simp_all [directed]
  cases ha : a.key with
  | none =>
    cases hb : b.key with
    | none =>
      rw [order_of_no_keys ha hb]
      exact hdirected _ hplace
    | some l => simp [order_of_no_key ha hb]
  | some k =>
    cases hb : b.key with
    | none => simp [order_of_key ha hb]
    | some l =>
      rw [order_of_keys ha hb]
      refine hdirected _ fun heq => hplace ?_
      exact (Ordering.then_eq_eq.mp heq).2

/-! ## Lists of nodes -/

theorem sort_perm (direction : SortDirection) (nodes : List RankedNode) :
    (sort direction nodes).Perm nodes :=
  List.mergeSort_perm ..

/-- Put in order, each node stands strictly in front of all behind it. -/
theorem sort_pairwise (direction : SortDirection) {nodes : List RankedNode}
    (h : (nodes.map (·.place)).Nodup) :
    (sort direction nodes).Pairwise fun a b => order direction a b = .lt := by
  -- Merging leaves no node behind a greater one, and no two nodes are level.
  have hle : (sort direction nodes).Pairwise fun a b => (order direction a b != .gt) = true := by
    have hisLE : ∀ o : Ordering, (o != .gt) = o.isLE := fun o => by cases o <;> rfl
    refine List.pairwise_mergeSort (fun a b c hab hbc => ?_) (fun a b => ?_) nodes
    · rw [hisLE] at hab hbc ⊢
      exact Std.TransCmp.isLE_trans hab hbc
    · rw [@Std.OrientedCmp.eq_swap _ (order direction) _ b a]
      cases order direction a b <;> rfl
  have hplaces : (sort direction nodes).Pairwise fun a b => a.place ≠ b.place := by
    have hperm := (sort_perm direction nodes).map (·.place)
    exact List.pairwise_map.mp (hperm.nodup_iff.mpr h)
  refine (hle.and hplaces).imp fun {a b} hab => ?_
  have hne := @order_ne_eq direction a b hab.2
  have hngt := hab.1
  cases horder : order direction a b with
  | lt => rfl
  | eq => exact absurd horder hne
  | gt => simp [horder] at hngt

/-- Nodes in which each stands strictly in front of all behind it have been put in order. -/
theorem eq_sort {nodes arrangement : List RankedNode} (hplaces : (nodes.map (·.place)).Nodup)
    (hperm : arrangement.Perm nodes)
    (h : arrangement.Pairwise fun a b => order direction a b = .lt) :
    arrangement = sort direction nodes :=
  List.Perm.eq_of_pairwise (fun _ _ _ _ hab hba => absurd hba (order_asymm hab)) h
    (sort_pairwise direction hplaces) (hperm.trans (sort_perm direction nodes).symm)

end RankedNode

end TagGraph
