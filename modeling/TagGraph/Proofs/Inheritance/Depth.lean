import Mathlib.Data.List.Induction
import TagGraph.Proofs.Inheritance.Guard

/-!
# How far inheritance reaches

Both directions of inheritance are bounded by `maxDepth`. What is found is told by the number of
steps from where the search starts:

* upwards, the supertags that at most `maxDepth` steps of `Store.parent?` lead to
  (`Store.Sound.exists_ancestors`);
* downwards, those that at most `maxDepth` steps of `Store.StepsDown` lead to, the nearer ones first
  (`Store.searched_descendants`).

If no live node has two rows of `field:extends`, a step down is a step up turned around, so that
both directions end at the same distance (`Store.Sound.leads_iff`).
-/

namespace TagGraph

/-! ## Numbers of steps -/

/-- `steps` steps of a relation lead from `a` to `b`. -/
def Leads {α : Type} (r : α → α → Prop) : (steps : Nat) → (a b : α) → Prop
  | 0, a, b => a = b
  | steps + 1, a, b => ∃ c, r a c ∧ Leads r steps c b

namespace Leads

variable {α : Type} {r : α → α → Prop}

theorem concat : ∀ {steps : Nat} {a b c : α}, Leads r steps a b → r b c → Leads r (steps + 1) a c
  | 0, _, b, c, hab, hbc => by
    obtain rfl : _ = b := hab
    exact ⟨c, hbc, rfl⟩
  | _ + 1, _, _, _, ⟨d, had, hdb⟩, hbc => ⟨d, had, concat hdb hbc⟩

/-- The last of some steps. -/
theorem succ_iff_concat : ∀ {steps : Nat} {a c : α},
    Leads r (steps + 1) a c ↔ ∃ b, Leads r steps a b ∧ r b c
  | 0, a, c => by
    constructor
    · rintro ⟨b, hab, rfl⟩
      exact ⟨a, rfl, hab⟩
    · rintro ⟨b, rfl, hbc⟩
      exact ⟨c, hbc, rfl⟩
  | steps + 1, a, c => by
    constructor
    · rintro ⟨d, had, hdc⟩
      obtain ⟨b, hdb, hbc⟩ := succ_iff_concat.mp hdc
      exact ⟨b, ⟨d, had, hdb⟩, hbc⟩
    · rintro ⟨b, hab, hbc⟩
      exact hab.concat hbc

/-- Steps from a place end in whatever holds of it and is kept by each step. -/
theorem keeps {p : α → Prop} (h : ∀ a b, p a → r a b → p b) :
    ∀ {steps : Nat} {a b : α}, p a → Leads r steps a b → p b
  | 0, _, _, ha, hab => hab ▸ ha
  | _ + 1, a, _, ha, ⟨c, hac, hcb⟩ => keeps h (h a c ha hac) hcb

/-- Where steps are unique, a chain shows all places as far as it goes. -/
theorem mem_of_isChain (hunique : ∀ a b c, r a b → r a c → b = c) :
    ∀ {steps : Nat} {l : List α} {a b : α}, (a :: l).IsChain r → steps ≤ l.length →
      Leads r steps a b → b ∈ a :: l
  | 0, _, a, _, _, _, hab => by
    obtain rfl : a = _ := hab
    exact List.mem_cons_self
  | _ + 1, [], _, _, _, hsteps, _ => absurd hsteps (Nat.not_succ_le_zero _)
  | _ + 1, next :: _, a, _, hchain, hsteps, ⟨c, hac, hcb⟩ => by
    obtain ⟨hnext, hrest⟩ := List.isChain_cons_cons.mp hchain
    obtain rfl := hunique a c next hac hnext
    exact List.mem_cons_of_mem _ (mem_of_isChain hunique hrest (Nat.le_of_succ_le_succ hsteps) hcb)

end Leads

/-- At most `bound` steps of a relation lead from `a` to `b`. -/
def LeadsWithin {α : Type} (r : α → α → Prop) (bound : Nat) (a b : α) : Prop :=
  ∃ steps ≤ bound, Leads r steps a b

namespace LeadsWithin

variable {α : Type} {r : α → α → Prop}

theorem refl (bound : Nat) (a : α) : LeadsWithin r bound a a :=
  ⟨0, Nat.zero_le _, rfl⟩

theorem head {bound : Nat} {a b c : α} (hab : r a b) (hbc : LeadsWithin r bound b c) :
    LeadsWithin r (bound + 1) a c := by
  obtain ⟨steps, hsteps, hleads⟩ := hbc
  exact ⟨steps + 1, Nat.succ_le_succ hsteps, b, hab, hleads⟩

/-- A chain is as many steps as it has places behind its first one. -/
theorem of_isChain : ∀ {l : List α} {a b : α}, (a :: l).IsChain r → b ∈ a :: l →
    LeadsWithin r l.length a b
  | [], _, _, _, hb => by
    obtain rfl := List.mem_singleton.mp hb
    exact refl _ _
  | next :: _, a, _, hchain, hb => by
    obtain ⟨hnext, hrest⟩ := List.isChain_cons_cons.mp hchain
    rcases List.mem_cons.mp hb with rfl | hb
    · exact refl _ _
    · exact head hnext (of_isChain hrest hb)

/-- What some steps lead to are the places that fewer lead to and those that exactly so many do. -/
theorem succ_iff_last {bound : Nat} {a c : α} :
    LeadsWithin r (bound + 1) a c ↔ LeadsWithin r bound a c ∨ Leads r (bound + 1) a c := by
  constructor
  · rintro ⟨steps, hsteps, hleads⟩
    rcases Nat.lt_or_eq_of_le hsteps with hlt | rfl
    · exact Or.inl ⟨steps, Nat.le_of_lt_succ hlt, hleads⟩
    · exact Or.inr hleads
  · rintro (⟨steps, hsteps, hleads⟩ | hleads)
    · exact ⟨steps, Nat.le_succ_of_le hsteps, hleads⟩
    · exact ⟨bound + 1, Nat.le_refl _, hleads⟩

end LeadsWithin

/-! ## Distances -/

/-- As many steps of a relation lead from `a` to `b`, and no fewer do. -/
def IsAway {α : Type} (r : α → α → Prop) (steps : Nat) (a b : α) : Prop :=
  Leads r steps a b ∧ ∀ fewer < steps, ¬ Leads r fewer a b

/-- However many steps lead from `start` to `b`, so many or fewer lead to `a`. -/
def Nearer {α : Type} (r : α → α → Prop) (start a b : α) : Prop :=
  ∀ steps, Leads r steps start b → LeadsWithin r steps start a

section Distances

variable {α : Type} {r : α → α → Prop} {steps : Nat} {start a b : α}

/-- The places at a distance of one more are those one step further that are no nearer. -/
theorem isAway_succ_iff : IsAway r (steps + 1) start b ↔
    (∃ a, IsAway r steps start a ∧ r a b) ∧ ¬ LeadsWithin r steps start b := by
  constructor
  · rintro ⟨hleads, hnone⟩
    obtain ⟨a, ha, hab⟩ := Leads.succ_iff_concat.mp hleads
    refine ⟨⟨a, ⟨ha, fun fewer hfewer hleads => ?_⟩, hab⟩, ?_⟩
    · exact hnone (fewer + 1) (Nat.succ_lt_succ hfewer) (hleads.concat hab)
    · rintro ⟨fewer, hfewer, hleads⟩
      exact hnone fewer (Nat.lt_succ_of_le hfewer) hleads
  · rintro ⟨⟨a, ⟨ha, -⟩, hab⟩, hnone⟩
    exact ⟨ha.concat hab, fun fewer hfewer hleads =>
      hnone ⟨fewer, Nat.le_of_lt_succ hfewer, hleads⟩⟩

/-- No place is nearer than one within its distance. -/
theorem IsAway.nearer (hb : IsAway r steps start b) (ha : LeadsWithin r steps start a) :
    Nearer r start a b := by
  intro count hcount
  obtain ⟨fewer, hfewer, hleads⟩ := ha
  have hle : steps ≤ count := Nat.le_of_not_lt fun hlt => hb.2 count hlt hcount
  exact ⟨fewer, Nat.le_trans hfewer hle, hleads⟩

end Distances

/-! ## First occurrences -/

theorem eraseDups_concat (ids : List NodeId) (id : NodeId) :
    (ids ++ [id]).eraseDups = if id ∈ ids then ids.eraseDups else ids.eraseDups ++ [id] := by
  rw [List.eraseDups_append, List.removeAll]
  by_cases h : id ∈ ids
  · simp [h]
  · simp [h, List.eraseDups_cons]

theorem nodup_eraseDups (ids : List NodeId) : ids.eraseDups.Nodup := by
  induction ids using List.reverseRecOn with
  | nil => exact List.nodup_nil
  | append_singleton ids id ih =>
    rw [eraseDups_concat]
    by_cases h : id ∈ ids
    · rwa [if_pos h]
    · rw [if_neg h, List.nodup_append_comm]
      exact List.nodup_cons.mpr ⟨fun hmem => h (List.mem_eraseDups.mp hmem), ih⟩

namespace Store

/-! ## Downwards -/

theorem mem_childrenIn {steps : List Extension} {parent child : NodeId} :
    child ∈ childrenIn steps parent ↔ ⟨parent, child⟩ ∈ steps := by
  simp only [childrenIn, List.mem_map, List.mem_filter, beq_iff_eq]
  constructor
  · rintro ⟨step, ⟨hstep, rfl⟩, rfl⟩
    exact hstep
  · exact fun h => ⟨_, ⟨h, rfl⟩, rfl⟩

theorem unseen_eq (seen candidates : List NodeId) :
    unseen seen candidates = (candidates.filter (· ∉ seen)).eraseDups := by
  induction candidates using List.reverseRecOn with
  | nil => rfl
  | append_singleton candidates id ih =>
    have hstep : unseen seen (candidates ++ [id]) =
        if seen.contains id || (unseen seen candidates).contains id then unseen seen candidates
        else unseen seen candidates ++ [id] := by
      rw [unseen, List.foldl_concat]
      rfl
    rw [hstep, ih, List.filter_append]
    by_cases hseen : id ∈ seen
    · simp [hseen]
    · simp [hseen, eraseDups_concat]

theorem mem_unseen {seen candidates : List NodeId} {id : NodeId} :
    id ∈ unseen seen candidates ↔ id ∈ candidates ∧ id ∉ seen := by
  rw [unseen_eq, List.mem_eraseDups, List.mem_filter, decide_eq_true_iff]

/-- What a search has seen after some rounds: all places within so many steps from its start, each
once, the nearer ones first. The newest are those at exactly this distance. -/
structure Searched (r : NodeId → NodeId → Prop) (start : NodeId) (rounds : Nat)
    (seen newest : List NodeId) : Prop where
  first : seen.head? = some start
  nodup : seen.Nodup
  mem_seen : ∀ id, id ∈ seen ↔ LeadsWithin r rounds start id
  mem_newest : ∀ id, id ∈ newest ↔ IsAway r rounds start id
  ordered : seen.Pairwise (Nearer r start)

namespace Searched

variable {r : NodeId → NodeId → Prop} {start : NodeId} {rounds : Nat} {seen newest : List NodeId}
  {steps : List Extension}

theorem begin (r : NodeId → NodeId → Prop) (start : NodeId) :
    Searched r start 0 [start] [start] where
  first := rfl
  nodup := List.nodup_singleton start
  mem_seen id := by
    rw [List.mem_singleton]
    constructor
    · rintro rfl
      exact .refl 0 id
    · rintro ⟨count, hcount, hleads⟩
      obtain rfl := Nat.le_zero.mp hcount
      exact Eq.symm hleads
  mem_newest id := by
    rw [List.mem_singleton]
    constructor
    · rintro rfl
      exact ⟨rfl, fun fewer hfewer => absurd hfewer (Nat.not_lt_zero fewer)⟩
    · exact fun h => Eq.symm h.1
  ordered := List.pairwise_singleton _ start

/-- A round finds the places at the next distance. -/
theorem round (h : Searched r start rounds seen newest)
    (hsteps : ∀ parent child, ⟨parent, child⟩ ∈ steps ↔ r parent child) :
    Searched r start (rounds + 1) (seen ++ unseen seen (newest.flatMap (childrenIn steps)))
      (unseen seen (newest.flatMap (childrenIn steps))) := by
  have hfresh : ∀ id, id ∈ unseen seen (newest.flatMap (childrenIn steps)) ↔
      IsAway r (rounds + 1) start id := by
    intro id
    rw [mem_unseen, List.mem_flatMap, isAway_succ_iff, h.mem_seen]
    simp only [mem_childrenIn, hsteps, h.mem_newest]
  have hunseen : (unseen seen (newest.flatMap (childrenIn steps))).Nodup := by
    rw [unseen_eq]
    exact nodup_eraseDups _
  generalize hnew : unseen seen (newest.flatMap (childrenIn steps)) = fresh at hfresh hunseen
  have hwithin : ∀ id, id ∈ seen ++ fresh ↔ LeadsWithin r (rounds + 1) start id := by
    intro id
    rw [List.mem_append, h.mem_seen, hfresh, LeadsWithin.succ_iff_last]
    by_cases hseen : LeadsWithin r rounds start id
    · exact iff_of_true (Or.inl hseen) (Or.inl hseen)
    · rw [or_iff_right hseen, or_iff_right hseen]
      refine ⟨fun haway => haway.1, fun hleads => ⟨hleads, fun fewer hfewer hless => ?_⟩⟩
      exact hseen ⟨fewer, Nat.le_of_lt_succ hfewer, hless⟩
  refine ⟨?_, ?_, hwithin, hfresh, ?_⟩
  · rw [List.head?_append, h.first]
    rfl
  · refine List.nodup_append.mpr ⟨h.nodup, hunseen, ?_⟩
    rintro id hseen _ hid rfl
    exact (isAway_succ_iff.mp ((hfresh id).mp hid)).2 ((h.mem_seen id).mp hseen)
  -- Whatever has been seen is within the distance of the fresh ones.
  · have hnearer : ∀ a ∈ seen ++ fresh, ∀ b ∈ fresh, Nearer r start a b :=
      fun a ha b hb => ((hfresh b).mp hb).nearer ((hwithin a).mp ha)
    refine List.pairwise_append.mpr ⟨h.ordered, ?_, ?_⟩
    · exact List.pairwise_of_forall_mem_list fun a ha =>
        hnearer a (List.mem_append_right seen ha)
    · exact fun a ha => hnearer a (List.mem_append_left fresh ha)

/-- Further rounds search as much further. -/
theorem descendantsIn (hsteps : ∀ parent child, ⟨parent, child⟩ ∈ steps ↔ r parent child) :
    ∀ {further rounds : Nat} {seen newest : List NodeId}, Searched r start rounds seen newest →
      ∃ newest', Searched r start (rounds + further)
        (Store.descendantsIn steps further seen newest) newest'
  | 0, _, _, newest, h => ⟨newest, h⟩
  | further + 1, rounds, _, _, h => by
    rw [Store.descendantsIn, Nat.add_comm further 1, ← Nat.add_assoc]
    exact (h.round hsteps).descendantsIn hsteps

end Searched

/-- Two supertags that extend each other are found once each. -/
example (a b : NodeId) (h : a ≠ b) :
    descendantsIn [⟨a, b⟩, ⟨b, a⟩] 2 [a] [a] = [a, b] := by
  simp [descendantsIn, unseen, childrenIn, h, h.symm]

/-- The supertags below a supertag are found by a search of `maxDepth` rounds. -/
theorem searched_descendants {s : Store} {supertag : NodeId} {below : List NodeId}
    (h : s.descendants supertag = .ok below) :
    ∃ newest, Searched s.StepsDown supertag maxDepth below newest := by
  obtain ⟨steps, hsteps, h⟩ := Reading.bind_ok h
  obtain rfl := Except.ok.inj h
  have hall : ∃ newest, Searched s.StepsDown supertag (0 + maxDepth)
      (descendantsIn steps maxDepth [supertag] [supertag]) newest :=
    (Searched.begin s.StepsDown supertag).descendantsIn fun _ _ => mem_extensions_iff hsteps
  rwa [Nat.zero_add] at hall

/-! ## Upwards -/

/-- Each member of a chain but the last is followed by another one. -/
theorem exists_next_or_last {α : Type} {r : α → α → Prop} : ∀ {l : List α} {a b : α},
    (a :: l).IsChain r → b ∈ a :: l → (∃ c ∈ l, r b c) ∨ b = l.getLastD a
  | [], _, _, _, hb => Or.inr (List.mem_singleton.mp hb)
  | next :: _, _, _, hchain, hb => by
    obtain ⟨hnext, hrest⟩ := List.isChain_cons_cons.mp hchain
    rw [List.getLastD_cons]
    rcases List.mem_cons.mp hb with rfl | hb
    · exact Or.inl ⟨next, List.mem_cons_self, hnext⟩
    · rcases exists_next_or_last hrest hb with ⟨c, hc, hbc⟩ | hlast
      · exact Or.inl ⟨c, List.mem_cons_of_mem _ hc, hbc⟩
      · exact Or.inr hlast

/-- A climb comes to exactly the supertags that at most as many steps up lead to. -/
theorem Climbed.mem_iff {s : Store} {steps : Nat} {start : NodeId} {above : List NodeId}
    (h : Climbed s steps [start] start above) {id : NodeId} :
    id ∈ start :: above ↔ LeadsWithin (fun c p => s.parent? c = .ok (some p)) steps start id := by
  have hunique : ∀ a b c : NodeId, s.parent? a = .ok (some b) → s.parent? a = .ok (some c) →
      b = c := fun _ _ _ hb hc => Option.some.inj (Except.ok.inj (hb.symm.trans hc))
  constructor
  · intro hid
    obtain ⟨count, hcount, hleads⟩ := LeadsWithin.of_isChain h.chain hid
    exact ⟨count, Nat.le_trans hcount h.bounded, hleads⟩
  · rintro ⟨count, hcount, hleads⟩
    rcases Nat.lt_or_ge above.length steps with hlt | hge
    -- A climb that ended early has nowhere else to go.
    · refine Leads.keeps (p := (· ∈ start :: above)) (fun a b ha hab => ?_) List.mem_cons_self
        hleads
      rcases exists_next_or_last h.chain ha with ⟨c, hc, hac⟩ | rfl
      · exact hunique a b c hab hac ▸ List.mem_cons_of_mem _ hc
      · rcases h.ended hlt with hnone | ⟨parent, hparent, hmet⟩
        · cases hnone.symm.trans hab
        · rw [List.mem_singleton, ← List.mem_cons] at hmet
          exact hunique _ b parent hab hparent ▸ hmet
    · exact Leads.mem_of_isChain hunique h.chain (Nat.le_trans hcount hge) hleads

/-! ## Both directions -/

/-- No live node has two rows of the live `field:extends`. -/
def SingleParents (s : Store) : Prop :=
  ∀ node field, s.IsLive node → s.Holds (.known field) (some Handle.fieldExtends) →
    (s.fieldRecords node field).length ≤ 1

/-- One row does not make two. -/
theorem singleParents_of_length_le {s : Store} (h : s.properties.length ≤ 1) :
    s.SingleParents := by
  intro node field _ _
  rw [fieldRecords, inOrder, List.length_mergeSort]
  exact Nat.le_trans (List.length_filter_le _ _) h

namespace Sound

variable {s : Store}

/-- The supertags above a supertag are those that at most `maxDepth` steps up lead to. -/
theorem exists_ancestors (hs : s.Sound) (supertag : NodeId) :
    ∃ above, s.ancestors supertag = .ok above ∧ ∀ id, id = supertag ∨ id ∈ above ↔
      LeadsWithin (fun c p => s.parent? c = .ok (some p)) maxDepth supertag id := by
  obtain ⟨above, habove⟩ := hs.isReadable.ancestors_succeeds supertag
  refine ⟨above, habove, fun id => ?_⟩
  rw [← List.mem_cons]
  exact (climbed_ancestorsFrom habove).mem_iff

/-- The supertags below a supertag are those that at most `maxDepth` steps down lead to. -/
theorem exists_descendants (hs : s.Sound) (supertag : NodeId) :
    ∃ below, s.descendants supertag = .ok below ∧ ∀ id, id ∈ below ↔
      LeadsWithin (fun p c => s.Names c p) maxDepth supertag id := by
  obtain ⟨below, hbelow⟩ := hs.isReadable.descendants_succeeds supertag
  obtain ⟨newest, hsearched⟩ := searched_descendants hbelow
  have hsteps : s.StepsDown = fun p c => s.Names c p := by
    funext parent child
    exact propext hs.stepsDown_iff
  exact ⟨below, hbelow, hsteps ▸ hsearched.mem_seen⟩

/-- Whatever steps down lead to is live, if they start from a live supertag. -/
theorem isLive_of_leads (hs : s.Sound) : ∀ {steps : Nat} {a b : NodeId}, s.IsLive a →
    Leads (fun p c => s.Names c p) steps a b → s.IsLive b
  | 0, _, _, ha, hab => hab ▸ ha
  | _ + 1, _, _, _, ⟨_, hac, hcb⟩ => hs.isLive_of_leads (hs.isLive_iff.mpr hac.1) hcb

/-- The parents that a live node names stand in its rows of the live `field:extends`. -/
theorem names_iff (hs : s.Sound) {field child parent : NodeId}
    (hfield : s.Holds (.known field) (some Handle.fieldExtends)) (hchild : s.IsLive child) :
    s.Names child parent ↔
      ∃ raw ∈ s.texts child field, PropertyValue.parentIn? raw = some parent := by
  simp only [mem_texts]
  constructor
  · rintro ⟨-, r, hr, hnode, hextends, hparent⟩
    exact ⟨r.value, ⟨r, hr, hnode, hs.holds_unique hextends hfield, rfl⟩, hparent⟩
  · rintro ⟨_, ⟨r, hr, hnode, hfieldId, rfl⟩, hparent⟩
    exact ⟨hs.isLive_iff.mp hchild, r, hr, hnode, hfieldId ▸ hfield, hparent⟩

/-- The parent of a live supertag is one that it names. -/
theorem names_of_parent? (hs : s.Sound) {child parent : NodeId} (hchild : s.IsLive child)
    (h : s.parent? child = .ok (some parent)) : s.Names child parent := by
  obtain ⟨field, hfield⟩ := hs.nodeBySystemId?_succeeds Handle.fieldExtends
  cases field with
  | none =>
    have hnone : s.parent? child = .ok none := by rw [parent?, hfield]; rfl
    cases hnone.symm.trans h
  | some field =>
    have hholds := hs.holds_of_nodeBySystemId? hfield
    obtain ⟨found, hfound, hiff⟩ := hs.exists_parent? hholds child
    obtain rfl := Except.ok.inj (hfound.symm.trans h)
    exact (hs.names_iff hholds hchild).mpr
      (List.exists_of_findSome?_eq_some ((hiff parent).mp rfl).1)

/-- A step up is a step down to a live node turned around. -/
theorem parent?_eq_some_iff (hs : s.Sound) (hsingle : s.SingleParents) {child parent : NodeId}
    (hchild : s.IsLive child) :
    s.parent? child = .ok (some parent) ↔ s.Names child parent ∧ s.IsLive parent := by
  refine ⟨fun h => ⟨hs.names_of_parent? hchild h, isLive_of_parent? h⟩, fun ⟨hnames, hparent⟩ => ?_⟩
  obtain ⟨field, hholds⟩ : ∃ field, s.Holds (.known field) (some Handle.fieldExtends) := by
    obtain ⟨-, r, hr, -, hholds, -⟩ := hnames
    obtain ⟨row, rfl⟩ := hs.rows r hr
    exact ⟨row.fieldId, hholds⟩
  obtain ⟨found, hfound, hiff⟩ := hs.exists_parent? hholds child
  have hlength : (s.texts child field).length ≤ 1 := by
    rw [texts, List.length_map]
    exact hsingle child field hchild hholds
  rw [hfound, Except.ok.injEq, hiff, parentOf?_eq_some_iff hlength,
    ← hs.names_iff hholds hchild]
  exact ⟨hnames, hparent⟩

/-- Steps down between live supertags are as many steps up. -/
theorem leads_iff (hs : s.Sound) (hsingle : s.SingleParents) {steps : Nat}
    {supertag target : NodeId} (hsupertag : s.IsLive supertag) (htarget : s.IsLive target) :
    Leads (fun p c => s.Names c p) steps target supertag ↔
      Leads (fun c p => s.parent? c = .ok (some p)) steps supertag target := by
  have hup : ∀ {steps : Nat} {target : NodeId}, s.IsLive target →
      Leads (fun p c => s.Names c p) steps target supertag →
        Leads (fun c p => s.parent? c = .ok (some p)) steps supertag target := by
    intro steps
    induction steps with
    | zero => exact fun _ h => Eq.symm h
    | succ steps ih =>
      rintro target htarget ⟨child, hnames, hrest⟩
      have hchild : s.IsLive child := hs.isLive_iff.mpr hnames.1
      exact (ih hchild hrest).concat ((hs.parent?_eq_some_iff hsingle hchild).mpr ⟨hnames, htarget⟩)
  have hdown : ∀ {steps : Nat} {supertag : NodeId}, s.IsLive supertag →
      Leads (fun c p => s.parent? c = .ok (some p)) steps supertag target →
        Leads (fun p c => s.Names c p) steps target supertag := by
    intro steps
    induction steps with
    | zero => exact fun _ h => Eq.symm h
    | succ steps ih =>
      rintro supertag hsupertag ⟨parent, hparent, hrest⟩
      obtain ⟨hnames, hlive⟩ := (hs.parent?_eq_some_iff hsingle hsupertag).mp hparent
      exact (ih hlive hrest).concat hnames
  exact ⟨hup htarget, hdown hsupertag⟩

end Sound

end Store

end TagGraph
