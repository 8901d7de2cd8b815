import TagGraph.Proofs.Assembly.Shared
import TagGraph.Proofs.Query.Evaluation
import TagGraph.Proofs.Tagged

/-!
# Links and backlinks

A filter for links reads the references of the node that it tests, one for backlinks from a target
those of the target, and one for any backlinks those of all live nodes at once. The three ask for
one relation between live nodes, read forwards and backwards (`Store.links_run`).
-/

namespace TagGraph

open Reading

namespace Store

/-- What an evaluation answers for a live node and a filter, whatever it has tested before. -/
def Decides (s : Store) (now : Int) (id : NodeId) (f : Filter) (answer : Bool) : Prop :=
  ∃ candidates n, s.assembleAll = .ok candidates ∧ n ∈ candidates ∧ n.id = id ∧
    ∀ earlier : List (AssembledNode × Filter), ∃ answers memo memo',
      (earlier.mapM fun e => Evaluating.test ⟨s, candidates, now⟩ e.1 e.2) .empty =
          .ok (answers, memo) ∧
        Evaluating.test ⟨s, candidates, now⟩ n f memo = .ok (answer, memo')

namespace Sound

variable {s : Store} {now : Int}

/-- A filter is decided by whether it holds. -/
theorem decides_iff (hs : s.Sound) {id : NodeId} {f : Filter} {answer : Bool} :
    s.Decides now id f answer ↔ ∃ n ∈ s.joinedNodes, n.id = id ∧ f.holds s now n = answer := by
  constructor
  · rintro ⟨candidates, n, hall, hn, hid, htest⟩
    obtain rfl : s.joinedNodes = candidates :=
      Except.ok.inj (hs.assembleAll_eq.symm.trans hall)
    -- With nothing tested before, the tables are those of the start.
    obtain ⟨answers, memo, memo', hearlier, hanswer⟩ := htest []
    obtain rfl : QueryMemo.empty = memo := congrArg Prod.snd (Except.ok.inj hearlier)
    have htested : Answers (Evaluating.Known s) (Evaluating.test (s.scope now) n f)
        (f.holds s now n) := Evaluating.test_answers hs n f
    obtain ⟨_, hholds, -⟩ := htested _ (Evaluating.known_empty s)
    exact ⟨n, hn, hid, congrArg Prod.fst (Except.ok.inj (hholds.symm.trans hanswer))⟩
  · rintro ⟨n, hn, hid, rfl⟩
    refine ⟨s.joinedNodes, n, hs.assembleAll_eq, hn, hid, fun earlier => ?_⟩
    obtain ⟨memo, memo', hearlier, hanswer⟩ := Evaluating.test_after hs earlier n f
    exact ⟨_, memo, memo', hearlier, hanswer⟩

/-- Live nodes are told apart by their identifiers. -/
theorem decides_id_iff (hs : s.Sound) {n : AssembledNode} (hn : n ∈ s.joinedNodes) {f : Filter}
    {answer : Bool} : s.Decides now n.id f answer ↔ f.holds s now n = answer := by
  rw [hs.decides_iff]
  constructor
  · rintro ⟨m, hm, hid, hanswer⟩
    rwa [List.inj_on_of_nodup_map hs.joinedNodes_ids_nodup hm hn hid] at hanswer
  · intro hanswer
    exact ⟨n, hn, rfl, hanswer⟩

theorem exists_joined (hs : s.Sound) {id : NodeId} (h : s.IsLive id) :
    ∃ n ∈ s.joinedNodes, n.id = id := by
  obtain ⟨n, hn⟩ := h
  obtain ⟨hmem, rfl⟩ := hs.node?_eq_some_iff.mp hn
  exact ⟨s.joined n, List.mem_map_of_mem hmem, rfl⟩

/-- A query with one filter gives the nodes that it decides for. -/
theorem evaluate_decides (hs : s.Sound) (now : Int) {f : Filter} (hf : f.fault? = none)
    {limit : UInt64} (hlimit : limit ≠ 0) : ∃ page, s.evaluate now ⟨[f], none, limit⟩ = .ok page ∧
      (page.totalCount ≤ limit.toNat → ∀ id, id ∈ page.nodeIds ↔ s.Decides now id f true) := by
  refine ⟨_, hs.evaluate_single now hf hlimit, fun htotal id => ?_⟩
  rw [QueryPage.nodeIds, List.take_of_length_le htotal, hs.decides_iff]
  simp [matching, and_comm, and_assoc]

/-! ## References, read both ways -/

variable {a b : AssembledNode} {nameA nameB : String} {field : Option String}

/-- A name of a live node, in any form. -/
theorem named?_of_mem (hs : s.Sound) (ha : a ∈ s.joinedNodes)
    (hnameA : NodeId.ofString? nameA = some a.id) : s.named? (some nameA) = some (some a.id) := by
  have hfound := hs.findLiveId?_of_ofString? (hs.shows_of_mem_joinedNodes ha).live hnameA
  rw [named?, hfound]
  rfl

theorem holds_linksTo (hs : s.Sound) (hb : b ∈ s.joinedNodes)
    (hnameB : NodeId.ofString? nameB = some b.id) (n : AssembledNode) :
    Filter.holds s now n (.relation .linksTo (some nameB) field) =
      (s.named? field).any fun field => (s.referencesOf n field).contains b.id := by
  rw [Filter.holds, hs.named?_of_mem hb hnameB]
  rfl

/-- The target of a backlink is found among the live nodes. -/
theorem holds_linkedFrom (hs : s.Sound) (ha : a ∈ s.joinedNodes)
    (hnameA : NodeId.ofString? nameA = some a.id) (n : AssembledNode) :
    Filter.holds s now n (.relation .linkedFrom (some nameA) field) =
      (s.named? field).any fun field => (s.referencesOf a field).contains n.id := by
  have hfound : found? (s.assemble? a.id) = some a := by
    rw [hs.mem_joinedNodes_iff.mp ha, found?_ok]
  have hrelates : s.relates n .linkedFrom (some a.id) =
      fun field => (s.referencesOf a field).contains n.id := by
    funext field
    show (found? (s.assemble? a.id)).any _ = _
    rw [hfound, Option.any_some]
  rw [Filter.holds, hs.named?_of_mem ha hnameA, Option.any_some, hrelates]

/-- A node has a backlink from another one exactly if that one has a link to it. -/
theorem holds_linkedFrom_eq (hs : s.Sound) (ha : a ∈ s.joinedNodes) (hb : b ∈ s.joinedNodes)
    (hnameA : NodeId.ofString? nameA = some a.id) (hnameB : NodeId.ofString? nameB = some b.id) :
    Filter.holds s now b (.relation .linkedFrom (some nameA) field) =
      Filter.holds s now a (.relation .linksTo (some nameB) field) := by
  rw [hs.holds_linkedFrom ha hnameA, hs.holds_linksTo hb hnameB]

/-- A node has some backlink exactly if a live node has a link to it. -/
theorem holds_linkedFrom_none (hs : s.Sound) (hb : b ∈ s.joinedNodes)
    (hnameB : NodeId.ofString? nameB = some b.id) :
    Filter.holds s now b (.relation .linkedFrom none field) =
      s.joinedNodes.any fun m => Filter.holds s now m (.relation .linksTo (some nameB) field) := by
  simp only [hs.holds_linksTo hb hnameB]
  rw [Filter.holds]
  cases s.named? field with
  | none => simp [named?]
  | some field => rfl

end Sound

/-- A node with a link to a target has some link. -/
theorem holds_linksTo_none {s : Store} {now : Int} {n : AssembledNode} {target : String}
    {field : Option String}
    (h : Filter.holds s now n (.relation .linksTo (some target) field) = true) :
    Filter.holds s now n (.relation .linksTo none field) = true := by
  rw [Filter.holds, Option.any_eq_true] at h
  obtain ⟨found, hfound, h⟩ := h
  rw [named?] at hfound
  obtain ⟨id, -, rfl⟩ := Option.map_eq_some_iff.mp hfound
  obtain ⟨wanted, hwanted, hlink⟩ := (Option.any_eq_true _ _).mp h
  have hmem : id ∈ s.referencesOf n wanted := List.contains_iff_mem.mp hlink
  rw [Filter.holds, hwanted]
  show (!(s.referencesOf n wanted).isEmpty) = true
  rw [Bool.not_eq_true', List.isEmpty_eq_false_iff]
  exact List.ne_nil_of_mem hmem

/-- On every store that a run leaves, an evaluation decides on links and backlinks as follows,
whatever it has tested before, and a query gives the nodes it decides for. A live node has a
backlink from another one exactly if that one has a link to it; it has some backlink exactly if some
live node has a link to it; and it has some link if it has one to a target. -/
theorem links_run (steps : List Step) (now : Int) (field : Option String) :
    let s := Store.empty.run steps
    (∀ f : Filter, f.fault? = none → ∀ limit, limit ≠ 0 →
      ∃ page, s.evaluate now ⟨[f], none, limit⟩ = .ok page ∧
        (page.totalCount ≤ limit.toNat → ∀ id, id ∈ page.nodeIds ↔ s.Decides now id f true)) ∧
    ∀ a b nameA nameB, s.IsLive a → s.IsLive b →
      NodeId.ofString? nameA = some a → NodeId.ofString? nameB = some b →
      (∃ answer, s.Decides now b (.relation .linkedFrom (some nameA) field) answer ∧
        s.Decides now a (.relation .linksTo (some nameB) field) answer) ∧
      (∃ answer, s.Decides now b (.relation .linkedFrom none field) answer ∧
        (answer = true ↔
          ∃ m, s.IsLive m ∧ s.Decides now m (.relation .linksTo (some nameB) field) true)) ∧
      ∃ answer, s.Decides now a (.relation .linksTo none field) answer ∧
        ∀ target, s.Decides now a (.relation .linksTo (some target) field) true →
          answer = true := by
  intro s
  have hs : s.Sound := empty_sound.run steps
  refine ⟨fun f hf limit hlimit => hs.evaluate_decides now hf hlimit, ?_⟩
  intro a b nameA nameB ha hb hnameA hnameB
  obtain ⟨a, haJoined, rfl⟩ := hs.exists_joined ha
  obtain ⟨b, hbJoined, rfl⟩ := hs.exists_joined hb
  refine ⟨⟨_, (hs.decides_id_iff hbJoined).mpr rfl, (hs.decides_id_iff haJoined).mpr ?_⟩,
    ⟨_, (hs.decides_id_iff hbJoined).mpr rfl, ?_⟩,
    ⟨_, (hs.decides_id_iff haJoined).mpr rfl, fun target htarget => ?_⟩⟩
  · exact (hs.holds_linkedFrom_eq haJoined hbJoined hnameA hnameB).symm
  · rw [hs.holds_linkedFrom_none hbJoined hnameB, List.any_eq_true]
    constructor
    · rintro ⟨m, hm, hlinks⟩
      exact ⟨m.id, (hs.shows_of_mem_joinedNodes hm).live, (hs.decides_id_iff hm).mpr hlinks⟩
    · rintro ⟨m, -, hlinks⟩
      obtain ⟨m, hm, -, hlinks⟩ := hs.decides_iff.mp hlinks
      exact ⟨m, hm, hlinks⟩
  · exact holds_linksTo_none ((hs.decides_id_iff haJoined).mp htarget)

end Store

end TagGraph
