import TagGraph.Proofs.Field.Reading
import TagGraph.Proofs.Store.Sound

/-!
# Look-ups by identifier or handle

A text names the live node whose identifier it writes. Only if there is no such node, it names the
live node that has the text as its handle (`Store.Sound.findLive?_eq_some_iff`). So a node is found
under each spelling of its identifier, and under its handle unless that spells the identifier of
another live node.
-/

namespace TagGraph.Store

namespace Sound

variable {s : Store} {name : String} {n : Node}

/-- The nodes that a text names when it is read as an identifier. -/
theorem spelled_iff (hs : s.Sound) {id : NodeId} (hid : NodeId.ofString? name = some id) :
    s.node? id = .ok (some n) ↔ n ∈ s.liveNodes ∧ n.id.SpelledBy name.toList := by
  rw [hs.node?_eq_some_iff, ← NodeId.ofChars?_eq_some_iff]
  refine and_congr_right fun _ => ?_
  show n.id = id ↔ NodeId.ofString? name = some n.id
  rw [hid, Option.some.injEq, eq_comm]

/-- What a text names: the live node whose identifier it writes, or else the one with that
handle. -/
theorem findLive?_eq_some_iff (hs : s.Sound) :
    s.findLive? name = .ok (some n) ↔ n ∈ s.liveNodes ∧
      (n.id.SpelledBy (Text.trim name).toList ∨
        (∀ m ∈ s.liveNodes, ¬ m.id.SpelledBy (Text.trim name).toList) ∧
          n.systemId = some (Text.trim name)) := by
  unfold findLive?
  simp only
  generalize Text.trim name = name
  -- If no live node is spelled, the look-up is one of handles.
  have hhandle : (∀ m ∈ s.liveNodes, ¬ m.id.SpelledBy name.toList) →
      (s.nodeBySystemId? name = .ok (some n) ↔ n ∈ s.liveNodes ∧
        (n.id.SpelledBy name.toList ∨
          (∀ m ∈ s.liveNodes, ¬ m.id.SpelledBy name.toList) ∧ n.systemId = some name)) := by
    intro hnone
    rw [hs.nodeBySystemId?_eq_some_iff]
    refine and_congr_right fun hn => ?_
    rw [or_iff_right (hnone n hn), and_iff_right hnone]
  cases hid : NodeId.ofString? name with
  | none =>
    refine hhandle fun m _ hm => ?_
    rw [NodeId.ofString?, NodeId.ofChars?_eq_some_iff.mpr hm] at hid
    cases hid
  | some id =>
    obtain ⟨found, hfound⟩ := hs.node?_succeeds id
    simp only [hfound]
    cases found with
    | none =>
      refine hhandle fun m hm hspelled => ?_
      have hnode := (hs.spelled_iff hid).mpr ⟨hm, hspelled⟩
      cases hfound.symm.trans hnode
    | some m =>
      obtain ⟨hm, hspelled⟩ := (hs.spelled_iff hid).mp hfound
      show .ok (some m) = Except.ok (some n) ↔ _
      constructor
      · intro heq
        obtain rfl := Option.some.inj (Except.ok.inj heq)
        exact ⟨hm, Or.inl hspelled⟩
      · rintro ⟨hn, h | ⟨hnone, -⟩⟩
        · exact hfound.symm.trans ((hs.spelled_iff hid).mpr ⟨hn, h⟩)
        · exact absurd hspelled (hnone m hm)

/-- A live node that a text names has its handle. -/
theorem holds_of_findLive? (hs : s.Sound) (h : s.findLive? name = .ok (some n)) :
    s.Holds (.known n.id) n.systemId :=
  hs.holds_of_mem_liveNodes (hs.findLive?_eq_some_iff.mp h).1

/-- A text is looked up without the white space around it. -/
theorem findLive?_around (s : Store) {before after cs : List Char}
    (hbefore : ∀ c ∈ before, Text.isBlank c = true) (hafter : ∀ c ∈ after, Text.isBlank c = true)
    (hcs : ∀ c ∈ cs, Text.isBlank c = false) :
    s.findLive? (String.ofList (before ++ cs ++ after)) = s.findLive? (String.ofList cs) := by
  unfold findLive?
  rw [Text.trim, String.toList_ofList, Text.trimChars_around hbefore hafter hcs,
    Text.trim_eq_self (s := String.ofList cs) (by rwa [String.toList_ofList])]

/-- Handles have no white space. -/
theorem isBlank_eq_false_of_systemId (hs : s.Sound) (hn : n ∈ s.liveNodes) {handle : String}
    (hhandle : n.systemId = some handle) : ∀ c ∈ handle.toList, Text.isBlank c = false :=
  ((hs.nodes n.record (hs.mem_liveNodes.mp hn).1).handle handle hhandle).2

end Sound

/-- On every store that a run leaves, a live node is found by each spelling of its identifier, with
white space around it or not. It is found by its handle, too, unless the handle spells the
identifier of another live node, which is then found in its place. -/
theorem findLive?_run (steps : List Step) {n : Node}
    (hn : n ∈ (Store.empty.run steps).liveNodes) :
    let s := Store.empty.run steps
    (∀ before cs after : List Char, n.id.SpelledBy cs →
      (∀ c ∈ before, Text.isBlank c = true) → (∀ c ∈ after, Text.isBlank c = true) →
      s.findLive? (String.ofList (before ++ cs ++ after)) = .ok (some n)) ∧
    ∀ handle, n.systemId = some handle →
      ((∀ m ∈ s.liveNodes, m.id.SpelledBy handle.toList → m = n) →
        s.findLive? handle = .ok (some n)) ∧
      ∀ m ∈ s.liveNodes, m.id.SpelledBy handle.toList → s.findLive? handle = .ok (some m) := by
  intro s
  have hs : s.Sound := empty_sound.run steps
  constructor
  · intro before cs after hspelled hbefore hafter
    have hcs : ∀ c ∈ cs, Text.isBlank c = false := fun _ => hspelled.isBlank_eq_false
    rw [Sound.findLive?_around s hbefore hafter hcs, hs.findLive?_eq_some_iff,
      Text.trim_eq_self (by rwa [String.toList_ofList]), String.toList_ofList]
    exact ⟨hn, Or.inl hspelled⟩
  · intro handle hhandle
    have htrim : Text.trim handle = handle :=
      Text.trim_eq_self (hs.isBlank_eq_false_of_systemId hn hhandle)
    constructor
    · intro hunique
      rw [hs.findLive?_eq_some_iff, htrim]
      refine ⟨hn, ?_⟩
      -- A handle that spells the identifier of its own node is found before handles are tried.
      by_cases hspelled : n.id.SpelledBy handle.toList
      · exact Or.inl hspelled
      · exact Or.inr ⟨fun m hm h => hspelled (hunique m hm h ▸ h), hhandle⟩
    · intro m hm hspelled
      rw [hs.findLive?_eq_some_iff, htrim]
      exact ⟨hm, Or.inl hspelled⟩

/-- A node is found by its identifier in capital letters behind the name space, with white space
around it, and by its handle. -/
theorem findLive?_run_milk :
    let milk : Node :=
      ⟨⟨0xaaaaaaaa00004000800000000000000b, by decide⟩, "milk", "milk", some "shop:milk", none,
        5, 5, none⟩
    let s := Store.empty.run
      [⟨5, .graph (.createNode ⟨milk.id, milk.content, milk.systemId, none, []⟩)⟩]
    s.findLive? " URN:UUID:AAAAAAAA-0000-4000-8000-00000000000B\n" = .ok (some milk) ∧
      s.findLive? "shop:milk" = .ok (some milk) := by
  intro milk s
  have hs : s.Sound := empty_sound.run _
  have hmilk : milk ∈ s.liveNodes := hs.mem_liveNodes.mpr ⟨by decide +kernel, rfl⟩
  have hdigits : milk.id.IsDigits "AAAAAAAA00004000800000000000000B".toList := by
    unfold NodeId.IsDigits
    decide +kernel
  have htext : " URN:UUID:AAAAAAAA-0000-4000-8000-00000000000B\n" = String.ofList ([' '] ++
      ("URN:UUID:".toList ++ NodeId.hyphenate "AAAAAAAA00004000800000000000000B".toList) ++
        ['\n']) := by decide +kernel
  obtain ⟨hspelled, hhandle⟩ := findLive?_run _ hmilk
  rw [htext]
  refine ⟨hspelled _ _ _ (.urn (by decide) hdigits) (List.forall_mem_singleton.mpr rfl)
    (List.forall_mem_singleton.mpr rfl), (hhandle "shop:milk" rfl).1 ?_⟩
  -- The handle writes no identifier at all.
  intro m _ hm
  have hno : NodeId.ofString? "shop:milk" = none := by decide +kernel
  cases hno.symm.trans (NodeId.ofChars?_eq_some_iff.mpr hm)

/-- A handle may spell the identifier of another node, which is then found in its place. -/
theorem findLive?_run_otherNode :
    let milk : Node :=
      ⟨⟨0xaaaa, by decide⟩, "milk", "milk", none, none, 5, 5, none⟩
    let oat : Node :=
      ⟨⟨0xbbbb, by decide⟩, "oat", "oat", some milk.id.toString, none, 5, 5, none⟩
    let s := Store.empty.run
      [⟨5, .graph (.createNode ⟨milk.id, milk.content, none, none, []⟩)⟩,
        ⟨5, .graph (.createNode ⟨oat.id, oat.content, oat.systemId, none, []⟩)⟩]
    oat ∈ s.liveNodes ∧ oat.systemId = some milk.id.toString ∧ oat ≠ milk ∧
      s.findLive? milk.id.toString = .ok (some milk) := by
  intro milk oat s
  have hs : s.Sound := empty_sound.run _
  have hmilk : milk ∈ s.liveNodes := hs.mem_liveNodes.mpr ⟨by decide +kernel, rfl⟩
  have hoat : oat ∈ s.liveNodes := hs.mem_liveNodes.mpr ⟨by decide +kernel, rfl⟩
  refine ⟨hoat, rfl, by decide, ?_⟩
  rw [hs.findLive?_eq_some_iff, NodeId.trim_of_ofString? (NodeId.ofString?_toString milk.id)]
  exact ⟨hmilk, Or.inl (NodeId.ofChars?_eq_some_iff.mp (NodeId.ofString?_toString milk.id))⟩

end TagGraph.Store
