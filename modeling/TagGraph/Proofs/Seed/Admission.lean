import TagGraph.Proofs.Seed.Since

/-!
# When seeding succeeds

The seeding writes with the checks that all writes have, so a store can refuse it: the declared type
of `field:fieldType` may not admit the names of types, and a supertag of the catalogue may stand
above the one that it is to extend. Nothing else stops it, as long as the identifiers for new nodes
are unused and there is room for rows (`Edit.bootstrap_succeeds_iff`): a step succeeds if the start
allows it (`Seeding.Since.advance`), and only then (`Seeding.Since.allows_of_ok`).
-/

namespace TagGraph

/-! ## What steps need of others -/

namespace SeedStep

/-- Whether the fields that a step writes are there and take what it writes. -/
def isProvided (earlier : List SeedStep) : SeedStep → Bool
  | .create systemId _ => (NewNode.systemIdFault? systemId).isNone
  | .declare .. => (earlier.filterMap (·.created?)).contains Handle.fieldFieldType &&
    (earlier.filterMap (·.declared?)).all fun d => d.1 != Handle.fieldFieldType || d.2 == .text
  | .assign .. => (earlier.filterMap (·.created?)).contains Handle.fieldSupertag
  | .inherit supertag parent => supertag != parent
  | .save .. => (earlier.filterMap (·.declared?)).contains (Handle.fieldQueryDefinition, .json)

/-- Whether each step finds the fields that it writes. -/
def isServed : (earlier rest : List SeedStep) → Bool
  | _, [] => true
  | earlier, step :: rest => step.isProvided earlier && isServed (earlier ++ [step]) rest

theorem plan_isServed : isServed [] plan = true := by
  decide +kernel

theorem length_created_le :
    (plan.filterMap (·.created?)).length ≤ Catalogue.handles.length := by
  decide +kernel

/-- The name of a type fits the types of texts and documents. -/
theorem name_conformsTo (declared type : FieldType) :
    (PropertyValue.string declared.name).conformsTo type = true ↔ type = .text ∨ type = .json := by
  cases declared <;> cases type <;> decide +kernel

end SeedStep

/-! ## New nodes -/

namespace Store

variable {s s' : Store} {id : NodeId}

/-- One node at most has joined the store, under the identifier `id`. -/
structure JoinedBy (id : NodeId) (s s' : Store) : Prop where
  properties : s'.properties = s.properties
  lastRowId : s'.lastRowId = s.lastRowId
  held : ∀ other handle, s.Holds other handle → s'.Holds other handle
  live : ∀ other handle, s'.Holds other handle → s.Holds other handle ∨ other = .known id
  ids : ∀ other ∈ s'.nodes.map (·.id), other ∈ s.nodes.map (·.id) ∨ other = .known id

namespace JoinedBy

theorem refl (s : Store) : JoinedBy id s s where
  properties := rfl
  lastRowId := rfl
  held _ _ h := h
  live _ _ := Or.inl
  ids _ := Or.inl

theorem trans {a b c : Store} (hab : JoinedBy id a b) (hbc : JoinedBy id b c) :
    JoinedBy id a c where
  properties := hbc.properties.trans hab.properties
  lastRowId := hbc.lastRowId.trans hab.lastRowId
  held other handle h := hbc.held other handle (hab.held other handle h)
  live other handle h := (hbc.live other handle h).elim (hab.live other handle) Or.inr
  ids other h := (hbc.ids other h).elim (hab.ids other) Or.inr

theorem composes (id : NodeId) : Composes (JoinedBy id) :=
  ⟨refl, trans⟩

theorem addNode {r : NodeRecord} (hlive : r.isLive = true) (hid : r.id = .known id) :
    JoinedBy id s { s with nodes := s.nodes ++ [r] } where
  properties := rfl
  lastRowId := rfl
  held _ _ h := (holds_addNode hlive).mpr (Or.inl h)
  live _ _ h := ((holds_addNode hlive).mp h).imp_right fun h => h.1.symm.trans hid
  ids other h := by
    rw [List.map_append, List.mem_append] at h
    exact h.imp_right fun h => (List.mem_singleton.mp h).trans hid

theorem texts_eq (h : JoinedBy id s s') (node field : NodeId) :
    s'.texts node field = s.texts node field := by
  simp only [Store.texts, fieldRecords, h.properties]

end JoinedBy

end Store

namespace Edit

open Store

variable {s : Store}

/-- A node is provided for a handle under an identifier that no node has. -/
theorem insertSystemNode_of_new (hs : s.Sound) (now : Int) {id : NodeId} {systemId : String}
    (content : String) (hfault : NewNode.systemIdFault? systemId = none)
    (hnew : StoredId.known id ∉ s.nodes.map (·.id)) :
    ∃ found s', insertSystemNode now id systemId content s = .ok found s' ∧ JoinedBy id s s' := by
  by_cases hheld : ∃ held, s.Holds (.known held) (some systemId)
  · obtain ⟨held, hheld⟩ := hheld
    exact ⟨_, s, insertSystemNode_again hs now id content hfault hheld, .refl s⟩
  · have hvalid : (NewNode.system id systemId content).fault? = none := by
      simp [NewNode.fault?, NewNode.system, hfault]
    have hfree : conflict? s (newRecord now (.system id systemId content)) = none := by
      have hhandle : s.nodes.any (fun n => n.systemId == some systemId && n.isLive) = false := by
        refine List.any_eq_false.mpr fun r hr htaken => hheld ?_
        rw [Bool.and_eq_true, beq_iff_eq] at htaken
        obtain ⟨n, rfl⟩ := hs.record_of_mem hr
        exact ⟨n.id, n.record, hr, htaken.2, rfl, htaken.1⟩
      have hid : s.nodes.any (·.id == .known id) = false :=
        List.any_eq_false.mpr fun r hr heq => hnew (List.mem_map.mpr ⟨r, hr, beq_iff_eq.mp heq⟩)
      show (if _ && s.nodes.any (fun n => n.systemId == some systemId && n.isLive) then _
        else if s.nodes.any (·.id == .known id) then _ else none) = none
      rw [hhandle, hid]
      simp
    have hsound := hs.addNode (newRecord_sound now hvalid) hfree
    have hadd : addNode true (newRecord now (.system id systemId content)) s = .ok true
        { s with nodes := s.nodes ++ [newRecord now (.system id systemId content)] } := by
      rw [addNode, get_bind, hs.native]
      simp only [hfree]
      rfl
    obtain ⟨n, hn, -⟩ := hsound.nodeBySystemId?_of_holds ((holds_addNode
      (r := newRecord now (.system id systemId content)) rfl).mpr (Or.inr ⟨rfl, rfl⟩))
    refine ⟨(n.id, true), _, ?_,
      .addNode (r := newRecord now (.system id systemId content)) rfl rfl⟩
    unfold insertSystemNode
    simp only [hvalid]
    rw [bind_of_ok hadd, bind_of_ok (ask_of_ok (·.nodeBySystemId? systemId) hn)]
    rfl

end Edit

/-! ## One step further -/

namespace Seeding

open Store

variable {start : Store} {fresh : Nat → NodeId} {earlier : List SeedStep} {step : SeedStep}
  {left : Nat} {state : SeedState}

namespace Since

/-- A node for a handle as a further step. -/
theorem advance_create (h : Since start fresh earlier (left + 1) state) (now : Int) {count : Nat}
    (hunused : start.Unused fresh count) (hdrawn : state.context.drawn < count)
    {systemId content : String}
    (hfollows : (SeedStep.create systemId content).follows earlier = true)
    (hfault : NewNode.systemIdFault? systemId = none) :
    ∃ state', Seeding.step now fresh (.create systemId content) state = .ok () state' ∧
      Since start fresh (earlier ++ [.create systemId content]) left state' := by
  have hnew : StoredId.known (fresh state.context.drawn) ∉ state.store.nodes.map (·.id) := by
    intro hmem
    rcases h.added _ hmem with hold | ⟨i, hi, heq⟩
    · exact hunused.unheld _ hdrawn hold
    · have hsame := hunused.distinct _ hdrawn i (by omega) (StoredId.known.inj heq)
      omega
  obtain ⟨found, s', hinsert, hjoined⟩ :=
    Edit.insertSystemNode_of_new h.sound now content hfault hnew
  let drawn : SeedState :=
    { state with context := { state.context with drawn := state.context.drawn + 1 } }
  have hdraw : draw fresh state = .ok (fresh state.context.drawn) drawn := rfl
  have hedit : edit (Edit.insertSystemNode now (fresh state.context.drawn) systemId content) drawn =
      .ok found { drawn with store := s' } := edit_of hinsert
  obtain ⟨state', hstep, rfl, hnext⟩ : ∃ state' : SeedState,
      Seeding.step now fresh (.create systemId content) state = .ok () state' ∧
        state'.store = s' ∧ state'.context.drawn = state.context.drawn + 1 :=
    ⟨_, (bind_of_ok hdraw).trans ((bind_of_ok hedit).trans rfl), rfl, rfl⟩
  refine ⟨state', hstep, ?_⟩
  constructor
  case toReached => exact h.toReached.step hfollows hstep
  case drawn =>
    rw [hnext, h.drawn, List.filterMap_append, List.length_append]
    rfl
  case held => exact fun id handle hid => hjoined.held id handle (h.held id handle hid)
  case live =>
    intro id handle hid
    rcases hjoined.live id handle hid with hold | rfl
    · exact h.live id handle hold
    · exact Or.inr (hunused.unheld _ hdrawn)
  case added =>
    intro id hid
    rw [hnext]
    rcases hjoined.ids id hid with hold | rfl
    · refine (h.added id hold).imp_right ?_
      rintro ⟨i, hi, heq⟩
      exact ⟨i, Nat.lt_succ_of_lt hi, heq⟩
    · exact Or.inr ⟨state.context.drawn, Nat.lt_succ_self _, rfl⟩
  case texts =>
    intro m f hapart
    refine (hjoined.texts_eq m f).trans (h.texts m f fun other hother w g hw hm hg => ?_)
    exact hapart other (by simp [hother]) w g hw (hjoined.held _ _ hm) (hjoined.held _ _ hg)
  case counted => exact hjoined.lastRowId ▸ h.counted
  case room =>
    have hroom := h.room.spend h.counted (.refl _)
    exact ⟨hjoined.lastRowId ▸ hroom.numbers, hjoined.properties ▸ hroom.places⟩

/-- The type of `field:fieldType` admits the names of types where the start allows to declare
them. -/
theorem exists_type (h : Since start fresh earlier left state) (hs : start.Sound)
    {field : String} {type : FieldType}
    (hprovided : (SeedStep.declare field type).isProvided earlier = true)
    (hallows : start.Allows (.declare field type)) {f : NodeId}
    (hf : state.store.Holds (.known f) (some Handle.fieldFieldType)) :
    ∃ declared ∈ [none, some FieldType.text, some FieldType.json],
      state.store.fieldType? f = .ok declared := by
  obtain ⟨-, htexts⟩ := Bool.and_eq_true_iff.mp hprovided
  by_cases hdeclared : ∃ t, .declare Handle.fieldFieldType t ∈ earlier
  · obtain ⟨t, ht⟩ := hdeclared
    have htext : t = .text := by
      simpa using List.all_eq_true.mp htexts _ (SeedStep.mem_declared ht)
    refine ⟨some t, by simp [htext], ?_⟩
    exact h.sound.fieldType?_of_hasDone h.done (SeedStep.mem_declared ht) hf
  · rw [h.fieldType?_eq hs (not_exists.mp hdeclared) hf]
    rcases h.live _ _ hf with hold | hnew
    · exact hallows f hold
    · refine ⟨none, List.mem_cons_self, ?_⟩
      rw [fieldType?, hs.nodeBySystemId?_of_gone (h.gone_of_new hf hnew)]
      rfl

/-- A type for a field as a further step. -/
theorem advance_declare (h : Since start fresh earlier (left + 1) state) (hs : start.Sound)
    (now : Int) {field : String} {type : FieldType}
    (hfollows : (SeedStep.declare field type).follows earlier = true)
    (hprovided : (SeedStep.declare field type).isProvided earlier = true)
    (hallows : start.Allows (.declare field type)) :
    ∃ state', Seeding.step now fresh (.declare field type) state = .ok () state' ∧
      Since start fresh (earlier ++ [.declare field type]) left state' := by
  obtain ⟨hrequired, -⟩ := SeedStep.follows_iff.mp hfollows
  obtain ⟨id, hid⟩ := h.exists_id? (hrequired field (by simp [SeedStep.required]))
  have hnode := h.holds_of_id? hid
  obtain ⟨f, hf⟩ := h.exists_created
    (List.contains_iff_mem.mp (Bool.and_eq_true_iff.mp hprovided).1)
  obtain ⟨declared, hmem, htype⟩ := h.exists_type hs hprovided hallows hf
  have hfits : declared.all ((PropertyValue.string type.name).conformsTo ·) = true ∧
      Edit.TakesOne declared := by
    simp only [List.mem_cons, List.not_mem_nil, or_false] at hmem
    rcases hmem with rfl | rfl | rfl
    · exact ⟨rfl, rfl⟩
    · exact ⟨(SeedStep.name_conformsTo type .text).mpr (Or.inl rfl), rfl⟩
    · exact ⟨(SeedStep.name_conformsTo type .json).mpr (Or.inr rfl), rfl⟩
  obtain ⟨s', hset, hspends⟩ := Edit.setProperty_of_holds h.sound h.counted h.room now
    (.string type.name) isName_fieldFieldType (h.sound.isLive_iff.mpr ⟨_, hnode⟩) hf htype hfits.1
    hfits.2 (by rintro _ ⟨⟩) fun hextends => absurd hextends (by decide)
  have hstep : Seeding.step now fresh (.declare field type) state =
      .ok () { state with store := s' } := (bind_of_ok (require_of hid)).trans (edit_of hset)
  exact ⟨_, hstep, h.of_edit hset hspends
    (Edit.setProperty_editsField now id Handle.fieldFieldType _ none _) isName_fieldFieldType hnode
    rfl rfl (h.toReached.step hfollows hstep)⟩

/-- A supertag for a node as a further step. -/
theorem advance_assign (h : Since start fresh earlier (left + 1) state) (now : Int)
    {node supertag : String} (hfollows : (SeedStep.assign node supertag).follows earlier = true)
    (hprovided : (SeedStep.assign node supertag).isProvided earlier = true) :
    ∃ state', Seeding.step now fresh (.assign node supertag) state = .ok () state' ∧
      Since start fresh (earlier ++ [.assign node supertag]) left state' := by
  obtain ⟨hrequired, -⟩ := SeedStep.follows_iff.mp hfollows
  obtain ⟨id, hid⟩ := h.exists_id? (hrequired node (by simp [SeedStep.required]))
  obtain ⟨tag, htag⟩ := h.exists_id? (hrequired supertag (by simp [SeedStep.required]))
  have hnode := h.holds_of_id? hid
  obtain ⟨f, hf⟩ := h.exists_created (List.contains_iff_mem.mp hprovided)
  obtain ⟨field, hfound, -⟩ := h.sound.findLive?_of_holds isName_fieldSupertag hf
  obtain ⟨added, s', hattach, hspends⟩ := Edit.attachSupertag_spends h.sound h.counted h.room now
    tag (h.sound.isLive_iff.mpr ⟨_, hnode⟩) hfound
  have hstep : Seeding.step now fresh (.assign node supertag) state =
      .ok () { state with store := s' } :=
    (bind_of_ok (require_of hid)).trans ((bind_of_ok (require_of htag)).trans
      ((bind_of_ok (edit_of hattach)).trans rfl))
  exact ⟨_, hstep, h.of_edit hattach hspends (Edit.attachSupertag_editsField now id tag _)
    isName_fieldSupertag hnode rfl rfl (h.toReached.step hfollows hstep)⟩

/-- A parent for a supertag as a further step. -/
theorem advance_inherit (h : Since start fresh earlier (left + 1) state) (hs : start.Sound)
    (now : Int) {count : Nat} (hunused : start.Unused fresh count)
    (hdrawn : state.context.drawn ≤ count) {supertag parent : String}
    (hfollows : (SeedStep.inherit supertag parent).follows earlier = true)
    (hprovided : (SeedStep.inherit supertag parent).isProvided earlier = true)
    (hallows : ∀ step ∈ earlier, start.Allows step)
    (hthis : start.Allows (.inherit supertag parent)) :
    ∃ state', Seeding.step now fresh (.inherit supertag parent) state = .ok () state' ∧
      Since start fresh (earlier ++ [.inherit supertag parent]) left state' := by
  obtain ⟨hrequired, -, hrooted, hreadable⟩ := SeedStep.follows_iff.mp hfollows
  obtain rfl : parent = Handle.supertagItem := beq_iff_eq.mp hrooted
  obtain ⟨id, hid⟩ := h.exists_id? (hrequired supertag (by simp [SeedStep.required]))
  obtain ⟨item, hitem⟩ :=
    h.exists_id? (hrequired Handle.supertagItem (by simp [SeedStep.required]))
  have hnode := h.holds_of_id? hid
  obtain ⟨f, hf, htype⟩ := h.exists_declared (List.contains_iff_mem.mp hreadable)
  have hne : id ≠ item := by
    rintro rfl
    have hhandle := h.sound.handle_unique hnode (h.holds_of_id? hitem)
    exact bne_iff_ne.mp hprovided (Option.some.inj hhandle)
  have hguard := h.guard_of_allows hs hunused hdrawn hallows hthis hne hnode
    (h.holds_of_id? hitem)
  obtain ⟨s', hset, hspends⟩ := Edit.setProperty_of_holds h.sound h.counted h.room now
    (.node item) isName_fieldExtends (h.sound.isLive_iff.mpr ⟨_, hnode⟩) hf htype rfl rfl
    (by rintro _ ⟨⟩)
    fun _ reference hreference => (List.mem_singleton.mp hreference) ▸ hguard
  have hstep : Seeding.step now fresh (.inherit supertag Handle.supertagItem) state =
      .ok () { state with store := s' } :=
    (bind_of_ok (require_of hid)).trans ((bind_of_ok (require_of hitem)).trans (edit_of hset))
  exact ⟨_, hstep, h.of_edit hset hspends
    (Edit.setProperty_editsField now id Handle.fieldExtends _ none _) isName_fieldExtends hnode
    rfl rfl (h.toReached.step hfollows hstep)⟩

/-- A definition for a query as a further step, which is none if the query has a value there. -/
theorem advance_save (h : Since start fresh earlier (left + 1) state) (now : Int)
    {query : String} {definition : QueryDefinition}
    (hfollows : (SeedStep.save query definition).follows earlier = true)
    (hprovided : (SeedStep.save query definition).isProvided earlier = true) :
    ∃ state', Seeding.step now fresh (.save query definition) state = .ok () state' ∧
      Since start fresh (earlier ++ [.save query definition]) left state' := by
  obtain ⟨hrequired, -⟩ := SeedStep.follows_iff.mp hfollows
  obtain ⟨id, hid⟩ := h.exists_id? (hrequired query (by simp [SeedStep.required]))
  have hnode := h.holds_of_id? hid
  have hlive : state.store.IsLive id := h.sound.isLive_iff.mpr ⟨_, hnode⟩
  obtain ⟨f, hf, htype⟩ := h.exists_declared (List.contains_iff_mem.mp hprovided)
  obtain ⟨field, hfound, -⟩ := h.sound.findLive?_of_holds isName_fieldQueryDefinition hf
  have hask := Edit.ask_of_ok (·.value? id Handle.fieldQueryDefinition)
    (h.sound.value?_eq hlive hfound)
  cases hvalue : ((state.store.texts id field.id).filterMap PropertyValue.decode?).head? with
  | some value =>
    rw [hvalue] at hask
    have hstep : Seeding.step now fresh (.save query definition) state =
        .ok () { state with store := state.store } :=
      (bind_of_ok (require_of hid)).trans ((bind_of_ok (edit_of hask)).trans rfl)
    have hidle : Edit.EditsField (pure ()) state.store id Handle.fieldQueryDefinition [] :=
      Or.inl rfl
    exact ⟨_, hstep, h.of_edit rfl (.refl _) hidle isName_fieldQueryDefinition hnode rfl rfl
      (h.toReached.step hfollows hstep)⟩
  | none =>
    rw [hvalue] at hask
    obtain ⟨s', hset, hspends⟩ := Edit.setProperty_of_holds h.sound h.counted h.room now
      (.json definition.toDocument) isName_fieldQueryDefinition hlive hf htype rfl rfl
      (by rintro _ ⟨⟩) fun hextends => absurd hextends (by decide)
    have hstep : Seeding.step now fresh (.save query definition) state =
        .ok () { state with store := s' } :=
      (bind_of_ok (require_of hid)).trans ((bind_of_ok (edit_of hask)).trans (edit_of hset))
    exact ⟨_, hstep, h.of_edit hset hspends
      (Edit.setProperty_editsField now id Handle.fieldQueryDefinition _ none _)
      isName_fieldQueryDefinition hnode rfl rfl (h.toReached.step hfollows hstep)⟩

/-- A step that the start allows succeeds. -/
theorem advance (h : Since start fresh earlier (left + 1) state) (hs : start.Sound) (now : Int)
    {count : Nat} (hunused : start.Unused fresh count)
    (hdrawn : state.context.drawn + step.created?.toList.length ≤ count)
    (hfollows : step.follows earlier = true) (hprovided : step.isProvided earlier = true)
    (hallows : ∀ step ∈ earlier, start.Allows step) (hthis : start.Allows step) :
    ∃ state', Seeding.step now fresh step state = .ok () state' ∧
      Since start fresh (earlier ++ [step]) left state' := by
  cases step with
  | create =>
    exact h.advance_create now hunused hdrawn hfollows (Option.isNone_iff_eq_none.mp hprovided)
  | declare => exact h.advance_declare hs now hfollows hprovided hthis
  | assign => exact h.advance_assign now hfollows hprovided
  | inherit => exact h.advance_inherit hs now hunused hdrawn hfollows hprovided hallows hthis
  | save => exact h.advance_save now hfollows hprovided

/-- A step that succeeds is one that the start allows, if it has allowed those before it. -/
theorem allows_of_ok (h : Since start fresh earlier left state) (hs : start.Sound) {count : Nat}
    (hunused : start.Unused fresh count) (hdrawn : state.context.drawn ≤ count)
    (hfollows : step.follows earlier = true) (hallows : ∀ step ∈ earlier, start.Allows step)
    {now : Int} {state' : SeedState} (hok : Seeding.step now fresh step state = .ok () state') :
    start.Allows step := by
  obtain ⟨-, -, hrooted, -⟩ := SeedStep.follows_iff.mp hfollows
  cases step with
  | declare field type =>
    by_cases hdeclared : ∃ t, .declare Handle.fieldFieldType t ∈ earlier
    · obtain ⟨t, ht⟩ := hdeclared
      have hearlier := hallows _ ht
      exact hearlier
    · intro f hf
      obtain ⟨id, -, hok⟩ := ok_of_require hok
      obtain ⟨s', hset, rfl⟩ := edit_ok hok
      obtain ⟨fieldNode, declared, hsets⟩ := Edit.setProperty_ok h.sound hset
      have hheld := h.held _ _ hf
      have hfound := h.sound.holds_of_found isName_fieldFieldType hsets.admits.found
      obtain rfl := StoredId.known.inj (h.sound.holds_unique hheld hfound)
      have htype := hsets.declared
      rw [h.fieldType?_eq hs (not_exists.mp hdeclared) hheld] at htype
      refine ⟨declared, ?_, htype⟩
      cases declared with
      | none => exact List.mem_cons_self
      | some t =>
        rcases (SeedStep.name_conformsTo type t).mp hsets.conforms with rfl | rfl <;> simp
  | inherit supertag parent =>
    obtain rfl : parent = Handle.supertagItem := beq_iff_eq.mp hrooted
    intro child above hchild habove
    obtain ⟨id, hid, hok⟩ := ok_of_require hok
    obtain ⟨item, hitem, hok⟩ := ok_of_require hok
    obtain ⟨s', hset, rfl⟩ := edit_ok hok
    obtain ⟨fieldNode, type, hsets⟩ := Edit.setProperty_ok h.sound hset
    have hguard := hsets.admits.guarded (systemId_of_findLive? isName_fieldExtends.trimmed
      isName_fieldExtends.notId hsets.admits.found) item (List.mem_singleton_self item)
    have hitemHeld := h.holds_of_id? hitem
    obtain rfl := StoredId.known.inj
      (h.sound.holds_unique (h.held _ _ hchild) (h.holds_of_id? hid))
    obtain rfl := StoredId.known.inj (h.sound.holds_unique (h.held _ _ habove) hitemHeld)
    exact h.allows_of_guard hs hunused hdrawn hitemHeld hguard
  | create | assign | save => trivial

end Since

/-- Several steps, each after the others, succeed if the start allows all of them, and leave room for
what is left to write; otherwise they fail. -/
theorem steps_outcome {rest : List SeedStep} (now : Int) (hs : start.Sound) {count : Nat}
    (hunused : start.Unused fresh count) (hrest : SeedStep.isArranged earlier rest = true)
    (hserved : SeedStep.isServed earlier rest = true)
    (h : Since start fresh earlier (rest.length + left) state)
    (hdrawn : state.context.drawn + (rest.filterMap (·.created?)).length ≤ count)
    (hallows : ∀ step ∈ earlier, start.Allows step) :
    (∀ step ∈ rest, start.Allows step) ∧
        (∃ state', Seeding.steps now fresh rest state = .ok () state' ∧
          Since start fresh (earlier ++ rest) left state') ∨
      ¬ (∀ step ∈ rest, start.Allows step) ∧
        ¬ ∃ state', Seeding.steps now fresh rest state = .ok () state' := by
  induction rest generalizing earlier state with
  | nil =>
    rw [List.length_nil, Nat.zero_add] at h
    rw [List.append_nil]
    exact Or.inl ⟨fun _ hmem => (nomatch hmem), state, rfl, h⟩
  | cons step rest ih =>
    rw [SeedStep.isArranged, Bool.and_eq_true] at hrest
    rw [SeedStep.isServed, Bool.and_eq_true] at hserved
    rw [List.length_cons, Nat.add_right_comm] at h
    have hone : ([step].filterMap (·.created?)).length = step.created?.toList.length := by
      cases step <;> rfl
    rw [← List.singleton_append, List.filterMap_append, List.length_append, hone] at hdrawn
    by_cases hthis : start.Allows step
    · obtain ⟨next, hstep, hnext⟩ :=
        h.advance hs now hunused (by omega) hrest.1 hserved.1 hallows hthis
      have hdrawn' : next.context.drawn + (rest.filterMap (·.created?)).length ≤ count := by
        have htotal := hnext.drawn
        rw [List.filterMap_append, List.length_append, ← h.drawn, hone] at htotal
        omega
      have hallows' : ∀ s ∈ earlier ++ [step], start.Allows s := by
        rw [List.forall_mem_append, List.forall_mem_singleton]
        exact ⟨hallows, hthis⟩
      have hsteps : Seeding.steps now fresh (step :: rest) state =
          Seeding.steps now fresh rest next := bind_of_ok hstep
      rw [List.forall_mem_cons, and_iff_right hthis, hsteps, List.append_cons]
      exact ih hrest.2 hserved.2 hnext hdrawn' hallows'
    · refine Or.inr ⟨fun hall => hthis (List.forall_mem_cons.mp hall).1, fun hsteps => ?_⟩
      obtain ⟨state', hok⟩ := hsteps
      obtain ⟨_, next, hstep, -⟩ := ok_of_bind hok
      exact hthis (h.allows_of_ok hs hunused (by omega) hrest.1 hallows hstep)

/-- Several steps, each after the others, succeed if the start allows all of them, and only then. -/
theorem steps_ok_iff {rest : List SeedStep} (now : Int) (hs : start.Sound) {count : Nat}
    (hunused : start.Unused fresh count) (hrest : SeedStep.isArranged earlier rest = true)
    (hserved : SeedStep.isServed earlier rest = true)
    (h : Since start fresh earlier rest.length state)
    (hdrawn : state.context.drawn + (rest.filterMap (·.created?)).length ≤ count)
    (hallows : ∀ step ∈ earlier, start.Allows step) :
    (∃ state', Seeding.steps now fresh rest state = .ok () state') ↔
      ∀ step ∈ rest, start.Allows step := by
  have hroom : Since start fresh earlier (rest.length + 0) state := h
  rcases steps_outcome now hs hunused hrest hserved hroom hdrawn hallows with
    ⟨hall, state', hok, -⟩ | ⟨hnot, hfails⟩
  · exact iff_of_true ⟨state', hok⟩ hall
  · exact iff_of_false hfails hnot

/-- A seeding adds at most one node for each handle. -/
theorem Since.length_nodes_le (h : Since start fresh earlier left state) :
    state.store.nodes.length ≤ start.nodes.length + state.context.drawn := by
  have hsubset : state.store.nodes.map (·.id) ⊆ start.nodes.map (·.id) ++
      (List.range state.context.drawn).map fun i => StoredId.known (fresh i) := by
    intro id hid
    rcases h.added id hid with hold | ⟨i, hi, rfl⟩
    · exact List.mem_append_left _ hold
    · exact List.mem_append_right _ (List.mem_map_of_mem (List.mem_range.mpr hi))
  simpa using (List.subperm_of_subset h.sound.ids hsubset).length_le

/-- Rows of a sound store can be counted. -/
theorem countRows_succeeds {s : Store} (hs : s.Sound) (ids : List NodeId) :
    ∃ count, countRows s ids = .ok count := by
  have hrows : ∃ rows, ids.mapM s.propertiesOf = .ok rows := by
    induction ids with
    | nil => exact ⟨[], rfl⟩
    | cons id ids ih =>
      obtain ⟨first, hfirst⟩ := hs.propertiesOf_succeeds id
      obtain ⟨rest, hrest⟩ := ih
      refine ⟨first :: rest, ?_⟩
      rw [List.mapM_cons, hfirst, hrest]
      rfl
  obtain ⟨rows, hrows⟩ := hrows
  exact ⟨_, by rw [countRows, hrows]; rfl⟩

end Seeding

/-- If the steps of a seeding succeed, so does the seeding. -/
theorem Edit.bootstrap_of_steps {now : Int} {fresh : Nat → NodeId} {s : Store} {state : SeedState}
    (hs : s.Sound) (h : Seeding.steps now fresh SeedStep.plan ⟨s, .empty⟩ = .ok () state) :
    ∃ summary, Edit.bootstrap now fresh s = .ok summary state.store := by
  have hreached := (Seeding.reached_empty hs).steps SeedStep.plan_isArranged h
  obtain ⟨count, hcount⟩ :=
    Seeding.countRows_succeeds hreached.sound (state.context.ids.map (·.2))
  have hall := Seeding.all_of h hcount
  exact ⟨_, atomically_of_ok (by rw [Store.seed, hall])⟩

/-- A supply of identifiers, counted upwards from ten. -/
def Seeding.supply (i : Nat) : NodeId :=
  ⟨(i + 10) % 2 ^ 128, Nat.mod_lt _ (by decide)⟩

/-- The supply gives a different identifier to each handle of the catalogue. -/
theorem Seeding.supply_distinct : ∀ i < Catalogue.handles.length,
    ∀ j < Catalogue.handles.length, supply i = supply j → i = j := by
  decide +kernel

/-- The empty store can be seeded with different identifiers, and there is room after that for a
hundred rows. -/
theorem Edit.bootstrap_empty (now : Int) {fresh : Nat → NodeId}
    (hdistinct : ∀ i < Catalogue.handles.length, ∀ j < Catalogue.handles.length,
      fresh i = fresh j → i = j) :
    ∃ summary state, Edit.bootstrap now fresh Store.empty = .ok summary state.store ∧
      Seeding.steps now fresh SeedStep.plan ⟨Store.empty, .empty⟩ = .ok () state ∧
      Seeding.Since Store.empty fresh SeedStep.plan 100 state := by
  have hunused : Store.empty.Unused fresh Catalogue.handles.length :=
    ⟨hdistinct, fun _ _ => List.not_mem_nil, fun _ _ _ h => nomatch h⟩
  have hroom : Store.empty.Roomy (SeedStep.plan.length + 100) :=
    ⟨by decide +kernel, fun _ h => nomatch h⟩
  have hnothing : ∀ id handle, ¬ Store.empty.Holds id handle := fun _ _ ⟨_, h, _⟩ => nomatch h
  have hallows : ∀ step ∈ SeedStep.plan, Store.empty.Allows step := by
    intro step _
    cases step with
    | declare field type => exact fun f hf => absurd hf (hnothing _ _)
    | inherit supertag parent => exact fun child _ hchild => absurd hchild (hnothing _ _)
    | create | assign | save => trivial
  obtain ⟨-, state, hsteps, hsince⟩ | ⟨hnot, -⟩ := Seeding.steps_outcome now Store.empty_sound
    hunused SeedStep.plan_isArranged SeedStep.plan_isServed
    (Seeding.since_empty Store.empty_sound (Int.le_refl 0) hroom)
    (Nat.le_trans (Nat.le_of_eq (Nat.zero_add _)) SeedStep.length_created_le) fun _ h => nomatch h
  · obtain ⟨summary, hstart⟩ := Edit.bootstrap_of_steps Store.empty_sound hsteps
    exact ⟨summary, state, hstart, hsteps, hsince⟩
  · exact absurd hallows hnot

/-- Seeding a store that any run has left, be it from a seeded store, succeeds exactly if the store
allows all steps of the catalogue: `field:fieldType` has no type, or one that admits texts, and no
supertag that is to extend `supertag:item` is it or stands above it. The identifiers for new nodes
must be unused, and there must be room for rows. -/
theorem Edit.bootstrap_succeeds_iff (steps : List Step) (now : Int) (fresh : Nat → NodeId)
    (hunused : (Store.empty.run steps).Unused fresh Catalogue.handles.length)
    (hroom : (Store.empty.run steps).Roomy SeedStep.plan.length) :
    (∃ summary s', Edit.bootstrap now fresh (Store.empty.run steps) = .ok summary s') ↔
      ∀ step ∈ SeedStep.plan, (Store.empty.run steps).Allows step := by
  have hs := Store.empty_sound.run steps
  have hcounted : 0 ≤ (Store.empty.run steps).lastRowId :=
    (Store.empty_sound.grows_run steps).lastRowId
  generalize Store.empty.run steps = s at hs hunused hroom hcounted
  rw [← Seeding.steps_ok_iff now hs hunused SeedStep.plan_isArranged SeedStep.plan_isServed
    (Seeding.since_empty hs hcounted hroom)
    (Nat.le_trans (Nat.le_of_eq (Nat.zero_add _)) SeedStep.length_created_le)
    fun _ hmem => nomatch hmem]
  constructor
  · rintro ⟨summary, s', hok⟩
    cases hrun : Seeding.all now fresh ⟨s, .empty⟩ with
    | error err state =>
      have hfails : Edit.bootstrap now fresh s = .error err s :=
        Edit.atomically_of_error (by rw [Store.seed, hrun])
      cases hfails.symm.trans hok
    | ok summary state => exact ⟨state, (Seeding.all_ok hrun).1⟩
  · rintro ⟨state, hsteps⟩
    have hreached :=
      (Seeding.reached_empty hs).steps SeedStep.plan_isArranged hsteps
    obtain ⟨count, hcount⟩ :=
      Seeding.countRows_succeeds hreached.sound (state.context.ids.map (·.2))
    have hall := Seeding.all_of hsteps hcount
    exact ⟨_, state.store, Edit.atomically_of_ok (by rw [Store.seed, hall])⟩

/-- Two supertags of the catalogue, one of which extends the other already. -/
theorem Edit.bootstrap_succeeds_iff_extending :
    let id (i : Nat) (h : i < 2 ^ 128) : NodeId := ⟨i, h⟩
    let create (id : NodeId) (systemId : String) : Step :=
      ⟨5, .graph (.createNode ⟨id, systemId, some systemId, none, []⟩)⟩
    let item := id 2 (by decide)
    let task := id 3 (by decide)
    let s := Store.empty.run [create (id 1 (by decide)) Handle.fieldExtends,
      create item Handle.supertagItem, create task Handle.supertagTask,
      ⟨6, .graph (.setProperty task Handle.fieldExtends (.node item) none)⟩]
    s.Unused Seeding.supply Catalogue.handles.length ∧ s.Roomy SeedStep.plan.length ∧
      ∃ summary s', Edit.bootstrap 7 Seeding.supply s = .ok summary s' := by
  intro id create item task s
  have hunused : s.Unused Seeding.supply Catalogue.handles.length :=
    ⟨Seeding.supply_distinct, by decide +kernel, by decide +kernel⟩
  have hroom : s.Roomy SeedStep.plan.length := by
    have hnumbers : s.lastRowId + SeedStep.plan.length < 2 ^ 63 := by decide +kernel
    have hfirst : ∀ r ∈ s.properties, r.order = .integer 0 := by decide +kernel
    refine ⟨hnumbers, fun r hr place hplace => ?_⟩
    obtain rfl := Cell.integer.inj (hplace.symm.trans (hfirst r hr))
    decide +kernel
  refine ⟨hunused, hroom,
    (bootstrap_succeeds_iff _ 7 Seeding.supply hunused hroom).mpr fun step hstep => ?_⟩
  cases step with
  | declare field type =>
    rintro f ⟨r, hr, -, -, hhandle⟩
    have hnone : ∀ r ∈ s.nodes, r.systemId ≠ some Handle.fieldFieldType := by decide +kernel
    exact absurd hhandle (hnone r hr)
  | inherit supertag parent =>
    rintro child above ⟨r, hr, -, hchild, hhandle⟩ ⟨r', hr', -, habove, hhandle'⟩
    have hmem : (supertag, parent) ∈ SeedStep.plan.filterMap (·.inherited?) :=
      List.mem_filterMap.mpr ⟨_, hstep, rfl⟩
    have htask : ∀ pair ∈ SeedStep.plan.filterMap (·.inherited?), ∀ r ∈ s.nodes,
        r.systemId = some pair.1 → r.id = .known task := by decide +kernel
    have hitem : ∀ pair ∈ SeedStep.plan.filterMap (·.inherited?), ∀ r ∈ s.nodes,
        r.systemId = some pair.2 → r.id = .known item := by decide +kernel
    obtain rfl := StoredId.known.inj (hchild.symm.trans (htask _ hmem r hr hhandle))
    obtain rfl := StoredId.known.inj (habove.symm.trans (hitem _ hmem r' hr' hhandle'))
    have hguard : (s.wouldCreateCycle task item).toOption = some false := by decide +kernel
    cases hrun : s.wouldCreateCycle task item with
    | error err => rw [hrun] at hguard; cases hguard
    | ok closes => rw [hrun] at hguard; exact congrArg Except.ok (Option.some.inj hguard)
  | create | assign | save => trivial

end TagGraph
