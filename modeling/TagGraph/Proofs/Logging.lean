import TagGraph.Logging
import TagGraph.Proofs.Disk.Path
import TagGraph.Proofs.Text.Blank

/-!
# Logging is set up once

A request to log is in order if its texts write a level (`LogLevel.SpelledBy`) and an absolute path
(`LogRequest.AsksFor`). While something is active it is only compared with what is asked for
(`LogRequest.carryOut_some`), so a request can do no more than put something in the place of nothing
(`LogRequest.next_eq_or`). After any requests it is therefore the first one that could be carried out
that has settled what is active (`LogState.run_eq_some_iff`), also where others failed on the way.
If directories can be made and the logger starts, that is the first one in order
(`LogState.run_once`).
-/

namespace TagGraph

/-! ## Levels as texts -/

namespace LogLevel

/-- The names of a level. -/
def names : LogLevel → List String
  | .warn => ["warn", "warning"]
  | level => [level.name]

theorem ofNormalName?_eq_some_iff {name : String} {level : LogLevel} :
    ofNormalName? name = some level ↔ name ∈ level.names := by
  unfold ofNormalName?
  by_cases hwarning : name = "warning"
  · rw [if_pos hwarning, hwarning]
    cases level <;> decide
  · have hnames : name ∈ level.names ↔ level.name = name := by
      cases level <;> simp [names, LogLevel.name, hwarning, eq_comm]
    rw [if_neg hwarning, hnames]
    constructor
    · intro h
      have hfound := List.find?_some h
      exact eq_of_beq hfound
    · rintro rfl
      cases level <;> rfl

/-- A text writes a level: a name of it in letters of either case, with any white space around. -/
inductive SpelledBy (level : LogLevel) : List Char → Prop where
  | around {before cs after : List Char} (hbefore : ∀ c ∈ before, Text.isBlank c = true)
    (hafter : ∀ c ∈ after, Text.isBlank c = true)
    (hname : String.ofList (cs.map Char.toLower) ∈ level.names) :
    level.SpelledBy (before ++ cs ++ after)

theorem isBlank_eq_false_of_mem_names {level : LogLevel} {name : String} (h : name ∈ level.names) :
    ∀ c ∈ name.toList, Text.isBlank c = false := by
  have hall : (level.names.all fun name => name.toList.all (!Text.isBlank ·)) = true := by
    cases level <;> rfl
  intro c hc
  simpa using List.all_eq_true.mp (List.all_eq_true.mp hall name h) c hc

theorem normalName_eq (s : String) :
    normalName s = String.ofList ((Text.trimChars s.toList).map Char.toLower) := by
  rw [normalName, Text.lowerAscii, Text.trim, ← String.toList_inj, String.toList_map,
    String.toList_ofList, String.toList_ofList]

/-- The texts that are read as a level are those that write it. -/
theorem ofNormalName?_normalName_eq_some_iff {s : String} {level : LogLevel} :
    ofNormalName? (normalName s) = some level ↔ level.SpelledBy s.toList := by
  rw [ofNormalName?_eq_some_iff, normalName_eq]
  constructor
  · intro h
    obtain ⟨before, after, hs, hbefore, hafter⟩ := Text.exists_trimChars s.toList
    rw [hs]
    exact .around hbefore hafter h
  · intro h
    generalize s.toList = text at h
    obtain @⟨before, cs, after, hbefore, hafter, hname⟩ := h
    -- White space stays white space in small letters, and no name has any.
    have hcs : ∀ c ∈ cs, Text.isBlank c = false := by
      intro c hc
      rw [← Text.isBlank_toLower]
      refine isBlank_eq_false_of_mem_names hname _ ?_
      rw [String.toList_ofList]
      exact List.mem_map_of_mem hc
    rwa [Text.trimChars_around hbefore hafter hcs]

end LogLevel

/-! ## What a request asks for -/

namespace LogRequest

/-- A request is in order, and this is what it asks for. -/
structure AsksFor (r : LogRequest) (s : LogState) : Prop where
  level : s.level.SpelledBy r.level.toList
  isAbsolute : Path.isAbsolute s.dir = true
  dir : s.dir = Text.trim r.dir

variable {r : LogRequest} {active wanted s : LogState}

theorem requested_eq_ok_iff : LogState.requested r.level r.dir = .ok s ↔ r.AsksFor s := by
  unfold LogState.requested
  simp only
  constructor
  · intro h
    split at h
    · cases h
    · next level hlevel =>
      split at h
      · cases h
      · split at h
        · next habsolute =>
          obtain rfl := Except.ok.inj h
          exact ⟨LogLevel.ofNormalName?_normalName_eq_some_iff.mp hlevel, habsolute, rfl⟩
        · cases h
  · intro h
    have hdir : ¬ s.dir.isEmpty = true :=
      fun he => Path.ne_empty_of_isAbsolute h.isAbsolute (String.isEmpty_iff.mp he)
    rw [LogLevel.ofNormalName?_normalName_eq_some_iff.mpr h.level]
    simp only
    rw [← h.dir, if_neg hdir, if_pos h.isAbsolute]

theorem asksFor_iff_of_ok (h : LogState.requested r.level r.dir = .ok wanted) :
    r.AsksFor s ↔ s = wanted := by
  rw [← requested_eq_ok_iff, h, Except.ok.injEq, eq_comm]

theorem AsksFor.unique (hs : r.AsksFor s) (hwanted : r.AsksFor wanted) : s = wanted :=
  (asksFor_iff_of_ok (requested_eq_ok_iff.mpr hwanted)).mp hs

theorem not_asksFor_of_error {fault : LogFault}
    (h : LogState.requested r.level r.dir = .error fault) (s : LogState) : ¬ r.AsksFor s := by
  rw [← requested_eq_ok_iff, h]
  nofun

/-! ## A request while something is active -/

theorem check_eq_ok_iff :
    active.check s = .ok () ↔ active.level = s.level ∧ Path.Same s.dir active.dir := by
  rw [Path.same_iff, LogState.check]
  split
  · next hdir => exact iff_of_false nofun fun h => hdir h.2.symm
  · next hdir =>
    rw [not_not] at hdir
    split
    · next hlevel => exact iff_of_false nofun fun h => hlevel h.1
    · next hlevel => exact iff_of_true rfl ⟨not_not.mp hlevel, hdir.symm⟩

/-- What is active is compared with what is asked for, and stays, as the disk does. -/
theorem carryOut_some : r.carryOut (some active) =
    (LogState.requested r.level r.dir >>= active.check, some active, r.disk) := by
  unfold carryOut LogState.request
  cases LogState.requested r.level r.dir with
  | error fault => rfl
  | ok wanted =>
    show _ = (active.check wanted, some active, r.disk)
    cases hcheck : active.check wanted <;> simp [hcheck, Except.map]

/-- A request is accepted if it writes the level that is active, and an absolute path with the
components of the active one. -/
theorem accepted_some_iff : (r.carryOut (some active)).1 = .ok () ↔
    active.level.SpelledBy r.level.toList ∧
      Path.isAbsolute (Text.trim r.dir) = true ∧ Path.Same (Text.trim r.dir) active.dir := by
  have hasks {level : LogLevel} : r.AsksFor ⟨level, Text.trim r.dir⟩ ↔
      level.SpelledBy r.level.toList ∧ Path.isAbsolute (Text.trim r.dir) = true :=
    ⟨fun h => ⟨h.level, h.isAbsolute⟩, fun h => ⟨h.1, h.2, rfl⟩⟩
  rw [carryOut_some, ← and_assoc, ← hasks]
  cases hrequested : LogState.requested r.level r.dir with
  | error fault => exact iff_of_false nofun fun h => not_asksFor_of_error hrequested _ h.1
  | ok wanted =>
    have hdir := ((asksFor_iff_of_ok hrequested).mpr rfl).dir
    show active.check wanted = .ok () ↔ _
    rw [check_eq_ok_iff, asksFor_iff_of_ok hrequested, ← hdir, LogState.mk.injEq]
    simp only [and_true]

/-! ## A request while nothing is active -/

/-- A request is in order, the directory that it asks for can be made, and the logger starts. -/
structure Starts (r : LogRequest) (s : LogState) : Prop extends r.AsksFor s where
  made : (r.disk.makeDirectory s.dir).1 = .ok ()
  started : r.start = .ok ()

/-- What a request can do while nothing is active: it is carried out, or it is refused and leaves it
at that. -/
theorem carryOut_none_cases (r : LogRequest) :
    (∃ s d, r.Starts s ∧ r.carryOut none = (.ok (), some s, d)) ∨
    (∀ s, ¬ r.Starts s) ∧ ∃ fault d, r.carryOut none = (.error fault, none, d) := by
  unfold carryOut LogState.request
  cases hrequested : LogState.requested r.level r.dir with
  | error fault =>
    exact .inr ⟨fun s hs => not_asksFor_of_error hrequested s hs.toAsksFor, fault, r.disk, rfl⟩
  | ok wanted =>
    have hasks {s : LogState} : r.AsksFor s ↔ s = wanted := asksFor_iff_of_ok hrequested
    rcases hmade : r.disk.makeDirectory wanted.dir with ⟨answer, d⟩
    cases answer with
    | error cause =>
      refine .inr ⟨fun s hs => ?_, .cannotCreate wanted.dir cause, d, by simp [hmade]⟩
      have := hs.made
      rw [hasks.mp hs.toAsksFor, hmade] at this
      cases this
    | ok =>
      cases hstart : r.start with
      | error cause =>
        refine .inr ⟨fun s hs => ?_, .cannotStart cause, d, by simp [hmade]⟩
        cases hstart.symm.trans hs.started
      | ok =>
        refine .inl ⟨wanted, d, ⟨hasks.mpr rfl, ?_, hstart⟩, by simp [hmade]⟩
        rw [hmade]

theorem accepted_none_iff : (r.carryOut none).1 = .ok () ↔ ∃ s, r.Starts s := by
  obtain ⟨s, d, hs, h⟩ | ⟨hnone, fault, d, h⟩ := r.carryOut_none_cases
  · exact iff_of_true (congrArg Prod.fst h) ⟨s, hs⟩
  · rw [h]
    exact iff_of_false nofun fun ⟨s, hs⟩ => hnone s hs

/-! ## What is active behind a request -/

/-- What is active behind a request. -/
def next (r : LogRequest) (active : Option LogState) : Option LogState :=
  (r.carryOut active).2.1

/-- A request only puts something in the place of nothing. -/
theorem next_eq_or (active : Option LogState) : r.next active = active.or (r.next none) := by
  cases active with
  | none => rfl
  | some active => rw [next, carryOut_some, Option.some_or]

theorem next_none_eq_some_iff : r.next none = some s ↔ r.Starts s := by
  rw [next]
  obtain ⟨t, d, ht, h⟩ | ⟨hnone, fault, d, h⟩ := r.carryOut_none_cases
  · rw [h, Option.some.injEq]
    constructor
    · rintro rfl
      exact ht
    · exact fun hs => ht.toAsksFor.unique hs.toAsksFor
  · rw [h]
    exact iff_of_false nofun (hnone s)

theorem next_none_eq_none_iff : r.next none = none ↔ ∀ s, ¬ r.Starts s := by
  simp only [Option.eq_none_iff_forall_ne_some, ne_eq, next_none_eq_some_iff]

end LogRequest

/-! ## Requests one after the other -/

namespace LogState

/-- What is active after requests, each made on the disk that it finds. Nothing is at first. -/
def run (requests : List LogRequest) : Option LogState :=
  requests.foldl (fun active r => r.next active) none

theorem foldl_next (active : Option LogState) (requests : List LogRequest) :
    requests.foldl (fun active r => r.next active) active =
      active.or (requests.findSome? (·.next none)) := by
  induction requests generalizing active with
  | nil => exact Option.or_none.symm
  | cons r rest ih =>
    rw [List.foldl_cons, ih, LogRequest.next_eq_or, Option.or_assoc, List.findSome?_cons]
    cases r.next none <;> rfl

theorem run_eq_none_iff {requests : List LogRequest} :
    run requests = none ↔ ∀ r ∈ requests, ∀ s, ¬ r.Starts s := by
  rw [run, foldl_next, Option.none_or, List.findSome?_eq_none_iff]
  simp only [LogRequest.next_none_eq_none_iff]

/-- The first request that can be carried out settles what is active. -/
theorem run_eq_some_iff {requests : List LogRequest} {active : LogState} :
    run requests = some active ↔ ∃ before first later, requests = before ++ first :: later ∧
      (∀ r ∈ before, ∀ s, ¬ r.Starts s) ∧ first.Starts active := by
  rw [run, foldl_next, Option.none_or, List.findSome?_eq_some_iff]
  simp only [LogRequest.next_none_eq_none_iff, LogRequest.next_none_eq_some_iff, and_comm]

/-- Logging is set up once. Nothing is active as long as no request is in order. From the first one
on that is, what it asks for is active, whatever is requested behind it: such a request is accepted
if it writes the same level and an absolute path with the same components, it is refused otherwise,
and in both cases what is active and the disk stay. -/
theorem run_once (requests : List LogRequest)
    (hmade : ∀ r ∈ requests, ∀ s, r.AsksFor s → (r.disk.makeDirectory s.dir).1 = .ok ())
    (hstarted : ∀ r ∈ requests, r.start = .ok ()) :
    (run requests = none ↔ ∀ r ∈ requests, ∀ s, ¬ r.AsksFor s) ∧
    (∀ active, run requests = some active ↔ ∃ before first later,
      requests = before ++ first :: later ∧ (∀ r ∈ before, ∀ s, ¬ r.AsksFor s) ∧
        first.AsksFor active) ∧
    ∀ before r later, requests = before ++ r :: later →
      (run before = none → ((r.carryOut (run before)).1 = .ok () ↔ ∃ s, r.AsksFor s)) ∧
      ∀ active, run before = some active →
        ((r.carryOut (run before)).1 = .ok () ↔ active.level.SpelledBy r.level.toList ∧
          Path.isAbsolute (Text.trim r.dir) = true ∧ Path.Same (Text.trim r.dir) active.dir) ∧
        (r.carryOut (run before)).2 = (some active, r.disk) := by
  have hstarts {r : LogRequest} (hr : r ∈ requests) (s : LogState) : r.Starts s ↔ r.AsksFor s :=
    ⟨fun h => h.toAsksFor, fun h => ⟨h, hmade r hr s h, hstarted r hr⟩⟩
  have hnone {part : List LogRequest} (hsub : part ⊆ requests) :
      (∀ r ∈ part, ∀ s, ¬ r.Starts s) ↔ ∀ r ∈ part, ∀ s, ¬ r.AsksFor s :=
    forall₂_congr fun _ hr => forall_congr' fun s => not_congr (hstarts (hsub hr) s)
  refine ⟨run_eq_none_iff.trans (hnone (List.Subset.refl _)), fun active => ?_,
    fun before r later hrequests => ?_⟩
  · rw [run_eq_some_iff]
    refine exists_congr fun before => exists_congr fun first => exists_congr fun later =>
      and_congr_right fun hrequests => ?_
    have hfirst : first ∈ requests := hrequests ▸ List.mem_append_right _ List.mem_cons_self
    have hbefore : before ⊆ requests := hrequests ▸ List.subset_append_left _ _
    rw [hnone hbefore, hstarts hfirst]
  · have hr : r ∈ requests := hrequests ▸ List.mem_append_right _ List.mem_cons_self
    refine ⟨fun hbefore => ?_, fun active hactive => ?_⟩
    · rw [hbefore, LogRequest.accepted_none_iff]
      exact exists_congr (hstarts hr)
    · rw [hactive]
      exact ⟨LogRequest.accepted_some_iff, congrArg Prod.snd LogRequest.carryOut_some⟩

/-- An unknown level and a relative path are refused, and the third request is in order. What it asks
for is asked for again in another spelling, and at another level in vain. -/
theorem run_once_warning :
    let d : Disk := ⟨[], []⟩
    let refused : List LogRequest := [⟨"verbose", "/var/log", d, .ok ()⟩, ⟨"info", "log", d, .ok ()⟩]
    let first : LogRequest := ⟨" Warning\t", " /var//log/ ", d, .ok ()⟩
    let again : LogRequest := ⟨"WARN", "/var/./log", d, .ok ()⟩
    let other : LogRequest := ⟨"info", "/var/log", d, .ok ()⟩
    let requests := refused ++ [first, again, other]
    (∀ r ∈ requests, ∀ s, r.AsksFor s → (r.disk.makeDirectory s.dir).1 = .ok ()) ∧
    (∀ r ∈ requests, r.start = .ok ()) ∧
    run requests = some ⟨.warn, "/var//log/"⟩ ∧
    (again.carryOut (run (refused ++ [first]))).1 = .ok () ∧
    (other.carryOut (run (refused ++ [first, again]))).1 ≠ .ok () := by
  intro d refused first again other requests
  have hmade : ∀ r ∈ requests, ∀ s, r.AsksFor s → (r.disk.makeDirectory s.dir).1 = .ok () := by
    have htrimmed : ∀ r ∈ requests, (r.disk.makeDirectory (Text.trim r.dir)).1 = .ok () := by
      decide +kernel
    exact fun r hr s hs => hs.dir ▸ htrimmed r hr
  have hstarted : ∀ r ∈ requests, r.start = .ok () := by decide
  obtain ⟨-, hactive, hanswers⟩ := run_once requests hmade hstarted
  refine ⟨hmade, hstarted, (hactive _).mpr ⟨refused, first, [again, other], rfl, ?_, ?_⟩, ?_, ?_⟩
  · have hverbose : requested "verbose" "/var/log" = .error (.unknownLevel "verbose") := by
      decide +kernel
    have hrelative : requested "info" "log" = .error (.relativeDir "log") := by decide +kernel
    intro r hr
    rcases List.mem_cons.mp hr with rfl | hr
    · exact LogRequest.not_asksFor_of_error hverbose
    · obtain rfl := List.mem_singleton.mp hr
      exact LogRequest.not_asksFor_of_error hrelative
  · exact LogRequest.requested_eq_ok_iff.mp (by decide +kernel)
  · refine ((hanswers _ again [other] rfl).2 ⟨.warn, "/var//log/"⟩ (by decide +kernel)).1.mpr ?_
    refine ⟨LogLevel.ofNormalName?_normalName_eq_some_iff.mp ?_, ?_, Path.same_iff.mpr ?_⟩ <;>
      decide +kernel
  · rw [ne_eq, ((hanswers _ other [] rfl).2 ⟨.warn, "/var//log/"⟩ (by decide +kernel)).1,
      ← LogLevel.ofNormalName?_normalName_eq_some_iff]
    have hinfo : LogLevel.ofNormalName? (LogLevel.normalName "info") = some .info := by
      decide +kernel
    rw [show other.level = "info" from rfl, hinfo]
    nofun

end LogState

end TagGraph
