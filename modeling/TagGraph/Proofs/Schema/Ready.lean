import Mathlib.Tactic.ByContra
import Mathlib.Tactic.SplitIfs
import TagGraph.Schema.Migration

/-!
# Databases that are ready after migrating

A migration adds tables behind those that are there, and only under names that no table has in any
letter case (`Database.Creates`). A table that was there stays as it is, while the look at whether a
database is ready wants exact names and all columns. So migrating makes a database ready if and only
if each table of the graph was missing, or was there just as it is wanted
(`Database.checkReady_migrate`).
-/

namespace TagGraph

namespace Database

variable {db db' : Database}

/-! ## What a migration adds -/

/-- The database after some statements has some more tables: each is one of those that the
statements create, none had its name before, and after them all those names are taken. -/
structure Creates (statements : List SchemaStatement) (db db' : Database) (added : List Table) :
    Prop where
  tables : db'.tables = db.tables ++ added
  wanted : ∀ u ∈ added, .createTable u ∈ statements
  fresh : ∀ u ∈ added, db.table? u.name = none
  taken : ∀ t, .createTable t ∈ statements → (db'.table? t.name).isSome = true

/-- More tables take no name back. -/
theorem table?_isSome_of_append {added : List Table} (h : db'.tables = db.tables ++ added)
    {name : String} (hname : (db.table? name).isSome = true) : (db'.table? name).isSome = true := by
  unfold table? at hname ⊢
  rw [h, List.find?_append, Option.isSome_or, hname, Bool.true_or]

theorem sameName_self (name : String) : sameName name name = true :=
  beq_self_eq_true _

theorem addTable_creates {t : Table} (h : db.addTable t = .ok db') :
    Creates [.createTable t] db db' [t] := by
  unfold addTable at h
  split at h
  · cases h
  · next hfree =>
    obtain rfl := Except.ok.inj h
    rw [Bool.not_eq_true, Bool.or_eq_false_iff, Option.isSome_eq_false_iff] at hfree
    refine ⟨rfl, fun u hu => ?_, fun u hu => ?_, fun u hu => ?_⟩
    · rw [List.mem_singleton.mp hu]
      exact List.mem_singleton_self _
    · rw [List.mem_singleton.mp hu]
      exact Option.isNone_iff_eq_none.mp hfree.1
    · obtain rfl := SchemaStatement.createTable.inj (List.mem_singleton.mp hu)
      unfold table?
      rw [List.find?_append, Option.isSome_or, List.find?_singleton, sameName_self]
      exact Bool.or_true _

/-- A statement that finds the name of its table taken, or creates an index, adds no table. -/
theorem carryOut_creates {statement : SchemaStatement} (h : db.carryOut statement = .ok db') :
    ∃ added, Creates [statement] db db' added := by
  cases statement with
  | createTable t =>
    rw [carryOut, ensureTable] at h
    split at h
    · next htaken =>
      obtain rfl := Except.ok.inj h
      refine ⟨[], (List.append_nil _).symm, List.forall_mem_nil _, List.forall_mem_nil _, ?_⟩
      intro u hu
      obtain rfl := SchemaStatement.createTable.inj (List.mem_singleton.mp hu)
      exact htaken
    · exact ⟨[t], addTable_creates h⟩
  | createIndex i columns =>
    have hsame : db'.tables = db.tables := by
      rw [carryOut, ensureIndex] at h
      cases hfound : db.table? i.table with
      | none =>
        rw [hfound] at h
        cases h
      | some t =>
        simp only [hfound] at h
        split_ifs at h
        · rw [← Except.ok.inj h]
        · rw [← Except.ok.inj h]
    refine ⟨[], ?_, List.forall_mem_nil _, List.forall_mem_nil _, ?_⟩
    · rw [hsame, List.append_nil]
    · intro t ht
      cases List.mem_singleton.mp ht

/-- What two lists of statements add one after the other. -/
theorem Creates.append {statements more : List SchemaStatement} {mid : Database}
    {added later : List Table} (h : Creates statements db mid added)
    (h' : Creates more mid db' later) :
    Creates (statements ++ more) db db' (added ++ later) where
  tables := by rw [h'.tables, h.tables, List.append_assoc]
  wanted u hu := by
    rw [List.mem_append] at hu ⊢
    exact hu.imp (h.wanted u) (h'.wanted u)
  fresh u hu := by
    rcases List.mem_append.mp hu with hu | hu
    · exact h.fresh u hu
    · have hmid := h'.fresh u hu
      by_contra hname
      have htaken := table?_isSome_of_append h.tables (Option.isSome_iff_ne_none.mpr hname)
      rw [hmid] at htaken
      cases htaken
  taken t ht := by
    rcases List.mem_append.mp ht with ht | ht
    · exact table?_isSome_of_append h'.tables (h.taken t ht)
    · exact h'.taken t ht

/-- What the statements of a migration add. -/
theorem foldlM_carryOut_creates {statements : List SchemaStatement} :
    ∀ {db : Database}, statements.foldlM carryOut db = .ok db' →
      ∃ added, Creates statements db db' added := by
  induction statements with
  | nil =>
    intro db h
    obtain rfl := Except.ok.inj h
    exact ⟨[], (List.append_nil _).symm, List.forall_mem_nil _, List.forall_mem_nil _,
      fun _ ht => nomatch ht⟩
  | cons statement statements ih =>
    intro db h
    -- The rest run on what the first one leaves, hence the induction over every database.
    rw [List.foldlM_cons] at h
    cases hfirst : db.carryOut statement with
    | error err =>
      rw [hfirst] at h
      cases h
    | ok mid =>
      rw [hfirst] at h
      obtain ⟨added, hadded⟩ := carryOut_creates hfirst
      obtain ⟨later, hlater⟩ := ih h
      exact ⟨added ++ later, hadded.append hlater⟩

/-! ## Tables as they are wanted -/

/-- There is a table of exactly the name of the wanted one, and it has columns of exactly the names
of the wanted ones, none of them computed. -/
def Provides (db : Database) (wanted : Table) : Prop :=
  ∃ t, db.tables.find? (·.name == wanted.name) = some t ∧
    ∀ c ∈ wanted.columns, ∃ d ∈ t.columns, d.name = c.name ∧ d.computed = false

/-- A table is refused because it is missing, or for the first of its columns that is missing. -/
theorem checkTable_eq (db : Database) (wanted : Table) :
    db.Provides wanted ∧ db.checkTable wanted = .ok () ∨
      ¬ db.Provides wanted ∧ (db.checkTable wanted = .error (.missingTable wanted.name) ∨
        ∃ c ∈ wanted.columns,
          db.checkTable wanted = .error (.missingColumn wanted.name c.name)) := by
  unfold checkTable Provides
  cases hfound : db.tables.find? (·.name == wanted.name) with
  | none => exact Or.inr ⟨fun ⟨_, h, _⟩ => (nomatch h), Or.inl rfl⟩
  | some t =>
    simp only [Option.some.injEq, exists_eq_left']
    cases hmissing : wanted.columns.find?
        fun c => !t.columns.any fun d => d.name == c.name && !d.computed with
    | none =>
      refine Or.inl ⟨fun c hc => ?_, rfl⟩
      simpa using List.find?_eq_none.mp hmissing c hc
    | some c =>
      have hmem := List.mem_of_find?_eq_some hmissing
      refine Or.inr ⟨fun hall => ?_, Or.inr ⟨c, hmem, rfl⟩⟩
      obtain ⟨d, hd, hname, hplain⟩ := hall c hmem
      have hnone := List.find?_some hmissing
      simp only [Bool.not_eq_true', List.any_eq_false] at hnone
      exact hnone d hd (by simp [hname, hplain])

/-- After statements of which only one creates a table of that name, the table is as it is wanted
if it was missing before, or was as it is wanted already. -/
theorem Creates.provides_iff {statements : List SchemaStatement} {added : List Table}
    (h : Creates statements db db' added) {t : Table} (ht : .createTable t ∈ statements)
    (hapart : ∀ u, .createTable u ∈ statements → sameName u.name t.name = true → u = t)
    (hplain : ∀ c ∈ t.columns, c.computed = false) :
    db'.Provides t ↔ db.table? t.name = none ∨ db.Provides t := by
  have hexact : ∀ u : Table, (u.name == t.name) = true → sameName u.name t.name = true := by
    intro u hu
    rw [beq_iff_eq.mp hu]
    exact sameName_self t.name
  -- The only table of this name that can have been added is the wanted one.
  have honly : ∀ u ∈ added, sameName u.name t.name = true → u = t :=
    fun u hu => hapart u (h.wanted u hu)
  by_cases hfree : db.table? t.name = none
  · refine iff_of_true ⟨t, ?_, fun c hc => ⟨c, hc, rfl, hplain c hc⟩⟩ (Or.inl hfree)
    have hbefore : db.tables.find? (·.name == t.name) = none := by
      rw [List.find?_eq_none]
      exact fun u hu hname => List.find?_eq_none.mp hfree u hu (hexact u hname)
    have hadded : t ∈ added := by
      have htaken := h.taken t ht
      rw [table?, h.tables, List.find?_append, show db.tables.find? _ = none from hfree,
        Option.none_or, List.find?_isSome] at htaken
      obtain ⟨u, hu, hname⟩ := htaken
      exact honly u hu hname ▸ hu
    rw [h.tables, List.find?_append, hbefore, Option.none_or]
    have hfound : (added.find? (·.name == t.name)).isSome = true :=
      List.find?_isSome.mpr ⟨t, hadded, beq_self_eq_true t.name⟩
    obtain ⟨u, hu⟩ := Option.isSome_iff_exists.mp hfound
    have hname := List.find?_some hu
    rw [hu, honly u (List.mem_of_find?_eq_some hu) (hexact u hname)]
  · have hadded : added.find? (·.name == t.name) = none := by
      rw [List.find?_eq_none]
      intro u hu hname
      obtain rfl := honly u hu (hexact u hname)
      exact hfree (h.fresh u hu)
    rw [or_iff_right hfree, Provides, Provides, h.tables, List.find?_append, hadded, Option.or_none]

/-! ## Migrating -/

/-- The tables of the graph. -/
def graphTables : List Table := [Schema.nodes, Schema.nodeProperties]

/-- A database at the latest version is ready, or refused for a table of the graph that is not as it
is wanted. -/
theorem checkReady_eq (hversion : db.version = Schema.latestVersion) :
    (∀ t ∈ graphTables, db.Provides t) ∧ db.checkReady = .ok () ∨
      ∃ t ∈ graphTables, ¬ db.Provides t ∧ (db.checkReady = .error (.missingTable t.name) ∨
        ∃ c ∈ t.columns, db.checkReady = .error (.missingColumn t.name c.name)) := by
  have hready : db.checkReady =
      (db.checkTable Schema.nodes >>= fun _ => db.checkTable Schema.nodeProperties) := by
    rw [checkReady, checkedVersion, hversion]
    rfl
  rw [hready]
  rcases db.checkTable_eq Schema.nodes with ⟨hnodes, hok⟩ | ⟨hnodes, hrefused⟩
  · rw [hok]
    rcases db.checkTable_eq Schema.nodeProperties with ⟨hrows, hok'⟩ | ⟨hrows, hrefused⟩
    · exact Or.inl ⟨by simp [graphTables, hnodes, hrows], hok'⟩
    · exact Or.inr ⟨_, by simp [graphTables], hrows, hrefused⟩
  · refine Or.inr ⟨_, by simp [graphTables], hnodes, ?_⟩
    rcases hrefused with h | ⟨c, hc, h⟩
    · exact Or.inl (by rw [h]; rfl)
    · exact Or.inr ⟨c, hc, by rw [h]; rfl⟩

/-- What a database is that has been migrated from the beginning. -/
theorem creates_of_migrate (hversion : db.version = 0) (h : db.migrate = .ok db') :
    db'.version = Schema.latestVersion ∧ ∃ added, Creates Schema.first.statements db db' added := by
  have hmigrate : db.migrate = (db.apply Schema.first >>= pure) := by
    rw [migrate, checkedVersion, hversion]
    rfl
  rw [hmigrate, bind_pure, apply] at h
  cases hrun : Schema.first.statements.foldlM carryOut db with
  | error err =>
    rw [hrun] at h
    cases h
  | ok mid =>
    rw [hrun] at h
    obtain rfl := Except.ok.inj h
    obtain ⟨added, hadded⟩ := foldlM_carryOut_creates hrun
    exact ⟨rfl, added, hadded.tables, hadded.wanted, hadded.fresh, hadded.taken⟩

/-- The tables of the graph differ in their names, and their columns are stored. -/
theorem graphTables_wanted : ∀ t ∈ graphTables, .createTable t ∈ Schema.first.statements ∧
    (∀ u, .createTable u ∈ Schema.first.statements → sameName u.name t.name = true → u = t) ∧
    ∀ c ∈ t.columns, c.computed = false := by
  have hcreated : ∀ u, .createTable u ∈ Schema.first.statements ↔ u ∈ graphTables := by
    simp [Schema.first, graphTables]
  have hapart : ∀ t ∈ graphTables, ∀ u ∈ graphTables, sameName u.name t.name = true → u = t := by
    have hnames : sameName Schema.nodes.name Schema.nodeProperties.name = false ∧
        sameName Schema.nodeProperties.name Schema.nodes.name = false := by decide +kernel
    simp [graphTables, hnames]
  have hplain : ∀ t ∈ graphTables, ∀ c ∈ t.columns, c.computed = false := by decide
  intro t ht
  refine ⟨(hcreated t).mpr ht, fun u hu => ?_, hplain t ht⟩
  exact hapart t ht u ((hcreated u).mp hu)

/-- A database of version 0 that has been migrated is ready if and only if each table of the graph
was missing before, whatever the case of its letters, or was there under exactly its name with all
its columns. Otherwise it is refused for a table that was there in another form. -/
theorem checkReady_migrate (hversion : db.version = 0) (h : db.migrate = .ok db') :
    (db'.checkReady = .ok () ↔
      ∀ t ∈ graphTables, db.table? t.name = none ∨ db.Provides t) ∧
    ∀ err, db'.checkReady = .error err → ∃ t ∈ graphTables,
      (db.table? t.name).isSome = true ∧ ¬ db.Provides t ∧
        (err = .missingTable t.name ∨ ∃ c ∈ t.columns, err = .missingColumn t.name c.name) := by
  obtain ⟨hlatest, added, hcreates⟩ := creates_of_migrate hversion h
  have hprovides : ∀ t ∈ graphTables,
      (db'.Provides t ↔ db.table? t.name = none ∨ db.Provides t) := by
    intro t ht
    obtain ⟨hwanted, hapart, hplain⟩ := graphTables_wanted t ht
    exact hcreates.provides_iff hwanted hapart hplain
  rcases checkReady_eq hlatest with ⟨hall, hok⟩ | ⟨t, ht, hnot, hrefused⟩
  · constructor
    · exact iff_of_true hok fun t ht => (hprovides t ht).mp (hall t ht)
    · intro err herr
      cases hok.symm.trans herr
  · rw [hprovides t ht, not_or] at hnot
    constructor
    · refine iff_of_false (fun hok => ?_) fun hall => hnot.elim fun hsome hno => ?_
      · rcases hrefused with h | ⟨c, -, h⟩ <;> cases hok.symm.trans h
      · exact (hall t ht).elim hsome hno
    · intro err herr
      refine ⟨t, ht, Option.isSome_iff_ne_none.mpr hnot.1, hnot.2, ?_⟩
      rcases hrefused with h | ⟨c, hc, h⟩
      · exact Or.inl (Except.error.inj (herr.symm.trans h))
      · exact Or.inr ⟨c, hc, Except.error.inj (herr.symm.trans h)⟩

/-- A database that has the rows of fields already, without references and with one more column, is
ready once it has been migrated. -/
theorem checkReady_migrate_partial :
    let rows : Table := { Schema.nodeProperties with
      columns := { name := "colour" } :: Schema.nodeProperties.columns, references := [] }
    ∃ db', migrate { empty with tables := [rows] } = .ok db' ∧ db'.checkReady = .ok () := by
  intro rows
  have hok : (migrate { empty with tables := [rows] }).isOk = true := by decide +kernel
  cases h : migrate { empty with tables := [rows] } with
  | error err =>
    rw [h] at hok
    cases hok
  | ok db' =>
    refine ⟨db', rfl, (checkReady_migrate rfl h).1.mpr (List.forall_mem_cons.mpr ⟨?_, ?_⟩)⟩
    · exact Or.inl (by decide +kernel)
    · refine List.forall_mem_singleton.mpr (Or.inr ⟨rows, by simp [rows], fun c hc => ?_⟩)
      have hrows : Schema.nodeProperties ∈ graphTables := by simp [graphTables]
      exact ⟨c, List.mem_cons_of_mem _ hc, rfl, (graphTables_wanted _ hrows).2.2 c hc⟩

/-- A table of nodes that lacks a column is left alone, and the migrated database is refused. -/
theorem checkReady_migrate_incomplete :
    let nodes : Table := { Schema.nodes with
      columns := Schema.nodes.columns.filter (·.name != "content") }
    ∃ db', migrate { empty with tables := [nodes] } = .ok db' ∧
      db'.checkReady = .error (.missingColumn "nodes" "content") := by
  intro nodes
  have hrefused : (migrate { empty with tables := [nodes] }).toOption.any (fun db' =>
      match db'.checkReady with
      | .error (.missingColumn table column) => table == "nodes" && column == "content"
      | _ => false) = true := by decide +kernel
  cases hmigrate : migrate { empty with tables := [nodes] } with
  | error err =>
    rw [hmigrate] at hrefused
    cases hrefused
  | ok db' =>
    rw [hmigrate, Except.toOption, Option.any_some] at hrefused
    split at hrefused
    · next table column hready =>
      rw [Bool.and_eq_true, beq_iff_eq, beq_iff_eq] at hrefused
      obtain ⟨rfl, rfl⟩ := hrefused
      exact ⟨db', rfl, hready⟩
    · cases hrefused

end Database

end TagGraph
