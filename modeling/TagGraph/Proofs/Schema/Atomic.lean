import TagGraph.Proofs.Schema.Ready

/-!
# Migrating in place

On a database in place a statement of a migration stays done when a later one fails, and so does
every new version. Migrating is all or nothing because its loop runs as a transaction. Done in place
(`Migrating.migrate`) it therefore leaves the database that `Database.migrate` gives, or leaves it
as it was (`Migrating.migrate_eq`).

What a migration does can only be added to: tables, indexes and rows stay as they are, in their
order, with the new tables and indexes behind them (`Database.Extends`).
-/

namespace TagGraph

/-- A part of migrating, on a database in place. What it has done before it fails stays done, unless
it runs as a transaction. -/
abbrev Migrating : Type :=
  EStateM StoreError Database Unit

namespace Migrating

/-- Runs a part as a transaction: if it fails, the database is as it was at its beginning. -/
def transaction (m : Migrating) : Migrating := fun db =>
  match m db with
  | .ok () db' => .ok () db'
  | .error err _ => .error err db

/-- Changes the database in one go, unless that fails. -/
def change (f : Database → Except StoreError Database) : Migrating := fun db =>
  match f db with
  | .ok db' => .ok () db'
  | .error err => .error err db

/-- Writes a version. -/
def stamp (version : Int) : Migrating :=
  modify fun db => { db with version }

/-- Carries out the statements of a migration one by one and writes its version. -/
def apply (m : Migration) : Migrating := do
  m.statements.forM fun statement => change (·.carryOut statement)
  stamp m.version

/-- Applies those migrations that are newer than a version. -/
def applyNewer (version : Int) (migrations : List Migration) : Migrating :=
  migrations.forM fun m => if m.version ≤ version then pure () else apply m

/-- Brings a database to the latest version, in place. -/
def migrate : Migrating := fun db =>
  match db.checkedVersion with
  | .error err => .error err db
  | .ok version =>
    if Schema.latestVersion < version then
      .error (.newerSchema version Schema.latestVersion) db
    else if version = Schema.latestVersion then .ok () db
    else transaction (applyNewer version Schema.migrations) db

/-! ## In place and on copies -/

variable {m m' : Migrating} {f f' : Database → Except StoreError Database}

/-- A part that ends with the database that a function gives, or with its error. It may leave any
database behind the error. -/
def Performs (m : Migrating) (f : Database → Except StoreError Database) : Prop :=
  ∀ db, (∃ db', m db = .ok () db' ∧ f db = .ok db') ∨
    ∃ err left, m db = .error err left ∧ f db = .error err

theorem change_eq_ok_iff {db db' : Database} : change f db = .ok () db' ↔ f db = .ok db' := by
  unfold change
  cases f db <;> simp

/-- What fails in one go has done nothing. -/
theorem change_eq_error_iff {db db' : Database} {err : StoreError} :
    change f db = .error err db' ↔ f db = .error err ∧ db' = db := by
  unfold change
  cases f db <;> simp [eq_comm]

theorem change_performs (f : Database → Except StoreError Database) : Performs (change f) f := by
  intro db
  unfold change
  cases hf : f db with
  | ok db' => exact Or.inl ⟨db', rfl, rfl⟩
  | error err => exact Or.inr ⟨err, db, rfl, rfl⟩

theorem pure_performs : Performs (pure ()) .ok :=
  fun db => Or.inl ⟨db, rfl, rfl⟩

theorem stamp_performs (version : Int) :
    Performs (stamp version) fun db => .ok { db with version } :=
  fun db => Or.inl ⟨{ db with version }, rfl, rfl⟩

theorem Performs.bind (h : Performs m f) (h' : Performs m' f') :
    Performs (m >>= fun _ => m') fun db => f db >>= f' := by
  intro db
  rcases h db with ⟨mid, hm, hf⟩ | ⟨err, left, hm, hf⟩
  · have hrun : (m >>= fun _ => m') db = m' mid := by
      show EStateM.bind m (fun _ => m') db = m' mid
      rw [EStateM.bind, hm]
    simp only [hrun, hf]
    exact h' mid
  · have hrun : (m >>= fun _ => m') db = .error err left := by
      show EStateM.bind m (fun _ => m') db = .error err left
      rw [EStateM.bind, hm]
    simp only [hrun, hf]
    exact Or.inr ⟨err, left, rfl, rfl⟩

/-- A loop performs the fold over what its passes perform. -/
theorem forM_performs {α : Type} {pass : α → Migrating}
    {g : Database → α → Except StoreError Database}
    (h : ∀ a, Performs (pass a) (g · a)) (l : List α) :
    Performs (l.forM pass) fun db => l.foldlM g db := by
  induction l with
  | nil => exact pure_performs
  | cons a l ih =>
    simp only [List.foldlM_cons]
    exact (h a).bind ih

/-- As a transaction, a part changes the database in one go. -/
theorem Performs.transaction (h : Performs m f) : transaction m = change f := by
  funext db
  unfold Migrating.transaction change
  rcases h db with ⟨db', hm, hf⟩ | ⟨err, left, hm, hf⟩ <;> rw [hm, hf]

theorem apply_performs (m : Migration) : Performs (apply m) (·.apply m) :=
  (forM_performs (fun statement => change_performs (·.carryOut statement)) m.statements).bind
    (stamp_performs m.version)

theorem applyNewer_performs (version : Int) (migrations : List Migration) :
    Performs (applyNewer version migrations) fun db =>
      (migrations.filter fun m => version < m.version).foldlM Database.apply db := by
  simp only [List.foldlM_filter, decide_eq_true_eq]
  refine forM_performs (fun m => ?_) migrations
  by_cases hm : m.version ≤ version
  · simp only [if_pos hm, if_neg (Int.not_lt.mpr hm)]
    exact pure_performs
  · simp only [if_neg hm, if_pos (Int.not_le.mp hm)]
    exact apply_performs m

end Migrating

namespace Schema

/-- No migration leads further than the last one. -/
theorem version_le_latestVersion : ∀ m ∈ migrations, m.version ≤ latestVersion := by
  decide

/-- At the latest version no migration is left. -/
theorem newer_eq_nil {version : Int} (h : latestVersion ≤ version) :
    (migrations.filter fun m => version < m.version) = [] := by
  refine List.filter_eq_nil_iff.mpr fun m hm => ?_
  have := version_le_latestVersion m hm
  rw [decide_eq_true_eq]
  omega

/-- Before the latest version the last migration is left, and is the last one that is. -/
theorem getLast?_newer {version : Int} (h : version < latestVersion) :
    (migrations.filter fun m => version < m.version).getLast? = migrations.getLast? := by
  have hrev : migrations.reverse = [first] := rfl
  have hlast : version < first.version := h
  rw [List.getLast?_filter, hrev, List.find?_singleton, if_pos (decide_eq_true hlast)]
  rfl

end Schema

namespace Database

/-- Migrating fails with its look at the version. -/
theorem migrate_of_error {db : Database} {err : StoreError} (h : db.checkedVersion = .error err) :
    db.migrate = .error err := by
  rw [migrate, h]
  rfl

/-- Migrating from a version that is fit to be read. -/
theorem migrate_of_ok {db : Database} {version : Int} (h : db.checkedVersion = .ok version) :
    db.migrate =
      if Schema.latestVersion < version then
        .error (.newerSchema version Schema.latestVersion)
      else (Schema.migrations.filter fun m => version < m.version).foldlM apply db := by
  rw [migrate, h]
  by_cases hnewer : Schema.latestVersion < version
  · rw [if_pos hnewer]
    show (if Schema.latestVersion < version then _ else _ : Except StoreError Database) = _
    rw [if_pos hnewer]
    rfl
  · rw [if_neg hnewer]
    show (if Schema.latestVersion < version then _ else _ : Except StoreError Database) = _
    rw [if_neg hnewer]

end Database

/-- Migrating in place leaves what migrating a copy gives, and leaves the database as it was if that
fails. -/
theorem Migrating.migrate_eq : Migrating.migrate = Migrating.change Database.migrate := by
  funext db
  rw [Migrating.migrate, Migrating.change]
  cases hversion : db.checkedVersion with
  | error err => rw [Database.migrate_of_error hversion]
  | ok version =>
    rw [Database.migrate_of_ok hversion]
    by_cases hnewer : Schema.latestVersion < version
    · simp only [if_pos hnewer]
    · simp only [if_neg hnewer]
      by_cases hlatest : version = Schema.latestVersion
      · rw [if_pos hlatest, Schema.newer_eq_nil (Int.le_of_eq hlatest.symm)]
        rfl
      · rw [if_neg hlatest, (applyNewer_performs version Schema.migrations).transaction]
        rfl

namespace Database

variable {db db' : Database}

/-! ## What is kept -/

/-- A database with the tables, indexes and rows of another one, and perhaps further tables and
indexes behind them. -/
structure Extends (db db' : Database) : Prop where
  tables : db.tables <+: db'.tables
  indexes : db.indexes <+: db'.indexes
  store : db'.store = db.store

theorem Extends.refl (db : Database) : Extends db db :=
  ⟨List.prefix_rfl, List.prefix_rfl, rfl⟩

theorem Extends.trans {mid : Database} (h : Extends db mid) (h' : Extends mid db') :
    Extends db db' :=
  ⟨h.tables.trans h'.tables, h.indexes.trans h'.indexes, h'.store.trans h.store⟩

/-- A table is still found under its name. -/
theorem Extends.table? (h : Extends db db') {name : String} {t : Table}
    (ht : db.table? name = some t) : db'.table? name = some t :=
  h.tables.find?_eq_some ht

/-- An index is still found under its name. -/
theorem Extends.index? (h : Extends db db') {name : String} {i : Index}
    (hi : db.index? name = some i) : db'.index? name = some i :=
  h.indexes.find?_eq_some hi

theorem ensureTable_extends {t : Table} (h : db.ensureTable t = .ok db') : Extends db db' := by
  rw [ensureTable] at h
  split at h
  · obtain rfl := Except.ok.inj h
    exact .refl db
  · rw [addTable] at h
    split at h
    · cases h
    · obtain rfl := Except.ok.inj h
      exact ⟨List.prefix_append _ _, List.prefix_rfl, rfl⟩

theorem ensureIndex_extends {i : Index} {columns : List String}
    (h : db.ensureIndex i columns = .ok db') : Extends db db' := by
  rw [ensureIndex] at h
  cases hfound : db.table? i.table with
  | none =>
    rw [hfound] at h
    cases h
  | some t =>
    simp only [hfound] at h
    split_ifs at h
    · obtain rfl := Except.ok.inj h
      exact .refl db
    · obtain rfl := Except.ok.inj h
      exact ⟨List.prefix_rfl, List.prefix_append _ _, rfl⟩

theorem carryOut_extends {statement : SchemaStatement} (h : db.carryOut statement = .ok db') :
    Extends db db' := by
  cases statement with
  | createTable t => exact ensureTable_extends h
  | createIndex i columns => exact ensureIndex_extends h

/-- What each step of a fold keeps the whole fold keeps. -/
theorem foldlM_extends {α : Type} {f : Database → α → Except StoreError Database}
    (hf : ∀ {db db' : Database} {a : α}, f db a = .ok db' → Extends db db') {l : List α} :
    ∀ {db : Database}, l.foldlM f db = .ok db' → Extends db db' := by
  induction l with
  | nil =>
    intro db h
    obtain rfl := Except.ok.inj h
    exact .refl db
  | cons a l ih =>
    intro db h
    rw [List.foldlM_cons] at h
    cases hfirst : f db a with
    | error err =>
      rw [hfirst] at h
      cases h
    | ok mid =>
      rw [hfirst] at h
      exact (hf hfirst).trans (ih h)

/-- A migration keeps what is there and leaves its version. -/
theorem apply_ok {m : Migration} (h : db.apply m = .ok db') :
    Extends db db' ∧ db'.version = m.version := by
  rw [apply] at h
  cases hrun : m.statements.foldlM carryOut db with
  | error err =>
    rw [hrun] at h
    cases h
  | ok mid =>
    rw [hrun] at h
    obtain rfl := Except.ok.inj h
    have hmid := foldlM_extends carryOut_extends hrun
    exact ⟨⟨hmid.tables, hmid.indexes, hmid.store⟩, rfl⟩

/-- Migrations in sequence leave the version of the last one. -/
theorem foldlM_apply_version {migrations : List Migration} :
    ∀ {db : Database}, migrations.foldlM apply db = .ok db' →
      db'.version = (migrations.getLast?.map (·.version)).getD db.version := by
  induction migrations with
  | nil =>
    intro db h
    obtain rfl := Except.ok.inj h
    rfl
  | cons m rest ih =>
    intro db h
    rw [List.foldlM_cons] at h
    cases hfirst : db.apply m with
    | error err =>
      rw [hfirst] at h
      cases h
    | ok mid =>
      rw [hfirst] at h
      rw [ih h, (apply_ok hfirst).2, List.getLast?_cons]
      cases rest.getLast? <;> rfl

theorem checkedVersion_ok {version : Int} (h : db.checkedVersion = .ok version) :
    db.version = version := by
  rw [checkedVersion] at h
  split at h
  · cases h
  · exact Except.ok.inj h

/-- Migrating keeps what is there and leads to the latest version. -/
theorem migrate_ok (h : db.migrate = .ok db') :
    Extends db db' ∧ db'.version = Schema.latestVersion := by
  cases hversion : db.checkedVersion with
  | error err =>
    rw [migrate_of_error hversion] at h
    cases h
  | ok version =>
    rw [migrate_of_ok hversion] at h
    split at h
    · cases h
    · refine ⟨foldlM_extends (fun happly => (apply_ok happly).1) h, ?_⟩
      rw [foldlM_apply_version h, checkedVersion_ok hversion]
      by_cases hbefore : version < Schema.latestVersion
      · rw [Schema.getLast?_newer hbefore]
        rfl
      · rw [Schema.newer_eq_nil (Int.not_lt.mp hbefore)]
        show version = Schema.latestVersion
        omega

/-- At the latest version there is nothing to do. -/
theorem migrate_latest (h : db.version = Schema.latestVersion) : db.migrate = .ok db := by
  have hversion : db.checkedVersion = .ok Schema.latestVersion := by
    rw [checkedVersion, h]
    rfl
  rw [migrate_of_ok hversion, if_neg (Int.lt_irrefl _), Schema.newer_eq_nil (Int.le_refl _)]
  rfl

/-- A later version is refused. -/
theorem migrate_newer (h : Schema.latestVersion < db.version) :
    db.migrate = .error (.newerSchema db.version Schema.latestVersion) := by
  have hpos : 0 ≤ Schema.latestVersion := by decide
  have hversion : db.checkedVersion = .ok db.version := by
    rw [checkedVersion, if_neg (by omega)]
  rw [migrate_of_ok hversion, if_pos h]

end Database

/-- Migrating a database in place is all or nothing: a failure leaves the database as it was, a
version later than the latest one is refused, and the latest one is left alone. A success leads to
the latest version and keeps every table with its columns, every index and every row, and after it
there is nothing left to do. -/
theorem Migrating.migrate_atomic (db : Database) :
    (∀ err db', Migrating.migrate db = .error err db' → db' = db) ∧
    (Schema.latestVersion < db.version →
      Migrating.migrate db = .error (.newerSchema db.version Schema.latestVersion) db) ∧
    (db.version = Schema.latestVersion → Migrating.migrate db = .ok () db) ∧
    ∀ db', Migrating.migrate db = .ok () db' →
      db'.version = Schema.latestVersion ∧
      db.tables <+: db'.tables ∧ db.indexes <+: db'.indexes ∧ db'.store = db.store ∧
      (∀ name t, db.table? name = some t → db'.table? name = some t) ∧
      (∀ name i, db.index? name = some i → db'.index? name = some i) ∧
      Migrating.migrate db' = .ok () db' := by
  simp only [migrate_eq, change_eq_ok_iff, change_eq_error_iff]
  refine ⟨fun err db' h => h.2, fun h => ⟨Database.migrate_newer h, trivial⟩,
    Database.migrate_latest, fun db' h => ?_⟩
  obtain ⟨hextends, hversion⟩ := Database.migrate_ok h
  exact ⟨hversion, hextends.tables, hextends.indexes, hextends.store,
    fun _ _ => hextends.table?, fun _ _ => hextends.index?, Database.migrate_latest hversion⟩

/-- Where the rows of fields have no place, all statements but the last one succeed, and are undone
with it. -/
example :
    let rows : Table := { Schema.nodeProperties with
      columns := Schema.nodeProperties.columns.filter (·.name != "sort_order") }
    let db : Database := { Database.empty with tables := [rows] }
    (match Migrating.applyNewer db.version Schema.migrations db with
      | .ok _ _ => false
      | .error _ left => left.tables.length == 2 && left.indexes.length == 4) = true ∧
    (match Migrating.migrate db with
      | .ok _ _ => false
      | .error _ left => left == db) = true := by
  decide +kernel

end TagGraph
