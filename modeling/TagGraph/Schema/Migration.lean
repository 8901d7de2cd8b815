import TagGraph.Schema.Basic

/-!
# Migrations

The tables of the graph are created by migrations, each with a version of its own. Migrating carries
out those that are newer than the version of a database, all or none. A migration creates what is
missing and leaves alone what is there under the same name. Versions go forward only.
-/

namespace TagGraph

/-- A statement of a migration. An index needs columns of its table. -/
inductive SchemaStatement where
  | createTable (table : Table)
  | createIndex (index : Index) (columns : List String)
deriving DecidableEq

/-- The statements that lead to a version. -/
structure Migration where
  version : Int
  statements : List SchemaStatement

namespace Schema

/-! ## Tables of the graph -/

/-- A text that every row needs, of no characters unless it is given. -/
def textColumn (name : String) : Column :=
  { name, type := "TEXT", required := some .refuse, standard := some (.text "") }

/-- A number that every row needs. -/
def numberColumn (name : String) : Column :=
  { name, type := "INTEGER", required := some .refuse }

/-- The table of nodes. -/
def nodes : Table where
  name := "nodes"
  columns := [
    { name := "id", type := "TEXT", required := some .refuse },
    textColumn "content",
    textColumn "content_plain",
    { name := "system_id", type := "TEXT" },
    { name := "owner_id", type := "TEXT" },
    numberColumn "created_at",
    numberColumn "updated_at",
    { name := "deleted_at", type := "INTEGER" }]
  keys := [{ columns := [("id", .binary)], isPrimary := true }]

/-- The table of rows of fields. -/
def nodeProperties : Table where
  name := "node_properties"
  columns := [
    { name := "id", type := "INTEGER" },
    { name := "node_id", type := "TEXT", required := some .refuse },
    { name := "field_node_id", type := "TEXT", required := some .refuse },
    { name := "value", type := "TEXT", required := some .refuse },
    { numberColumn "sort_order" with standard := some (.integer 0) },
    numberColumn "created_at",
    numberColumn "updated_at"]
  rowNumber := some "id"
  references := [
    { columns := ["node_id"], table := "nodes", targets := ["id"] },
    { columns := ["field_node_id"], table := "nodes", targets := ["id"] }]

/-- The index that keeps apart the handles of live nodes. -/
def liveHandles : Index where
  name := "idx_nodes_system_id_live"
  table := "nodes"
  isUnique := true

/-- An index that only makes look-ups fast. -/
def lookup (name table : String) : Index := { name, table }

/-- The first migration: both tables and their indexes. -/
def first : Migration where
  version := 1
  statements := [
    .createTable nodes,
    .createIndex liveHandles ["system_id", "deleted_at"],
    .createTable nodeProperties,
    .createIndex (lookup "idx_node_properties_node_id" "node_properties") ["node_id"],
    .createIndex (lookup "idx_node_properties_field_node_id" "node_properties") ["field_node_id"],
    .createIndex (lookup "idx_nodes_owner_id" "nodes") ["owner_id"],
    .createIndex (lookup "idx_node_properties_node_field_order" "node_properties")
      ["node_id", "field_node_id", "sort_order"]]

/-- All migrations, by version. -/
def migrations : List Migration := [first]

/-- The version that the last migration leads to. -/
def latestVersion : Int :=
  (migrations.getLast?.map (·.version)).getD 0

end Schema

namespace Database

/-! ## Migrating -/

/-- Creates a table unless there is one with its name. -/
def ensureTable (db : Database) (t : Table) : Except StoreError Database :=
  if (db.table? t.name).isSome then .ok db else db.addTable t

/-- Creates an index unless there is one with its name. Its table must have its columns, no table
may have its name, and for a unique one the rows must differ. -/
def ensureIndex (db : Database) (i : Index) (columns : List String) : Except StoreError Database :=
  match db.table? i.table with
  | none => .error (.refused ("no such table: " ++ i.table))
  | some t =>
    -- Tables and indexes share one name space.
    if (db.table? i.name).isSome then
      .error (.refused ("there is already a table named " ++ i.name))
    else if (db.index? i.name).isSome then .ok db
    else if columns.all fun c => (t.column? c).isSome then
      if i.isUnique ∧ ¬db.store.liveHandles.Nodup then .error (.storage .constraint)
      else .ok { db with indexes := db.indexes ++ [{ i with table := t.name }] }
    else .error (.refused ("no such column in " ++ t.name))

/-- Carries out a statement of a migration. -/
def carryOut (db : Database) : SchemaStatement → Except StoreError Database
  | .createTable t => db.ensureTable t
  | .createIndex i columns => db.ensureIndex i columns

/-- Carries out a migration. -/
def apply (db : Database) (m : Migration) : Except StoreError Database := do
  let db ← m.statements.foldlM carryOut db
  return { db with version := m.version }

/-- The version of a database, which must not be negative. -/
def checkedVersion (db : Database) : Except StoreError Int :=
  if db.version < 0 then .error (.storage (.versionOutOfRange db.version)) else .ok db.version

/-- Brings a database to the latest version. -/
def migrate (db : Database) : Except StoreError Database := do
  let version ← db.checkedVersion
  if Schema.latestVersion < version then throw (.newerSchema version Schema.latestVersion)
  (Schema.migrations.filter fun m => version < m.version).foldlM apply db

/-! ## Readiness -/

/-- Refuses a table that is not there under exactly its name with columns of exactly their names. A
computed column does not count. -/
def checkTable (db : Database) (wanted : Table) : Except StoreError Unit :=
  match db.tables.find? (·.name == wanted.name) with
  | none => .error (.missingTable wanted.name)
  | some t =>
    match wanted.columns.find? fun c => !t.columns.any fun d => d.name == c.name && !d.computed with
    | some missing => .error (.missingColumn wanted.name missing.name)
    | none => .ok ()

/-- Refuses a database that is not at the latest version or lacks a table or column of the graph. -/
def checkReady (db : Database) : Except StoreError Unit := do
  let version ← db.checkedVersion
  if version ≠ Schema.latestVersion then
    throw (.wrongSchemaVersion Schema.latestVersion version)
  db.checkTable Schema.nodes
  db.checkTable Schema.nodeProperties

/-- Whether the tables of the graph are just as the migrations make them. -/
def isStandard (db : Database) : Bool :=
  db.table? Schema.nodes.name == some Schema.nodes &&
    db.table? Schema.nodeProperties.name == some Schema.nodeProperties &&
    db.indexes.any (·.isUnique)

end Database

end TagGraph
