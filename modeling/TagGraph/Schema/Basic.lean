import TagGraph.Store.Foreign
import TagGraph.Store.Read
import TagGraph.Table.Reader

/-!
# Databases

A database holds tables and indexes by name, a version number, and the rows of the graph. Tables,
columns and indexes are found by name without regard to the case of the letters `A` to `Z`, and
tables and indexes share one name space.
-/

namespace TagGraph

/-- An index and the table that it belongs to. The one that is unique keeps apart the handles of
live nodes. -/
structure Index where
  name : String
  table : String
  isUnique : Bool := false
deriving DecidableEq

/-- A database. -/
structure Database where
  version : Int
  tables : List Table
  indexes : List Index
  store : Store
deriving DecidableEq

namespace Database

/-- The database without tables. -/
def empty : Database := ⟨0, [], [], .empty⟩

instance : Inhabited Database := ⟨empty⟩

/-- The table with a name. -/
def table? (db : Database) (name : String) : Option Table :=
  db.tables.find? (sameName ·.name name)

/-- The index with a name. -/
def index? (db : Database) (name : String) : Option Index :=
  db.indexes.find? (sameName ·.name name)

/-- The names of all tables and indexes with their kinds, in order. -/
def objects (db : Database) : List String :=
  let indexes := db.indexes.map fun i => "index " ++ i.name
  let tables := db.tables.map fun t => "table " ++ t.name
  (indexes ++ tables).mergeSort fun a b => a ≤ b

/-- The tables as those that other tools have made. -/
def foreignTables (db : Database) : ForeignTables :=
  ⟨db.tables, db.indexes.any (·.isUnique)⟩

/-! ## Changing tables -/

/-- Adds a table. Its name must be free. -/
def addTable (db : Database) (t : Table) : Except StoreError Database :=
  if (db.table? t.name).isSome || (db.index? t.name).isSome then
    .error (.refused ("there is already another table or index with this name: " ++ t.name))
  else .ok { db with tables := db.tables ++ [t] }

/-- Creates the table that a name and definitions define. Nothing is done if it is asked for only if
it is missing, and it is not. -/
def createTable (db : Database) (name : String) (definitions : List String) :
    Except StoreError Database :=
  match Table.ofText? (name ++ " (" ++ ", ".intercalate definitions ++ ")") with
  | some (t, lenient) => if lenient && (db.table? t.name).isSome then .ok db else db.addTable t
  | none => .error (.refused ("ill-formed definition of the table: " ++ name))

/-- The table that a text names. -/
def named (db : Database) (text : String) : Except StoreError Table :=
  match (Table.nameOf? text).bind db.table? with
  | some t => .ok t
  | none => .error (.refused ("no such table: " ++ text))

/-- Drops a table with its indexes, unless rows of another table refer to its rows. -/
def dropTable (db : Database) (name : String) : Except StoreError Database := do
  let t ← db.named name
  let store ← db.foreignTables.withoutTable db.store t
  return { db with
    tables := db.tables.filter (!sameName ·.name t.name)
    indexes := db.indexes.filter (!sameName ·.table t.name)
    store }

/-- Renames a column. Indexes stay. -/
def renameColumn (db : Database) (table source target : String) : Except StoreError Database := do
  let t ← db.named table
  let some (source, target, newName) := Table.renaming? (source ++ " to " ++ target)
    | throw (.refused ("no names of columns: " ++ source ++ ", " ++ target))
  if (t.column? source).isNone then
    throw (.refused ("no such column: \"" ++ source ++ "\""))
  let renamed := t.renameColumn source target newName
  if Table.repeatsName renamed.columns then
    throw (.refused ("duplicate column name: " ++ newName))
  return { db with
    tables := db.tables.map fun u =>
      if sameName u.name t.name then renamed
      else u.retarget t.name source newName }

end Database

end TagGraph
