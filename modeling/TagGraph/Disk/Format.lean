import TagGraph.Disk.Basic
import TagGraph.Json.Printer
import TagGraph.Json.Reader

/-!
# Database files

A database is kept in a file as one JSON object: its version, the names of its tables and indexes,
and the rows of the graph, each row as a list of its cells. The tables are those of the migrations,
since the program makes no other ones, so that their names say all of them. A file whose text does
not have this form holds no database.
-/

namespace TagGraph

namespace Json

/-- The whole number of a value. -/
def asWhole? : Json → Option Int
  | .number (.whole i _) => some i
  | _ => none

/-- The text of a value that may be `null`. -/
def asCell? : Json → Option (Option String)
  | .null => some none
  | .string s => some (some s)
  | _ => none

/-- A cell with a text or `null`. -/
def ofCell : Option String → Json
  | some s => .string s
  | none => .null

/-- The items of an array under a key, each of them read. -/
def list? {α : Type} (j : Json) (key : String) (read : Json → Option α) : Option (List α) :=
  match j.get? key with
  | some (.array items) => items.mapM read
  | _ => none

end Json

/-! ## Tables -/

namespace Schema

/-- The table of the migrations with a name. -/
def table? (name : String) : Option Table :=
  [nodes, nodeProperties].find? (·.name == name)

/-- The indexes of the migrations. -/
def indexes : List Index :=
  (migrations.flatMap (·.statements)).filterMap fun
    | .createIndex i _ => some i
    | .createTable _ => none

/-- The index of the migrations with a name. -/
def index? (name : String) : Option Index :=
  indexes.find? (·.name == name)

end Schema

/-! ## Cells -/

/-- A cell as a value. -/
def Cell.toJson : Cell → Json
  | .integer i => .int i
  | .real (.finite x) => .number (.double x)
  | .text s => .string s
  | _ => .null

/-- The cell of a value. -/
def Cell.ofJson? : Json → Option Cell
  | .null => some .null
  | .string s => some (.text s)
  | .number (.whole i _) => some (.integer i)
  | .number (.double x) => some (.real (.finite x))
  | _ => none

/-! ## Rows -/

/-- A stored node as a list of cells. -/
def NodeRecord.toJson (r : NodeRecord) : Json :=
  .array [
    .string r.id.text, .string r.content, .string r.contentPlain, Json.ofCell r.systemId,
    Json.ofCell (r.ownerId.map StoredId.text), r.createdAt.toJson, r.updatedAt.toJson,
    r.deletedAt.toJson]

/-- The stored node of a list of cells. -/
def NodeRecord.ofJson? : Json → Option NodeRecord
  | .array [.string id, .string content, .string contentPlain, systemId, ownerId, createdAt,
      updatedAt, deletedAt] => do
    let systemId ← systemId.asCell?
    let ownerId ← ownerId.asCell?
    let createdAt ← Cell.ofJson? createdAt
    let updatedAt ← Cell.ofJson? updatedAt
    let deletedAt ← Cell.ofJson? deletedAt
    return {
      id := StoredId.ofText id
      ownerId := ownerId.map StoredId.ofText
      content, contentPlain, systemId, createdAt, updatedAt, deletedAt }
  | _ => none

/-- A stored row of a field as a list of cells. -/
def PropertyRecord.toJson (r : PropertyRecord) : Json :=
  .array [
    r.id.toJson, .string r.nodeId.text, .string r.fieldId.text, .string r.value, r.order.toJson,
    r.createdAt.toJson, r.updatedAt.toJson]

/-- The stored row of a field of a list of cells. -/
def PropertyRecord.ofJson? : Json → Option PropertyRecord
  | .array [id, .string nodeId, .string fieldId, .string value, order, createdAt, updatedAt] => do
    let id ← Cell.ofJson? id
    let order ← Cell.ofJson? order
    let createdAt ← Cell.ofJson? createdAt
    let updatedAt ← Cell.ofJson? updatedAt
    return {
      nodeId := StoredId.ofText nodeId
      fieldId := StoredId.ofText fieldId
      id, value, order, createdAt, updatedAt }
  | _ => none

/-! ## Databases -/

namespace Database

/-- A database as a value. -/
def toJson (db : Database) : Json :=
  .object [
    ("version", .int db.version),
    ("tables", .array (db.tables.map fun t => .string t.name)),
    ("indexes", .array (db.indexes.map fun i => .string i.name)),
    ("lastRowId", .int db.store.lastRowId),
    ("nodes", .array (db.store.nodes.map NodeRecord.toJson)),
    ("properties", .array (db.store.properties.map PropertyRecord.toJson))]

/-- The database of a value. -/
def ofJson? (j : Json) : Option Database := do
  let version ← (j.get? "version").bind (·.asWhole?)
  let tables ← j.list? "tables" fun name => name.asString?.bind Schema.table?
  let indexes ← j.list? "indexes" fun name => name.asString?.bind Schema.index?
  let lastRowId ← (j.get? "lastRowId").bind (·.asWhole?)
  let nodes ← j.list? "nodes" NodeRecord.ofJson?
  let properties ← j.list? "properties" PropertyRecord.ofJson?
  return { version, tables, indexes, store := { nodes, properties, lastRowId } }

end Database

/-! ## Files -/

namespace FileContent

/-- The text of a file. -/
def toText : FileContent → String
  | .text s => s
  | .database db => db.toJson.render

/-- What a file with a text holds: a database if the text has its form. -/
def ofText (s : String) : FileContent :=
  match (Json.ofString? s).bind Database.ofJson? with
  | some db => .database db
  | none => .text s

end FileContent

end TagGraph
