import TagGraph.Node
import TagGraph.Property.Codec
import TagGraph.Query.Fault
import TagGraph.Table.Conflict

/-!
# Errors of the store

The causes for which an operation on the graph is refused, and their wording.
-/

namespace TagGraph

/-- The columns that hold identifiers. -/
inductive IdColumn where
  | nodeId
  | ownerId
  | propertyNode
  | propertyField
deriving DecidableEq

/-- The name of a column with its table. -/
def IdColumn.name : IdColumn → String
  | .nodeId => "nodes.id"
  | .ownerId => "nodes.owner_id"
  | .propertyNode => "node_properties.node_id"
  | .propertyField => "node_properties.field_node_id"

/-- A stored row that cannot be read, or a row that should be there and is not. -/
inductive Corruption where
  | badId (text : String) (column : IdColumn)
  | vanished (systemId : String)
  | missingCatalogueNode (systemId : String)
deriving DecidableEq

/-- The wording of a corruption. -/
def Corruption.message : Corruption → String
  | .badId text column => "invalid uuid \x60" ++ text ++ "\x60 in " ++ column.name
  | .vanished systemId => "system node \x60" ++ systemId ++ "\x60 vanished"
  | .missingCatalogueNode systemId => "bootstrap node \x60" ++ systemId ++ "\x60 missing"

/-- A failure below the rules of the graph: of the file, of a statement, or of the numbers that a
row can hold. -/
inductive StorageFault where
  | orderExhausted
  | orderOverflow
  | rowsExhausted
  | notWhole
  | constraint
  | statement (detail : String)
  | transactionOpen
  | noTransaction
  | versionOutOfRange (version : Int)
  | notADatabase
  | cannotOpen (path : String)
  | badAddress (detail : String)
  | readOnly
  | noJournal
  | unreadable
deriving DecidableEq

/-- The wording of a storage failure. -/
def StorageFault.message : StorageFault → String
  | .orderExhausted => "the order of a new row is out of range"
  | .orderOverflow => "the order after the last one is out of range"
  | .rowsExhausted => "database or disk is full"
  | .notWhole => "a column of whole numbers holds something else"
  | .constraint => "constraint failed"
  | .statement detail => detail
  | .transactionOpen => "cannot start a transaction within a transaction"
  | .noTransaction => "cannot rollback - no transaction is active"
  | .versionOutOfRange version => "Integer " ++ toString version ++ " out of range at index 0"
  | .notADatabase => "file is not a database"
  | .cannotOpen path => "unable to open database file: " ++ path
  | .badAddress detail => detail
  | .readOnly => "attempt to write a readonly database"
  | .noJournal => "unable to open database file"
  | .unreadable => "disk I/O error"

/-- Why an operation on the graph is refused. -/
inductive StoreError where
  | invalidNode (fault : NodeFault)
  | nodeNotFound (id : NodeId)
  | fieldNotFound (field : String)
  | supertagNotFound (supertag : String)
  | conflict (cause : Conflict)
  | typeMismatch (field : String) (expected : FieldType)
  | notEncodable (value : PropertyValue)
  | cyclicInheritance (supertag parent : NodeId)
  | wrongSchemaVersion (expected actual : Int)
  | missingTable (table : String)
  | missingColumn (table column : String)
  | corrupt (cause : Corruption)
  | newerSchema (version latest : Int)
  | invalidDefinition (fault : DefinitionFault)
  | storage (fault : StorageFault)

/-- A statement that cannot be carried out. -/
def StoreError.refused (detail : String) : StoreError :=
  .storage (.statement detail)

/-- The wording of an error. -/
def StoreError.message : StoreError → String
  | .invalidNode fault => fault.message
  | .nodeNotFound id => "node not found: " ++ id.toString
  | .fieldNotFound field => "field not found: " ++ field
  | .supertagNotFound supertag => "supertag not found: " ++ supertag
  | .conflict cause => "node write conflict: " ++ cause.message
  | .typeMismatch field expected =>
    "value for \x60" ++ field ++ "\x60 must be of field type \x60" ++ expected.name ++ "\x60"
  | .notEncodable value => "invalid property value: " ++ value.encodeFault
  | .cyclicInheritance supertag parent =>
    "supertag " ++ supertag.toString ++ " cannot extend " ++ parent.toString ++
      ": inheritance cycle"
  | .wrongSchemaVersion expected actual =>
    "node repository requires schema version " ++ toString expected ++ ", got " ++ toString actual
  | .missingTable table => "node repository requires table \x60" ++ table ++ "\x60"
  | .missingColumn table column =>
    "node repository requires column \x60" ++ column ++ "\x60 in table \x60" ++ table ++ "\x60"
  | .corrupt cause => "invalid persisted node data: " ++ cause.message
  | .newerSchema version latest =>
    "node graph schema version " ++ toString version ++ " is newer than supported " ++
      toString latest
  | .invalidDefinition fault => "invalid query definition: " ++ fault.message
  | .storage fault => fault.message

end TagGraph
