import TagGraph.Inheritance
import TagGraph.Store.Edit

/-!
# Fields of nodes

A field is itself a node, and may declare the type of its values in a row of `field:fieldType`.
Writing obeys the declaration: a field of type `nodes` takes further references, any other field
takes a new value in place of the old ones. Reading never fails for nodes and fields that do not
exist; there is just no value.

Fields are named by handle or identifier.
-/

namespace TagGraph

/-! ## Reading -/

namespace Store

/-- The declared type of the values of a field. The first row of the declaration counts. -/
def fieldType? (s : Store) (field : NodeId) : Reading (Option FieldType) := do
  match ← s.nodeBySystemId? Handle.fieldFieldType with
  | none => return none
  | some typeField =>
    let rows ← s.fieldPropertiesOf field typeField.id
    return rows.head?.bind fun row =>
      ((PropertyValue.decode? row.value).bind (·.asString?)).bind FieldType.ofString?

/-- The values that rows stand for. Rows that stand for none are passed over. -/
def decodeRows (rows : List Property) : List PropertyValue :=
  rows.filterMap fun row => PropertyValue.decode? row.value

/-- The values of a field of a live node. -/
def values (s : Store) (node : NodeId) (field : String) : Reading (List PropertyValue) := do
  if (← s.node? node).isNone then return []
  else
    match ← s.findLive? field with
    | none => return []
    | some fieldNode => return decodeRows (← s.fieldPropertiesOf node fieldNode.id)

/-- The first value of a field of a live node. -/
def value? (s : Store) (node : NodeId) (field : String) : Reading (Option PropertyValue) := do
  return (← s.values node field).head?

/-- The first value of a field of a live node, if it fits the type. -/
def typedValue? (s : Store) (node : NodeId) (field : String) (expected : FieldType) :
    Reading (Option PropertyValue) := do
  return (← s.value? node field).filter (·.conformsTo expected)

end Store

/-! ## Writing -/

namespace Edit

/-- The live node with the identifier. -/
def requireLive (node : NodeId) : Edit Node := do
  match ← ask (·.node? node) with
  | some found => return found
  | none => throw (.nodeNotFound node)

/-- The live node of a field. -/
def requireField (field : String) : Edit Node := do
  match ← ask (·.findLive? field) with
  | some found => return found
  | none => throw (.fieldNotFound field)

/-- The stored text of a value. -/
def encode (value : PropertyValue) : Edit String :=
  match value.encode? with
  | some raw => return raw
  | none => throw (.notEncodable value)

/-- Refuses values that do not fit the declared type of a field. -/
def checkTypes (field : String) (type : Option FieldType) (values : List PropertyValue) :
    Edit Unit :=
  match type with
  | some type =>
    if values.all (·.conformsTo type) then return else throw (.typeMismatch field type)
  | none => return

/-- Refuses each parent in turn that would make a supertag its own ancestor. -/
def checkParents (supertag : NodeId) : List NodeId → Edit Unit
  | [] => return
  | parent :: rest => do
    if ← ask (·.wouldCreateCycle supertag parent) then
      throw (.cyclicInheritance supertag parent)
    checkParents supertag rest

/-- Refuses values of `field:extends` that would make a supertag its own ancestor. Other fields hold
any references. -/
def checkExtends (node : NodeId) (field : Node) (values : List PropertyValue) : Edit Unit :=
  if field.systemId = some Handle.fieldExtends then
    checkParents node (values.flatMap (·.referenced))
  else return

/-- Adds a row for each reference, at consecutive places from `order` on or else behind the last
row. The place after the last reference must exist too: if it does not fit 64 bits, this is an
ordinary error here, where the program panics in debug builds and wraps around in release builds. -/
def appendReferences (now : Int) (node field : NodeId) : (order : Option Int) → List NodeId →
    Edit Unit
  | _, [] => return
  | order, reference :: rest => do
    let raw ← encode (.node reference)
    let _ ← insertProperty now node field raw order
    match order with
    | none => appendReferences now node field none rest
    | some place =>
      if place + 1 < 2 ^ 63 then appendReferences now node field (some (place + 1)) rest
      else throw (.storage .orderOverflow)

/-- Whether the rows are exactly the one that a write would leave. -/
def isSettled (rows : List Property) (raw : String) (order : Option Int) : Bool :=
  match rows with
  | [row] => row.value == raw && order.all (· == row.order)
  | _ => false

/-- Writes a value. A field of type `nodes` takes a further row for each reference; any other field
takes the value in place of all its rows, and a write that would change nothing leaves no trace. -/
def setProperty (now : Int) (node : NodeId) (field : String) (value : PropertyValue)
    (order : Option Int) : Edit Unit := do
  let _ ← requireLive node
  let fieldNode ← requireField field
  let type ← ask (·.fieldType? fieldNode.id)
  checkTypes field type [value]
  checkExtends node fieldNode [value]
  if type.any (·.isMultiValued) then
    appendReferences now node fieldNode.id order value.referenced
    touchNode now node
  else
    let raw ← encode value
    let rows ← ask (·.fieldPropertiesOf node fieldNode.id)
    -- A write that changes nothing must not count as a change of the node.
    unless isSettled rows raw order do
      replaceFieldProperties now node fieldNode.id [raw] (order.getD 0)
      touchNode now node

/-- Writes values in place of all rows of a field. -/
def setPropertyValues (now : Int) (node : NodeId) (field : String) (values : List PropertyValue) :
    Edit Unit := do
  let _ ← requireLive node
  let fieldNode ← requireField field
  let type ← ask (·.fieldType? fieldNode.id)
  checkTypes field type values
  checkExtends node fieldNode values
  let raws ← values.mapM encode
  replaceFieldProperties now node fieldNode.id raws 0
  touchNode now node

/-- Removes all rows of a field and tells how many there were. -/
def removeProperty (now : Int) (node : NodeId) (field : String) : Edit Nat := do
  let _ ← requireLive node
  let fieldNode ← requireField field
  let removed ← deleteFieldProperties node fieldNode.id
  if 0 < removed then touchNode now node
  return removed

end Edit

end TagGraph
