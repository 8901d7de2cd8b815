import TagGraph.Json.Document
import TagGraph.Property.Value
import TagGraph.Query.Fault

/-!
# Query definitions

A query asks for the live nodes that satisfy a list of filters, all of them, in some order and up to
some number. Filters test supertags, fields, content, relations and times, and combine other
filters.

A definition is valid if its limit is positive, every part that names something is not blank, and
every filter has what its operator needs.
-/

namespace TagGraph

/-! ## Operators -/

/-- How a filter compares the values of a field. -/
inductive PropertyOp where
  | eq
  | neq
  | gt
  | gte
  | lt
  | lte
  | contains
  | startsWith
  | endsWith
  | isEmpty
  | isNotEmpty
deriving DecidableEq

namespace PropertyOp

/-- All operators. -/
def all : List PropertyOp :=
  [.eq, .neq, .gt, .gte, .lt, .lte, .contains, .startsWith, .endsWith, .isEmpty, .isNotEmpty]

/-- The written name. -/
def name : PropertyOp → String
  | .eq => "eq"
  | .neq => "neq"
  | .gt => "gt"
  | .gte => "gte"
  | .lt => "lt"
  | .lte => "lte"
  | .contains => "contains"
  | .startsWith => "startsWith"
  | .endsWith => "endsWith"
  | .isEmpty => "isEmpty"
  | .isNotEmpty => "isNotEmpty"

/-- Whether the operator needs no value to compare with. -/
def isUnary : PropertyOp → Bool
  | .isEmpty | .isNotEmpty => true
  | _ => false

end PropertyOp

/-- How a filter relates nodes. -/
inductive RelationKind where
  | childOf
  | ownedBy
  | linksTo
  | linkedFrom
deriving DecidableEq

namespace RelationKind

/-- All relations. -/
def all : List RelationKind := [.childOf, .ownedBy, .linksTo, .linkedFrom]

/-- The written name. -/
def name : RelationKind → String
  | .childOf => "childOf"
  | .ownedBy => "ownedBy"
  | .linksTo => "linksTo"
  | .linkedFrom => "linkedFrom"

end RelationKind

/-- The times of a node that a filter can test. -/
inductive TimeField where
  | createdAt
  | updatedAt
deriving DecidableEq

namespace TimeField

/-- Both times. -/
def all : List TimeField := [.createdAt, .updatedAt]

/-- The written name. -/
def name : TimeField → String
  | .createdAt => "createdAt"
  | .updatedAt => "updatedAt"

end TimeField

/-- How a filter tests a time: within some days before now, or before or after a date. -/
inductive TimeOp where
  | within
  | before
  | after
deriving DecidableEq

namespace TimeOp

/-- All tests of times. -/
def all : List TimeOp := [.within, .before, .after]

/-- The written name. -/
def name : TimeOp → String
  | .within => "within"
  | .before => "before"
  | .after => "after"

end TimeOp

/-- The direction of an order. -/
inductive SortDirection where
  | asc
  | desc
deriving DecidableEq

namespace SortDirection

/-- Both directions. -/
def all : List SortDirection := [.asc, .desc]

/-- The written name. -/
def name : SortDirection → String
  | .asc => "asc"
  | .desc => "desc"

end SortDirection

/-! ## Definitions -/

/-- A test of one node. Fields, supertags and targets are named by handle or identifier. -/
inductive Filter where
  | supertag (supertag : String) (includeInherited : Bool)
  | property (field : String) (op : PropertyOp) (value : Document)
  | content (query : String) (caseSensitive : Bool)
  | relation (kind : RelationKind) (target field : Option String)
  | temporal (field : TimeField) (op : TimeOp) (days : Option UInt32) (date : Option String)
  | hasField (field : String) (negate : Bool)
  | and (filters : List Filter)
  | or (filters : List Filter)
  | not (filters : List Filter)

/-- An order of nodes: by `content`, `createdAt`, `updatedAt` or the first value of a field. -/
structure QuerySort where
  field : String
  direction : SortDirection
deriving DecidableEq

/-- A query: the filters that a node has to satisfy, the order, and the greatest number of nodes. -/
structure QueryDefinition where
  filters : List Filter
  sort : Option QuerySort
  limit : UInt64

/-- The limit of a definition that does not set one. -/
def QueryDefinition.defaultLimit : UInt64 := 500

/-! ## Validity -/

/-- The fault of a blank part. -/
def HandleSlot.fault? (slot : HandleSlot) (text : String) : Option DefinitionFault :=
  if Text.isBlankText text then some (.blank slot) else none

/-- The fault of a blank part that may be left out. -/
def HandleSlot.optionalFault? (slot : HandleSlot) (text : Option String) :
    Option DefinitionFault :=
  text.bind slot.fault?

/-- The fault of a test of times. -/
def TimeOp.fault? (op : TimeOp) (days : Option UInt32) (date : Option String) :
    Option DefinitionFault :=
  match op with
  | .within => if days.isNone then some .missingDays else none
  | .before | .after =>
    match date with
    | none => some .missingDate
    | some date => if (Calendar.ofString? date).isSome then none else some (.badDate date)

namespace Filter

/-- Whether a document is `null`, which stands for a missing value. -/
def isMissing (value : Document) : Bool :=
  match value.json with
  | .null => true
  | _ => false

mutual

/-- The first fault of a filter. -/
def fault? : Filter → Option DefinitionFault
  | .supertag tag _ => HandleSlot.supertag.fault? tag
  | .property field op value =>
    (HandleSlot.field.fault? field).or
      (if !op.isUnary && isMissing value then some (.missingValue field) else none)
  | .content _ _ => none
  | .relation _ target field =>
    (HandleSlot.target.optionalFault? target).or (HandleSlot.field.optionalFault? field)
  | .temporal _ op days date => op.fault? days date
  | .hasField field _ => HandleSlot.field.fault? field
  | .and filters | .or filters | .not filters => firstFault? filters

/-- The first fault of filters. -/
def firstFault? : List Filter → Option DefinitionFault
  | [] => none
  | f :: rest => (fault? f).or (firstFault? rest)

end

end Filter

namespace QueryDefinition

/-- The first fault of a definition: of its limit, its order, its filters. -/
def fault? (d : QueryDefinition) : Option DefinitionFault :=
  if d.limit = 0 then some .zeroLimit
  else
    (d.sort.bind fun sort => HandleSlot.sortField.fault? sort.field).or
      (Filter.firstFault? d.filters)

/-- Whether a definition can be evaluated. -/
def isValid (d : QueryDefinition) : Bool :=
  d.fault?.isNone

end QueryDefinition

end TagGraph
