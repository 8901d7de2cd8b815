import TagGraph.NodeId

/-!
# Faults of query definitions

Why a definition is refused: it cannot be read, a part that names something is blank, or a filter
lacks what its operator needs. A saved query can also lack a definition.
-/

namespace TagGraph

/-- The parts of a definition that name something and must not be blank. -/
inductive HandleSlot where
  | sortField
  | supertag
  | field
  | target
deriving DecidableEq

/-- The name of a part in the written form. -/
def HandleSlot.name : HandleSlot → String
  | .sortField => "sort.field"
  | .supertag => "supertagSystemId"
  | .field => "fieldSystemId"
  | .target => "targetNodeId"

/-- Why a definition is refused. -/
inductive DefinitionFault where
  | unreadable
  | zeroLimit
  | blank (slot : HandleSlot)
  | missingValue (field : String)
  | missingDays
  | missingDate
  | badDate (date : String)
  | noDefinition (node : NodeId)
  | notJson (node : NodeId)
deriving DecidableEq

/-- The wording of a fault. -/
def DefinitionFault.message : DefinitionFault → String
  | .unreadable => "(parse)"
  | .zeroLimit => "limit must be at least 1"
  | .blank slot => "\x60" ++ slot.name ++ "\x60 cannot be blank"
  | .missingValue field => "property filter on \x60" ++ field ++ "\x60 needs a value"
  | .missingDays => "temporal \x60within\x60 filter needs \x60days\x60"
  | .missingDate => "temporal \x60before\x60/\x60after\x60 filter needs \x60date\x60"
  | .badDate date => "temporal filter date \x60" ++ date ++ "\x60 is not ISO-8601"
  | .noDefinition node => "node " ++ node.toString ++ " has no query definition"
  | .notJson node => "node " ++ node.toString ++ " stores a non-JSON query definition"

end TagGraph
