/-!
# Conflicts

The constraints of a table that a write can break, and their wording.
-/

namespace TagGraph

/-- A constraint that a write would break: a row with the same values in some columns, a missing
value, a condition that does not hold, or a reference to no row. Columns are named with their
tables. -/
inductive Conflict where
  | duplicate (columns : List String)
  | missing (column : String)
  | condition (label : String)
  | danglingReference
deriving DecidableEq

namespace Conflict

/-- The wording of a broken constraint. -/
def message : Conflict → String
  | .duplicate columns => "UNIQUE constraint failed: " ++ ", ".intercalate columns
  | .missing column => "NOT NULL constraint failed: " ++ column
  | .condition label => "CHECK constraint failed: " ++ label
  | .danglingReference => "FOREIGN KEY constraint failed"

/-- Two nodes with one identifier. -/
def duplicateId : Conflict := .duplicate ["nodes.id"]

/-- Two live nodes with one handle. -/
def duplicateSystemId : Conflict := .duplicate ["nodes.system_id"]

end Conflict

end TagGraph
