import TagGraph.Query.Evaluation
import TagGraph.Query.Wire
import TagGraph.Supertag

/-!
# Saved queries

A node saves a definition in `field:queryDefinition`. The identifiers of its last refreshed answer
are kept in `field:resultCache`, and the time of that answer in `field:evaluatedAt`. The kept answer
exists exactly if the time does; it is dropped when a definition is saved and changes only when a
refresh is asked for.
-/

namespace TagGraph

/-- The kept answer of a saved query. -/
structure CachedResult where
  nodeIds : List NodeId
  evaluatedAt : Int
deriving DecidableEq

/-- A number as a sixty-four-bit time: without its fraction, and at most the greatest such time. -/
def Number.toTime : Number → Int
  | .finite x => max (-2 ^ 63) (min (2 ^ 63 - 1) x.truncate)
  | .infinite true => -2 ^ 63
  | .infinite false => 2 ^ 63 - 1
  | .nan => 0

namespace Store

/-- A refused definition as an error of the store. -/
def definitionResult (d : Except DefinitionFault QueryDefinition) : Reading QueryDefinition :=
  match d with
  | .ok d => .ok d
  | .error fault => .error (.invalidDefinition fault)

/-- The definition that a node saves, as a document or as a text. -/
def loadQuery? (s : Store) (node : NodeId) : Reading (Option QueryDefinition) := do
  match ← s.value? node Handle.fieldQueryDefinition with
  | none => return none
  | some (.json d) => return some (← definitionResult (QueryDefinition.ofDocument d))
  | some (.string raw) => return some (← definitionResult (QueryDefinition.ofText raw))
  | some _ => throw (.invalidDefinition (.notJson node))

/-- The answer of a saved query at the time `now`. -/
def evaluateSaved (s : Store) (now : Int) (node : NodeId) : Reading QueryPage := do
  if (← s.node? node).isNone then throw (.nodeNotFound node)
  match ← s.loadQuery? node with
  | none => throw (.invalidDefinition (.noDefinition node))
  | some d => s.evaluate now d

/-- The kept answer of a saved query. -/
def cachedResult? (s : Store) (node : NodeId) : Reading (Option CachedResult) := do
  match (← s.value? node Handle.fieldEvaluatedAt).bind (·.asNumber?) with
  | none => return none
  | some time =>
    let values ← s.values node Handle.fieldResultCache
    return some ⟨values.flatMap (·.referenced), time.toTime⟩

end Store

namespace Edit

/-- Drops the kept answer of a saved query. -/
def dropCache (now : Int) (node : NodeId) : Edit Unit := do
  let _ ← removeProperty now node Handle.fieldResultCache
  let _ ← removeProperty now node Handle.fieldEvaluatedAt

/-- Keeps an answer of a saved query. -/
def keepCache (now : Int) (node : NodeId) (ids : List NodeId) : Edit Unit := do
  setPropertyValues now node Handle.fieldResultCache (ids.map .node)
  setProperty now node Handle.fieldEvaluatedAt (.ofInt now) none

/-- Saves a definition on a node and drops the kept answer. -/
def saveQuery (now : Int) (node : NodeId) (d : QueryDefinition) : Edit Unit := do
  if let some fault := d.fault? then throw (.invalidDefinition fault)
  setProperty now node Handle.fieldQueryDefinition (.json d.toDocument) none
  -- What was kept answered the definition before.
  dropCache now node

/-- Answers a saved query and, if asked for, keeps the answer. -/
def runSaved (now : Int) (node : NodeId) (refresh : Bool) : Edit QueryPage := do
  let page ← ask fun s => s.evaluateSaved now node
  if refresh then keepCache now node page.nodeIds
  return page

end Edit

end TagGraph
