import TagGraph.Handle
import TagGraph.Store.Read

/-!
# Inheritance between supertags

A supertag may name the supertag that it extends, in a row of `field:extends`. Upwards the first row
that names a node counts; downwards every row does. A deleted supertag breaks the chain.

Both directions follow at most `maxDepth` steps and visit no supertag twice, so a chain that runs
into itself just ends there.
-/

namespace TagGraph.Store

/-- How many steps are followed in either direction. -/
def maxDepth : Nat := 64

/-! ## Upwards -/

/-- The node that the first row naming one refers to. -/
def firstReference? (rows : List Property) : Option NodeId :=
  rows.findSome? fun row => (PropertyValue.decode? row.value).bind (·.asNodeId?)

/-- The supertag that a supertag extends, if it is live. -/
def parent? (s : Store) (supertag : NodeId) : Reading (Option NodeId) := do
  match ← s.nodeBySystemId? Handle.fieldExtends with
  | none => return none
  | some extendsField =>
    match firstReference? (← s.fieldPropertiesOf supertag extendsField.id) with
    | none => return none
    | some parent =>
      if (← s.node? parent).isSome then return some parent else return none

/-- At most `steps` supertags above `current`, up to the first one in `visited`. -/
def ancestorsFrom (s : Store) : (steps : Nat) → (visited : List NodeId) → (current : NodeId) →
    Reading (List NodeId)
  | 0, _, _ => return []
  | steps + 1, visited, current => do
    match ← s.parent? current with
    | none => return []
    | some parent =>
      -- A chain that runs into itself ends here.
      if visited.contains parent then return []
      else
        let rest ← ancestorsFrom s steps (parent :: visited) parent
        return parent :: rest

/-- The chain of supertags above a supertag, nearest first. -/
def ancestors (s : Store) (supertag : NodeId) : Reading (List NodeId) :=
  ancestorsFrom s maxDepth [supertag] supertag

/-- Whether a supertag would become its own ancestor by extending `parent`. -/
def wouldCreateCycle (s : Store) (supertag parent : NodeId) : Reading Bool := do
  if supertag = parent then return true
  else return (← s.ancestors parent).contains supertag

/-! ## Downwards -/

/-- A step down: a supertag, and one that has a row saying that it extends the first. -/
structure Extension where
  parent : NodeId
  child : NodeId
deriving DecidableEq

/-- All steps down, in the order of the rows. -/
def extensions (s : Store) : Reading (List Extension) := do
  match ← s.nodeBySystemId? Handle.fieldExtends with
  | none => return []
  | some extendsField =>
    let rows ← s.propertiesByField extendsField.id
    return rows.filterMap fun row =>
      ((PropertyValue.decode? row.value).bind (·.asNodeId?)).map fun parent => ⟨parent, row.nodeId⟩

/-- The supertags one step below a supertag. -/
def childrenIn (steps : List Extension) (supertag : NodeId) : List NodeId :=
  (steps.filter (·.parent == supertag)).map (·.child)

/-- The members of `candidates` that are not in `seen`, each once, in the order of their first
occurrence. -/
def unseen (seen candidates : List NodeId) : List NodeId :=
  candidates.foldl
    (fun fresh c => if seen.contains c || fresh.contains c then fresh else fresh ++ [c]) []

/-- The supertags that `rounds` further steps down from the newest ones reach, behind those `seen`
so far. -/
def descendantsIn (steps : List Extension) : (rounds : Nat) → (seen newest : List NodeId) →
    List NodeId
  | 0, seen, _ => seen
  | rounds + 1, seen, newest =>
    let fresh := unseen seen (newest.flatMap (childrenIn steps))
    descendantsIn steps rounds (seen ++ fresh) fresh

/-- A supertag and all supertags below it, the nearer ones first. -/
def descendants (s : Store) (supertag : NodeId) : Reading (List NodeId) := do
  return descendantsIn (← s.extensions) maxDepth [supertag] [supertag]

end TagGraph.Store
