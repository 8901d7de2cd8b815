import TagGraph.Seed

/-!
# Sessions

A store that one user works with, and the point to which an open transaction would return. There is
at most one open transaction, and the catalogue is seeded in a transaction of its own. A lack of
room for a row takes the open transaction back.
-/

namespace TagGraph

/-- A store and, while a transaction is open, what the store was at its beginning. -/
structure Session where
  store : Store
  saved : Option Store

namespace Session

/-- A session on a store, without open transaction. -/
def ofStore (store : Store) : Session := ⟨store, none⟩

/-- Begins a transaction. -/
def begin (s : Session) : Except StoreError Session :=
  match s.saved with
  | some _ => .error (.storage .transactionOpen)
  | none => .ok { s with saved := some s.store }

/-- Returns to the beginning of the open transaction. -/
def rollback (s : Session) : Except StoreError Session :=
  match s.saved with
  | some store => .ok ⟨store, none⟩
  | none => .error (.storage .noTransaction)

/-- Whether the catalogue can be seeded: no transaction is open. -/
def canBootstrap (s : Session) : Bool :=
  s.saved.isNone

/-- Seeds the catalogue in one step. -/
def bootstrap (s : Session) (now : Int) (fresh : Nat → NodeId) :
    Except StoreError (SeedSummary × Session) :=
  if s.canBootstrap then
    match Edit.bootstrap now fresh s.store with
    | .ok summary store => .ok (summary, { s with store })
    | .error e _ => .error e
  else .error (.storage .transactionOpen)

/-- Whether an error takes the open transaction back: there is no room for a row. -/
def takesBack : StoreError → Bool
  | .storage .rowsExhausted => true
  | _ => false

/-- The session behind an edit that has failed and left a store. -/
def afterFailure (s : Session) (e : StoreError) (store : Store) : Session :=
  match s.saved with
  | some saved => if takesBack e then ⟨saved, none⟩ else { s with store }
  | none => { s with store }

/-- Runs an edit on the store; what it has written stays, even if it fails. -/
def run {α : Type} (s : Session) (edit : Edit α) : Except StoreError α × Session :=
  match edit s.store with
  | .ok a store => (.ok a, { s with store })
  | .error e store => (.error e, s.afterFailure e store)

/-- Seeds the catalogue without a transaction of its own, and tells what the seeding has found
out. -/
def seed (s : Session) (now : Int) (fresh : Nat → NodeId) :
    Except StoreError SeedSummary × SeedContext × Session :=
  match s.store.seed now fresh with
  | .ok summary state => (.ok summary, state.context, { s with store := state.store })
  | .error e state => (.error e, state.context, s.afterFailure e state.store)

end Session

end TagGraph
