import TagGraph.Schema.Migration
import TagGraph.Seed

/-!
# The graph in a database

A database that is ready for the graph can be edited through its rows, and the catalogue can be
seeded into it.
-/

namespace TagGraph.Database

/-- The rows of a database, with the definitions of the tables if other tools have made them. -/
def rows (db : Database) : Store :=
  if db.isStandard then db.store else { db.store with foreign := some db.foreignTables }

/-- A database with other rows. -/
def withRows (db : Database) (s : Store) : Database :=
  { db with store := { s with foreign := none } }

/-- Runs an edit on the rows of a database; what it has written stays, even if it fails. -/
def run {α : Type} (db : Database) (e : Edit α) : Except StoreError α × Database :=
  match e db.rows with
  | .ok a s => (.ok a, db.withRows s)
  | .error err s => (.error err, db.withRows s)

/-- Seeds the catalogue and looks at the references that have been put off until then. -/
def seeding (now : Int) (fresh : Nat → NodeId) : Edit SeedSummary :=
  Edit.atomically do
    let summary ← Edit.bootstrap now fresh
    Edit.ask fun s =>
      match s.foreign with
      | some tables => tables.checkDeferred s
      | none => .ok ()
    return summary

/-- Seeds the catalogue, in one step, into a database that is ready for the graph. -/
def bootstrap (db : Database) (now : Int) (fresh : Nat → NodeId) :
    Except StoreError SeedSummary × Database :=
  match db.checkReady with
  | .error e => (.error e, db)
  | .ok () => db.run (seeding now fresh)

/-- How many identifiers the seeding of a database draws. -/
def bootstrapDraws (db : Database) (now : Int) (fresh : Nat → NodeId) : Nat :=
  match db.checkReady with
  | .ok () => db.rows.seedDraws now fresh
  | .error _ => 0

end TagGraph.Database
