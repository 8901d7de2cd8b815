import TagGraph.Logging
import TagGraph.Report
import TagGraph.Schema.Graph

/-!
# The command line

One run of the program: it answers a ping, seeds the catalogue into a database file, answers a saved
query, or answers a query given as an argument. Results are JSON on the standard output; what goes
wrong is told on the standard error, with exit code 1.

A run sees a disk and leaves a disk. The database file is made and migrated by every command that
opens it, even if the command then fails.
-/

namespace TagGraph.CommandLine

/-! ## Arguments -/

/-- The answer to a ping. -/
def pong : String := "pong"

/-- The version of the library. -/
def version : String := "0.1.0"

/-- How the program is called. -/
def usage : String :=
  "usage: nodegraph_cli ping | <db-path> bootstrap | <db-path> query <query-system-id> " ++
    "[--refresh] | <db-path> eval '<definition-json>'"

/-- What a run is asked to do. -/
inductive Invocation where
  | ping
  | bootstrap (path : String)
  | query (path identifier : String) (refresh : Bool)
  | eval (path definition : String)
deriving DecidableEq

/-- What a list of arguments asks for. -/
def Invocation.ofArguments? : List String → Option Invocation
  | ["ping"] => some .ping
  | [path, "bootstrap"] => some (.bootstrap path)
  | [path, "query", identifier] => some (.query path identifier false)
  | [path, "query", identifier, "--refresh"] => some (.query path identifier true)
  | [path, "eval", definition] => some (.eval path definition)
  | _ => none

/-- The variable that names the directory to log to. -/
def logDirVariable : String := "NODEGRAPH_LOG_DIR"

/-- The variable that names the level to log at. -/
def logLevelVariable : String := "NODEGRAPH_LOG_LEVEL"

/-- What a run is told about logging: nothing is logged without a directory. -/
structure Environment where
  logDir : Option String
  logLevel : Option String

/-! ## Commands -/

/-- A command on a database: it gives a result or the text of an error, and leaves a database. It is
told why nothing can be written if that is so. -/
abbrev DatabaseCommand : Type :=
  Option StorageFault → Database → Except String Json × Database

/-- What a command gives if it ends with an error of the store. -/
def told (result : Except StoreError Json) : Except String Json :=
  result.mapError StoreError.message

/-- Opens and migrates the database that a text names, and carries out a command on it. -/
def onDatabase (d : Disk) (text : String) (command : DatabaseCommand) :
    Except String String × Disk :=
  match d.openDatabase text with
  | .error e => (.error e.message, d)
  | .ok (opened, d) =>
    match opened.migrated with
    | .error e => (.error e.message, d)
    | .ok db =>
      -- The migrated file stays, whatever becomes of the command.
      let (result, db) := command opened.writeFault db
      (result.map Json.renderIndented, d.save opened db)

/-- A command that needs the tables of the graph. -/
def ready (command : DatabaseCommand) : DatabaseCommand := fun fault db =>
  match db.checkReady with
  | .ok () => command fault db
  | .error e => (.error e.message, db)

/-- Seeds the catalogue. -/
def bootstrap (now : Int) (fresh : Nat → NodeId) : DatabaseCommand := ready fun fault db =>
  match fault with
  | some fault => (.error fault.message, db)
  | none =>
    let (result, db) := db.bootstrap now fresh
    (told (result.map SeedSummary.toJson), db)

/-- Answers a query. -/
def evaluate (now : Int) (definition : QueryDefinition) : DatabaseCommand := ready fun _ db =>
  (told ((db.store.evaluate now definition).map QueryPage.toJson), db)

/-- Answers a saved query. An answer that cannot be kept is lost once it is clear what would be
written. -/
def answerSaved (now : Int) (node : NodeId) (refresh : Bool) (fault : Option StorageFault) :
    Edit QueryPage := do
  let page ← Edit.runSaved now node refresh
  match refresh, fault with
  | true, some fault => throw (.storage fault)
  | _, _ => return page

/-- Answers the saved query that an identifier or handle names. -/
def runSaved (now : Int) (identifier : String) (refresh : Bool) : DatabaseCommand :=
  ready fun fault db =>
    match db.store.findLive? identifier with
    | .error e => (.error e.message, db)
    | .ok none => (.error ("query node not found: " ++ identifier), db)
    | .ok (some node) =>
      let (result, db) := db.run (answerSaved now node.id refresh fault)
      (told (result.map QueryPage.toJson), db)

/-- Carries out an invocation. A definition is read before the database is opened. -/
def perform (d : Disk) (now : Int) (fresh : Nat → NodeId) :
    Invocation → Except String String × Disk
  | .ping => (.ok (Json.object [("ping", .string pong), ("version", .string version)]).render, d)
  | .bootstrap path => onDatabase d path (bootstrap now fresh)
  | .query path identifier refresh => onDatabase d path (runSaved now identifier refresh)
  | .eval path text =>
    match QueryDefinition.ofText text with
    | .error fault => (.error (StoreError.invalidDefinition fault).message, d)
    | .ok definition => onDatabase d path (evaluate now definition)

/-! ## Runs -/

/-- Starts to log if the environment asks for it. -/
def startLogging (d : Disk) (env : Environment) : Except String Unit × Disk :=
  match env.logDir with
  | none => (.ok (), d)
  | some dir =>
    match LogState.request none d (env.logLevel.getD LogLevel.standard.name) dir with
    | (.ok _, d) => (.ok (), d)
    | (.error fault, d) => (.error fault.message, d)

/-- What a run leaves: its exit code and the texts on its two outputs. -/
structure Outcome where
  code : UInt32
  stdout : String
  stderr : String
deriving DecidableEq

/-- The outcome of a result: what it shows goes to one of the outputs, as a line. -/
def Outcome.ofResult : Except String String → Outcome
  | .ok output => ⟨0, output ++ "\n", ""⟩
  | .error message => ⟨1, "", message ++ "\n"⟩

/-- One run of the program. Logging starts before the arguments are looked at. -/
def run (d : Disk) (env : Environment) (arguments : List String) (now : Int)
    (fresh : Nat → NodeId) : Outcome × Disk :=
  match startLogging d env with
  | (.error message, d) => (.ofResult (.error message), d)
  | (.ok (), d) =>
    match Invocation.ofArguments? arguments with
    | none => (.ofResult (.error usage), d)
    | some invocation =>
      let (result, d) := perform d now fresh invocation
      (.ofResult result, d)

end TagGraph.CommandLine
