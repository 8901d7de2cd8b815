import Std.Time.DateTime.Timestamp
import TagGraph.CommandLine
import TagGraph.Disk.Format

/-!
# The program

Loads what stands under the paths that a run may look at, carries out the run, and writes back what
the run has changed.
-/

namespace TagGraph.Program

/-! ## Loading -/

/-- What a file with these bytes holds. Bytes that are no text hold no database. -/
def contentOfBytes (bytes : ByteArray) : FileContent :=
  match String.fromUTF8? bytes with
  | some s => .ofText s
  | none => .text "\uFFFD"

/-- What stands at a place. -/
def load (place : Place) : IO (Option DiskEntry) := do
  match ← (IO.FS.readBinFile (Path.render place)).toBaseIO with
  | .ok bytes => return some (.file (contentOfBytes bytes))
  | .error (.inappropriateType none _ _) => return some .directory
  | .error _ => return none

/-- The disk with what stands at a place and above it. -/
def loadPath (d : Disk) (place : Place) : IO Disk :=
  (List.range place.length).foldlM (fun d n => do
    let above := place.take (n + 1)
    match ← load above with
    | some entry => return d.put above entry
    | none => return d) d

/-- The path of the file of a database. -/
def databasePath? (text : String) : Option String :=
  match Address.ofString? text with
  | .ok a => if a.isTransient then none else some a.path
  | .error _ => none

/-- The paths that a run may look at. -/
def paths (env : CommandLine.Environment) (arguments : List String) : List String :=
  env.logDir.toList ++ (arguments.head?.bind databasePath?).toList

/-- The place that a path means. -/
def placeOf (d : Disk) (path : String) : Place :=
  let start := if Path.isAbsolute path then [] else d.workDir
  (Path.components path).foldl
    (fun place component => if component = ".." then place.dropLast else place ++ [component]) start

/-- The disk that a run starts with. -/
def loadDisk (env : CommandLine.Environment) (arguments : List String) : IO Disk := do
  let workDir := Path.components (toString (← IO.currentDir))
  let d ← loadPath ⟨[], workDir⟩ workDir
  (paths env arguments).foldlM (fun d path => loadPath d (placeOf d path)) d

/-! ## Writing back -/

/-- Writes what a run has changed. -/
def writeBack (before after : Disk) : IO Unit :=
  after.entries.reverse.forM fun (path, entry) => do
    unless before.entries.lookup path == some entry do
      match entry with
      | .directory => IO.FS.createDirAll path
      | .file content => IO.FS.writeFile path content.toText

/-! ## Clock and identifiers -/

/-- The milliseconds since the epoch, none before it. -/
def clock : IO Int := do
  let now ← Std.Time.Timestamp.now
  return max 0 now.toMillisecondsSinceUnixEpoch.val

/-- How many identifiers are drawn ahead of a run; seeding the catalogue takes thirty-five. -/
def drawnAhead : Nat := 64

/-- The number that bytes write, the most significant first. -/
def numberOfBytes (bytes : List UInt8) : Nat :=
  bytes.foldl (fun acc b => 256 * acc + b.toNat) 0

/-- The identifiers that random bytes give, sixteen bytes each. -/
def fresh (bytes : ByteArray) (n : Nat) : NodeId :=
  NodeId.ofRandom (numberOfBytes ((bytes.toList.drop (16 * n)).take 16))

/-! ## Running -/

/-- Runs the program and gives its exit code. -/
def run (arguments : List String) : IO UInt32 := do
  let env : CommandLine.Environment := {
    logDir := ← IO.getEnv CommandLine.logDirVariable
    logLevel := ← IO.getEnv CommandLine.logLevelVariable }
  let before ← loadDisk env arguments
  let bytes ← IO.getRandomBytes (.ofNat (16 * drawnAhead))
  let (outcome, after) := CommandLine.run before env arguments (← clock) (fresh bytes)
  writeBack before after
  IO.print outcome.stdout
  IO.eprint outcome.stderr
  return outcome.code

end TagGraph.Program

/-- The entry point. -/
def main (arguments : List String) : IO UInt32 :=
  TagGraph.Program.run arguments
