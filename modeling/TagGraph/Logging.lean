import TagGraph.Disk.Basic

/-!
# Logging

A run logs to one directory at one level, both chosen by the first request that is in order. Asking
again for the same changes nothing; asking for anything else is refused.

A message of a panic is logged on one line and at limited length.
-/

namespace TagGraph

/-! ## Levels -/

/-- How much is logged. -/
inductive LogLevel where
  | trace
  | debug
  | info
  | warn
  | error
deriving DecidableEq

namespace LogLevel

/-- All levels. -/
def all : List LogLevel := [.trace, .debug, .info, .warn, .error]

/-- The name of a level. -/
def name : LogLevel → String
  | .trace => "trace"
  | .debug => "debug"
  | .info => "info"
  | .warn => "warn"
  | .error => "error"

/-- The level unless one is chosen. -/
def standard : LogLevel := .debug

/-- A text as the name of a level: without white space around it, the letters `A` to `Z` small. -/
def normalName (s : String) : String :=
  Text.lowerAscii (Text.trim s)

/-- The level with a normal name. `warning` is another name of `warn`. -/
def ofNormalName? (name : String) : Option LogLevel :=
  if name = "warning" then some .warn else all.find? (·.name == name)

end LogLevel

/-! ## Requests -/

/-- The level and directory that a run logs with. -/
structure LogState where
  level : LogLevel
  dir : String
deriving DecidableEq

/-- Why a request to log is refused. -/
inductive LogFault where
  | unknownLevel (name : String)
  | noDir
  | relativeDir (dir : String)
  | cannotCreate (dir : String) (cause : Disk.DirectoryFault)
  | cannotStart (cause : String)
  | otherDir (active wanted : String)
  | otherLevel (active wanted : LogLevel)
deriving DecidableEq

/-- The wording of a refusal. -/
def LogFault.message : LogFault → String
  | .unknownLevel name =>
    "unsupported log level \x60" ++ name ++ "\x60; expected trace|debug|info|warn|error"
  | .noDir => "log_dir cannot be empty"
  | .relativeDir dir => "log_dir must be an absolute path, got \x60" ++ dir ++ "\x60"
  | .cannotCreate dir cause =>
    "failed to create log directory \x60" ++ dir ++ "\x60: " ++ cause.message
  | .cannotStart cause => "failed to start logger: " ++ cause
  | .otherDir active wanted =>
    "logging already initialized at \x60" ++ active ++ "\x60; refusing to switch to \x60" ++
      wanted ++ "\x60"
  | .otherLevel active wanted =>
    "logging already initialized with level \x60" ++ active.name ++
      "\x60; refusing to switch to \x60" ++ wanted.name ++ "\x60"

namespace LogState

/-- The level and directory that a request asks for. The level is looked at first. -/
def requested (level dir : String) : Except LogFault LogState :=
  let name := LogLevel.normalName level
  match LogLevel.ofNormalName? name with
  | none => .error (.unknownLevel name)
  | some level =>
    let dir := Text.trim dir
    if dir.isEmpty then .error .noDir
    else if Path.isAbsolute dir then .ok ⟨level, dir⟩
    else .error (.relativeDir dir)

/-- Refuses a level or directory other than the active one. Directories are compared by the
components of their paths. -/
def check (active wanted : LogState) : Except LogFault Unit :=
  if Path.components active.dir ≠ Path.components wanted.dir then
    .error (.otherDir active.dir wanted.dir)
  else if active.level ≠ wanted.level then .error (.otherLevel active.level wanted.level)
  else .ok ()

/-- Answers a request to log: the first one in order makes its directory and becomes active. -/
def request (active : Option LogState) (d : Disk) (level dir : String) :
    Except LogFault LogState × Disk :=
  match requested level dir with
  | .error fault => (.error fault, d)
  | .ok wanted =>
    match active with
    | some active => ((active.check wanted).map fun () => active, d)
    | none =>
      match d.makeDirectory wanted.dir with
      | (.ok (), d) => (.ok wanted, d)
      | (.error cause, d) => (.error (.cannotCreate wanted.dir cause), d)

end LogState

/-- A request to log, the disk on which it is made, and what comes of starting the logger. -/
structure LogRequest where
  level : String
  dir : String
  disk : Disk
  start : Except String Unit

/-- Puts a request to what is active: the answer, what is active from then on, and the disk. The
logger starts once its directory is there. A refusal leaves what is active. -/
def LogRequest.carryOut (r : LogRequest) (active : Option LogState) :
    Except LogFault Unit × Option LogState × Disk :=
  match LogState.request active r.disk r.level r.dir with
  | (.error fault, d) => (.error fault, active, d)
  | (.ok state, d) =>
    match active, r.start with
    | none, .error cause => (.error (.cannotStart cause), none, d)
    | none, .ok () => (.ok (), some state, d)
    | some _, _ => (.ok (), some state, d)

/-! ## Panics -/

/-- What a panic carries. -/
inductive PanicPayload where
  | text (s : String)
  | other
deriving DecidableEq

namespace PanicPayload

/-- How many characters of a message are logged. -/
def lengthLimit : Nat := 160

/-- A message on one line, with an ellipsis in place of what is beyond the limit. -/
def summarize (message : String) : String :=
  let line := message.toList.map fun c => if c = '\n' ∨ c = '\r' then ' ' else c
  String.ofList (line.take lengthLimit ++ if lengthLimit < line.length then "...".toList else [])

/-- What is logged of a panic. -/
def summary : PanicPayload → String
  | .text s => summarize s
  | .other => summarize "non-string panic payload"

end PanicPayload

end TagGraph
