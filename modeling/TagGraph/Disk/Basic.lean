import TagGraph.Disk.Address
import TagGraph.Disk.Path
import TagGraph.Schema.Migration

/-!
# Disks

The directories and files that a run of the program sees, by their paths. A file holds a database or
any other text; an empty text counts as an empty database.

Names of files and directories have at most 255 bytes. A path has fewer than 4096 bytes, and that of
a database less than 512, since its journal is kept beside it.
-/

namespace TagGraph

/-- What a file holds. -/
inductive FileContent where
  | text (s : String)
  | database (db : Database)
deriving DecidableEq

/-- What stands under a path. -/
inductive DiskEntry where
  | directory
  | file (content : FileContent)
deriving DecidableEq

/-- Whether a directory stands under a path. -/
def DiskEntry.isDirectory : DiskEntry → Bool
  | .directory => true
  | .file _ => false

/-- A place on a disk: the components of a path from the root, without dots. -/
abbrev Place : Type := List String

/-- A disk by the paths of its places, and the directory in which a run takes place. -/
structure Disk where
  entries : List (String × DiskEntry)
  workDir : Place
deriving DecidableEq

namespace Disk

/-- What stands at a place. The root is a directory. -/
def entry? (d : Disk) (place : Place) : Option DiskEntry :=
  if place.isEmpty then some .directory else d.entries.lookup (Path.render place)

/-- A disk with something at a place. -/
def put (d : Disk) (place : Place) (entry : DiskEntry) : Disk :=
  let path := Path.render place
  { d with entries := (path, entry) :: d.entries.filter (·.1 != path) }

/-- Whether a place is a directory. -/
def isDirectory (d : Disk) (place : Place) : Bool :=
  (d.entry? place).any (·.isDirectory)

/-- Whether a place is a file. -/
def isFile (d : Disk) (place : Place) : Bool :=
  (d.entry? place).any (!·.isDirectory)

/-- How many bytes the name of a file or directory can have. -/
def nameLimit : Nat := 255

/-- How many bytes a path can have. -/
def pathLimit : Nat := 4095

/-! ## Databases -/

/-- How many bytes the path of a database can have while it is put together. -/
def databasePathLimit : Nat := 512

/-- How many bytes the name of the journal has beyond that of its database. -/
def journalSize : Nat := 8

/-- How many bytes the path of a place has. -/
def sizeOf (place : Place) : Nat :=
  place.foldl (fun size component => size + component.utf8ByteSize + 1) 0

/-- A place one component further, for the file of a database. Two dots lead back. There is no such
place behind a file or beyond the limits. -/
def enter? (d : Disk) (place : Place) (component : String) : Option Place :=
  if component = ".." then some place.dropLast
  else if databasePathLimit < sizeOf place + component.utf8ByteSize + 2 then none
  else if d.isFile place then none
  else if nameLimit < component.utf8ByteSize && d.isDirectory place then none
  else some (place ++ [component])

/-- The place that the path of a database means. -/
def locate? (d : Disk) (path : String) : Option Place := do
  let start ← if Path.isAbsolute path then some [] else d.workDir.foldlM d.enter? []
  let place ← (Path.components path).foldlM d.enter? start
  if place.isEmpty || databasePathLimit < sizeOf place + journalSize then none
  return place

/-- A database that has been opened, the place of its file if it has one, and why nothing can be
written if that is so. -/
structure OpenDatabase where
  database : Database
  place : Option Place
  writeFault : Option StorageFault

/-- Why nothing can be written to the database of an address at a place. The name of a journal must
not be too long. -/
def writeFault? (a : Address) (place : Place) : Option StorageFault :=
  if a.isReadOnly then some .readOnly
  else if place.getLast?.any fun name => nameLimit < name.utf8ByteSize + journalSize then
    some .noJournal
  else none

/-- Opens the database of an address. A file that does not exist is made, empty, if that is allowed
and its directory is there. -/
def openAddress (d : Disk) (text : String) (a : Address) :
    Except StoreError (OpenDatabase × Disk) :=
  if a.isTransient then
    .ok (⟨.empty, none, if a.isReadOnly then some .readOnly else none⟩, d)
  else
    match d.locate? a.path with
    | none => .error (.storage (.cannotOpen text))
    | some place =>
      let opened (db : Database) : OpenDatabase := ⟨db, some place, writeFault? a place⟩
      match d.entry? place with
      | some (.file (.database db)) => .ok (opened db, d)
      | some (.file (.text s)) =>
        if s.isEmpty then .ok (opened .empty, d) else .error (.storage .notADatabase)
      | some .directory =>
        .error (.storage (if a.access = .read then .unreadable else .cannotOpen text))
      | none =>
        if a.access = .create && d.isDirectory place.dropLast then
          .ok (opened .empty, d.put place (.file (.text "")))
        else .error (.storage (.cannotOpen text))

/-- Opens the database that a text names. -/
def openDatabase (d : Disk) (text : String) : Except StoreError (OpenDatabase × Disk) :=
  match Address.ofString? text with
  | .ok a => d.openAddress text a
  | .error detail => .error (.storage (.badAddress detail))

/-- The database, migrated to the latest version. Migrating one of an older version writes. -/
def OpenDatabase.migrated (o : OpenDatabase) : Except StoreError Database := do
  let db ← o.database.migrate
  match o.writeFault with
  | some fault => if db.version = o.database.version then return db else throw (.storage fault)
  | none => return db

/-- Keeps a database in the file of the one that has been opened, if it can be written. -/
def save (d : Disk) (o : OpenDatabase) (db : Database) : Disk :=
  match o.place, o.writeFault with
  | some place, none => d.put place (.file (.database db))
  | _, _ => d

/-! ## Directories -/

/-- Why a directory cannot be made. -/
inductive DirectoryFault where
  | nul
  | nameTooLong
  | fileExists
  | notADirectory
  | missing
deriving DecidableEq

/-- The wording of a fault. -/
def DirectoryFault.message : DirectoryFault → String
  | .nul => "file name contained an unexpected NUL byte"
  | .nameTooLong => "File name too long (os error 36)"
  | .fileExists => "File exists (os error 17)"
  | .notADirectory => "Not a directory (os error 20)"
  | .missing => "No such file or directory (os error 2)"

/-- Makes the directories of a path below a place, as far as they are missing. `made` tells whether
one has been made so far, and `dotted` whether a dot stands behind the last component, which must
then be there already. What has been made before a fault stays. -/
def makeBelow (dotted : Bool) :
    (made : Bool) → Disk → Place → List String → Except DirectoryFault Unit × Disk
  | _, d, _, [] => (.ok (), d)
  | made, d, place, component :: rest =>
    if component = ".." then makeBelow dotted made d place.dropLast rest
    else
      let next := place ++ [component]
      match d.entry? next with
      | some .directory => makeBelow dotted made d next rest
      | some (.file _) =>
        let isFileExists := if rest.isEmpty then !dotted else made
        (.error (if isFileExists then .fileExists else .notADirectory), d)
      | none =>
        if nameLimit < component.utf8ByteSize then (.error .nameTooLong, d)
        else if rest.isEmpty && dotted then (.error .missing, d)
        else makeBelow dotted true (d.put next .directory) next rest

/-- Makes a directory, given by an absolute path, with all directories above it. -/
def makeDirectory (d : Disk) (path : String) : Except DirectoryFault Unit × Disk :=
  if path.toList.contains '\x00' then (.error .nul, d)
  else if pathLimit < path.utf8ByteSize then (.error .nameTooLong, d)
  else makeBelow (Path.endsWithDot path) false d [] (Path.components path)

end Disk

end TagGraph
