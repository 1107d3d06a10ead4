import ShellPrompt.Path

/-!
# ShellPrompt.Disk

Files below a working directory, among the fixed parts of the system they belong to.

Paths are followed name by name, a relative one from the working directory and an absolute one
from the root; dots and repeated slashes stay where they are but ask for a directory, as a
trailing slash does. What lies above the working directory is a directory of unknown content.
Below the root stand the standard directories and the null device (`systemEntry?`), and nothing
can be created there.

* `read`: what is found at a path.
* `openAppend`: what a writer appends to, a missing file being created.
-/

namespace ShellPrompt

inductive FileError where
  | notFound
  | notDirectory
  | isDirectory
  | nameTooLong
  | nulInPath
  | denied
  | notText
deriving DecidableEq

namespace FileError

def message : FileError → String
  | .notFound => "No such file or directory (os error 2)"
  | .notDirectory => "Not a directory (os error 20)"
  | .isDirectory => "Is a directory (os error 21)"
  | .nameTooLong => "File name too long (os error 36)"
  | .nulInPath => "file name contained an unexpected NUL byte"
  | .denied => "Permission denied (os error 13)"
  | .notText => "stream did not contain valid UTF-8"

end FileError

inductive Found where
  | missing
  | unreadable (e : FileError)
  | content (bytes : Text.Bytes)
deriving DecidableEq

inductive Entry where
  | directory
  | file (content : Text.Bytes)
  /-- Reads as an empty file and keeps nothing of what is written. -/
  | nullDevice
deriving DecidableEq

/-- The names that lead to an entry. -/
abbrev Location := List Text.Bytes

structure Disk where
  entries : List (Location × Entry) := []

/-- The directories every system has right below its root. -/
def standardDirectories : List Text.Bytes :=
  ["bin", "boot", "dev", "etc", "home", "lib", "media", "mnt", "opt", "proc", "root", "run",
    "sbin", "srv", "sys", "tmp", "usr", "var"].map fun name => Text.Utf8.encode name.toList

def nullDeviceLocation : Location :=
  ["dev", "null"].map fun name => Text.Utf8.encode name.toList

/-- What is known to stand below the root. -/
def systemEntry? (location : Location) : Option Entry :=
  if location = nullDeviceLocation then some .nullDevice
  else if location = [] ∨ location ∈ standardDirectories.map ([·]) then some .directory
  else none

namespace Disk

def empty : Disk := {}

def entry? (disk : Disk) (location : Location) : Option Entry :=
  if location = [] then some .directory else disk.entries.lookup location

def set (disk : Disk) (location : Location) (entry : Entry) : Disk :=
  ⟨(location, entry) :: disk.entries.filter (fun e => e.1 ≠ location)⟩

def addDirectory (disk : Disk) (location : Location) : Disk :=
  (List.range location.length).foldl
    (fun disk i =>
      let above := location.take (i + 1)
      if (disk.entry? above).isSome then disk else disk.set above .directory)
    disk

/-- Puts a file in place, with the directories above it. -/
def addFile (disk : Disk) (location : Location) (content : Text.Bytes) : Disk :=
  (disk.addDirectory location.dropLast).set location (.file content)

/-- Where a walk along a path stands. -/
inductive Spot where
  /-- Above the working directory. -/
  | above
  /-- At or below the working directory. -/
  | inside (location : Location)
  /-- At or below the root. -/
  | rooted (location : Location)
deriving DecidableEq

def entryAt? (disk : Disk) : Spot → Option Entry
  | .above => some .directory
  | .inside location => disk.entry? location
  | .rooted location => systemEntry? location

def isDirectory (disk : Disk) (spot : Spot) : Bool := disk.entryAt? spot == some .directory

/-- The root is its own parent. -/
def up : Spot → Spot
  | .above => .above
  | .inside [] => .above
  | .inside location => .inside location.dropLast
  | .rooted location => .rooted location.dropLast

/-- The spot of that name in a directory, where anything is known of it. -/
def child? : Spot → Text.Bytes → Option Spot
  | .above, _ => none
  | .inside location, name => some (.inside (location ++ [name]))
  | .rooted location, name => some (.rooted (location ++ [name]))

def follow (disk : Disk) (spot : Spot) (name : Text.Bytes) : Except FileError Spot :=
  if ¬ disk.isDirectory spot then .error .notDirectory
  else if name = [] ∨ name = Path.dot then .ok spot
  else if name = Path.dotDot then .ok (up spot)
  else if 255 < name.length then .error .nameTooLong
  else
    match child? spot name with
    | none => .error .notFound
    | some next => if (disk.entryAt? next).isSome then .ok next else .error .notFound

def walk (disk : Disk) (spot : Spot) (names : List Text.Bytes) : Except FileError Spot :=
  names.foldlM disk.follow spot

def start (p : Path) : Except FileError Spot :=
  if p.bytes.contains 0 then .error .nulInPath
  else if p.bytes = [] then .error .notFound
  else if 4096 ≤ p.bytes.length then .error .nameTooLong
  else .ok (if p.isAbsolute then .rooted [] else .inside [])

def resolve (disk : Disk) (p : Path) : Except FileError Spot := do
  let spot ← start p
  disk.walk spot (Path.segments p.bytes)

def read (disk : Disk) (p : Path) : Found :=
  match disk.resolve p with
  | .error _ => .missing
  | .ok spot =>
    match disk.entryAt? spot with
    | some (.file content) => .content content
    | some .nullDevice => .content []
    | _ => .unreadable .isDirectory

inductive Opened where
  | file (location : Location)
  | nullDevice
deriving DecidableEq

def contentOf (disk : Disk) : Opened → Text.Bytes
  | .file location =>
    match disk.entry? location with
    | some (.file content) => content
    | _ => []
  | .nullDevice => []

def store (disk : Disk) (content : Text.Bytes) : Opened → Disk
  | .file location => disk.set location (.file content)
  | .nullDevice => disk

/-- Segments in front of the last name, the last name, and whether slashes follow it. -/
def lastName (segments : List Text.Bytes) : List Text.Bytes × Option Text.Bytes × Bool :=
  let named := (segments.reverse.dropWhile (· == [])).reverse
  (named.dropLast, named.getLast?, named.length < segments.length)

/-- Opens what is at a path for appending. A missing file is created in its directory. -/
def openAppend (disk : Disk) (p : Path) : Except FileError (Opened × Disk) := do
  let spot ← start p
  let (parents, last?, slashed) := lastName (Path.segments p.bytes)
  let spot ← disk.walk spot parents
  if ¬ disk.isDirectory spot then throw .notDirectory
  match last? with
  | none => throw .isDirectory
  | some name =>
    if slashed ∨ name = Path.dot ∨ name = Path.dotDot then throw .isDirectory
    else if 255 < name.length then throw .nameTooLong
    else
      match child? spot name with
      | none => throw .denied
      | some target =>
        match disk.entryAt? target, target with
        | some .directory, _ => throw .isDirectory
        | some .nullDevice, _ => return (.nullDevice, disk)
        | some (.file _), .inside location => return (.file location, disk)
        | none, .inside location => return (.file location, disk.set location (.file []))
        | _, _ => throw .denied

end Disk
end ShellPrompt
