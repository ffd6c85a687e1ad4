import EggLang.Cache.Basic
import EggLang.Disk.Path

/-!
# A disk

The files and directories that a command can see: what is there, and what reading, writing and
making directories does. A place is named by its segments from the root; the root is always a
directory. The file of a cache is kept as the rows it holds.
-/

namespace EggLang

/-- A place on a disk, by its segments from the root. -/
abbrev Location := List Bytes

inductive DiskEntry where
  | file (content : Bytes)
  | directory
  | database (rows : List (Bytes × CacheRow))
  deriving DecidableEq, Repr

/-- Why an operation on a disk fails. -/
inductive DiskTrouble where
  | notFound
  | notDirectory
  | isDirectory
  | nameTooLong
  /-- A path with a zero byte in it. -/
  | invalidPath
  deriving DecidableEq, Repr

namespace DiskTrouble

def message : DiskTrouble → Bytes
  | notFound => utf8 "no such file or directory"
  | notDirectory => utf8 "not a directory"
  | isDirectory => utf8 "is a directory"
  | nameTooLong => utf8 "file name too long"
  | invalidPath => utf8 "invalid argument"

end DiskTrouble

/-- A failed operation: what was done to which path, and why it failed. -/
structure DiskFailure where
  operation : String
  path : Bytes
  trouble : DiskTrouble
  deriving DecidableEq, Repr

namespace DiskFailure

/-- The wording of a failed operation, as in `open x: no such file or directory`. -/
def message (f : DiskFailure) : Bytes :=
  utf8 f.operation ++ utf8 " " ++ f.path ++ utf8 ": " ++ f.trouble.message

end DiskFailure

structure Disk where
  entries : List (Location × DiskEntry) := []
  deriving DecidableEq, Repr

namespace Disk

def entry? (d : Disk) (at_ : Location) : Option DiskEntry :=
  if at_.isEmpty then some .directory else d.entries.lookup at_

/-- Puts an entry at a place of a table, instead of what stands there. -/
def setEntry (at_ : Location) (e : DiskEntry) :
    List (Location × DiskEntry) → List (Location × DiskEntry)
  | [] => [(at_, e)]
  | (l, old) :: rest => if l = at_ then (l, e) :: rest else (l, old) :: setEntry at_ e rest

def set (d : Disk) (at_ : Location) (e : DiskEntry) : Disk := ⟨setEntry at_ e d.entries⟩

/-- The number of bytes a segment of a path may have. -/
def maxSegment : Nat := 255

def maxPath : Nat := 4095

/-- Follows segments from a place. Each place that is passed has to be a directory; the last one
need not be there. -/
def follow (d : Disk) : Location → List Bytes → Except DiskTrouble Location
  | at_, [] => .ok at_
  | at_, segment :: rest =>
    match d.entry? at_ with
    | some .directory =>
      if segment.isEmpty || segment = Path.here then follow d at_ rest
      else if segment = Path.up then follow d at_.dropLast rest
      else if maxSegment < segment.length then .error .nameTooLong
      else follow d (at_ ++ [segment]) rest
    | some _ => .error .notDirectory
    | none => .error .notFound

def locate (d : Disk) (cwd path : Bytes) : Except DiskTrouble Location :=
  if path.any (· == 0) then .error .invalidPath
  else if path.isEmpty then .error .notFound
  else if maxPath < path.length then .error .nameTooLong
  else if Path.isAbsolute path then d.follow [] (Path.segments path)
  else d.follow [] (Path.segments cwd ++ Path.segments path)

def exists_ (d : Disk) (path : Bytes) : Bool :=
  match d.locate [] path with
  | .ok at_ => (d.entry? at_).isSome
  | .error _ => false

def readFile (d : Disk) (cwd path : Bytes) : Except DiskFailure Bytes :=
  let opened := "open"
  match d.locate cwd path with
  | .error t => .error ⟨opened, path, t⟩
  | .ok at_ =>
    match d.entry? at_ with
    | none => .error ⟨opened, path, .notFound⟩
    | some .directory => .error ⟨"read", path, .isDirectory⟩
    | some (.file content) => .ok content
    | some (.database _) => .ok []

/-- Writes a file, a new one or in place of the old one. A path with a slash at its end can only
mean a directory, even where none is. -/
def writeFile (d : Disk) (cwd path content : Bytes) : Except DiskFailure Disk :=
  let opened := "open"
  let trimmed := Path.trimSlashes path
  match d.locate cwd (if trimmed.isEmpty then path else trimmed) with
  | .error t => .error ⟨opened, path, t⟩
  | .ok at_ =>
    if trimmed.length < path.length || d.entry? at_ = some .directory then
      .error ⟨opened, path, .isDirectory⟩
    else .ok (d.set at_ (.file content))

def pathOf (at_ : Location) : Bytes := utf8 "/" ++ Bytes.join (utf8 "/") at_

/-- Makes the directories below a place that the segments name, as far as they are missing. -/
def makeBelow (d : Disk) : Location → List Bytes → Except DiskFailure Disk
  | _, [] => .ok d
  | at_, segment :: rest =>
    let next := at_ ++ [segment]
    match d.entry? next with
    | some .directory => makeBelow d next rest
    | some _ => .error ⟨"mkdir", pathOf next, .notDirectory⟩
    | none => makeBelow (d.set next .directory) next rest

def makeDirectories (d : Disk) (path : Bytes) : Except DiskFailure Disk :=
  d.makeBelow [] (Path.cleanSegments path)

end Disk

end EggLang
