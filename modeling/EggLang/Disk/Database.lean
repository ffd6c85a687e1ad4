import EggLang.Bytes
import EggLang.Disk.Basic
import EggLang.Text.Quoted

/-!
# Caches on a disk

Opening a cache makes the directory of its file and the file itself where they are missing, and
takes the rows of the file. What a cache holds is written back to its file. The path of a cache
may have parameters behind a question mark; they say how the file is kept.
-/

/-!
## Paths with parameters

The path of a cache may go on behind a question mark with parameters: names and values with signs
of equality between them and ampersands between the pairs. A plus stands for a blank, and a percent
sign with two hexadecimal digits for any byte.
-/

namespace EggLang.Parameters

/-- Why parameters cannot be read. -/
inductive Flaw where
  | semicolon
  /-- A percent sign that two digits do not follow, with what does. -/
  | escape (text : Bytes)
  deriving DecidableEq, Repr

def Flaw.message : Flaw → Bytes
  | semicolon => utf8 "invalid semicolon separator in query"
  | escape text => utf8 "invalid URL escape " ++ Text.Quoted.encode text

def hexDigit? (b : UInt8) : Option Nat :=
  if 48 ≤ b && b ≤ 57 then some (b.toNat - 48)
  else if 97 ≤ b && b ≤ 102 then some (b.toNat - 87)
  else if 65 ≤ b && b ≤ 70 then some (b.toNat - 55)
  else none

def unescape : Bytes → Except Flaw Bytes
  | [] => .ok []
  | 37 :: rest =>
    match rest with
    | a :: b :: more =>
      match hexDigit? a, hexDigit? b with
      | some x, some y => (unescape more).map ((16 * x + y).toUInt8 :: ·)
      | _, _ => .error (.escape [37, a, b])
    | more => .error (.escape (37 :: more))
  | b :: rest => (unescape rest).map ((if b = 43 then 32 else b) :: ·)

/-- The text before and the text behind the first occurrence of a byte. -/
def cut (b : UInt8) (text : Bytes) : Bytes × Bytes :=
  (text.takeWhile (· != b), (text.dropWhile (· != b)).drop 1)

def pair (text : Bytes) : Except Flaw (Bytes × Bytes) := do
  if text.any (· == 59) then throw .semicolon
  let (name, value) := cut 61 text
  return (← unescape name, ← unescape value)

/-- The pairs in order. A semicolon is the flaw that counts, else the first one. -/
def parse (text : Bytes) : Except Flaw (List (Bytes × Bytes)) :=
  let pieces := (Bytes.splitOn 38 text).filter (!·.isEmpty)
  if text.any (· == 59) then .error .semicolon else pieces.mapM pair

def values (name : String) (ps : List (Bytes × Bytes)) : List Bytes :=
  (ps.filter fun p => p.1 = utf8 name).map (·.2)

/-- The first value of a name; empty if there is none. -/
def value (name : String) (ps : List (Bytes × Bytes)) : Bytes := (values name ps).headD []

end EggLang.Parameters

/-! ## Cache files -/

namespace EggLang.Disk

/-- Why the file of a cache cannot be used. -/
inductive FileFlaw where
  | parameters (flaw : Parameters.Flaw)
  /-- Ways to keep the file that contradict each other. -/
  | conflict (ways : List Bytes)
  | unknownWay
  | unknownTimes (format : Bytes)
  | unknownLock (mode : Bytes)
  | unopenable
  | notDatabase
  deriving DecidableEq, Repr

def FileFlaw.message : FileFlaw → Bytes
  | parameters flaw => flaw.message
  | conflict ways =>
    utf8 "conflicting vfs query parameters: [" ++ Bytes.join (utf8 " ") ways ++ utf8 "]"
  | unknownWay => utf8 "SQL logic error: out of memory (1)"
  | unknownTimes format => utf8 "unknown _time_format " ++ Text.Quoted.encode format
  | unknownLock mode => utf8 "unknown _txlock " ++ Text.Quoted.encode mode
  | unopenable => utf8 "unable to open database file: out of memory (14)"
  | notDatabase => utf8 "file is not a database (26)"

/-- Why a cache cannot be opened. -/
inductive OpenFailure where
  | directory (failure : DiskFailure)
  | file (path : Bytes) (flaw : FileFlaw)
  deriving DecidableEq, Repr

def OpenFailure.message : OpenFailure → Bytes
  | directory failure => utf8 "creating cache directory: " ++ failure.message
  | file path flaw => utf8 "creating cache schema in " ++ path ++ utf8 ": " ++ flaw.message

def cacheFile (path : Bytes) : Bytes := (Parameters.cut 63 path).1

def ways : List Bytes := ["unix", "unix-none", "unix-dotfile", "unix-excl"].map utf8

/-- The way that keeps nothing. -/
def memoryWay : Bytes := utf8 "memdb"

/-- The way to keep the file; empty for the usual one. -/
def way (parameters : List (Bytes × Bytes)) : Except FileFlaw Bytes := do
  let given := Parameters.values "vfs" parameters
  let chosen ← given.foldlM (fun w v =>
    if w.isEmpty || w = v then .ok v else .error (.conflict given)) []
  if chosen.isEmpty || chosen = memoryWay || ways.contains chosen then return chosen
  else throw .unknownWay

def lockModes : List Bytes := ["deferred", "immediate", "exclusive"].map utf8

def lowered (text : Bytes) : Bytes := text.map fun b => if 65 ≤ b && b ≤ 90 then b + 32 else b

/-- Checks the parameters that are looked at once the file is open. -/
def checkParameters (parameters : List (Bytes × Bytes)) : Except FileFlaw Unit :=
  let times := Parameters.value "_time_format" parameters
  let lock := Parameters.value "_txlock" parameters
  if !times.isEmpty then
    if times = utf8 "sqlite" then .ok () else .error (.unknownTimes times)
  else if lock.isEmpty || lockModes.contains (lowered lock) then .ok ()
  else .error (.unknownLock lock)

/-- The rows of the file of a cache, and the disk with the file. A file of one byte counts as
empty. -/
def openFile (d : Disk) (at_ : Location) : Except FileFlaw (List (Bytes × CacheRow) × Disk) :=
  match d.entry? at_ with
  | some (.database rows) => .ok (rows, d)
  | some .directory => .error .unopenable
  | some (.file content) =>
    if content.length ≤ 1 then .ok ([], d.set at_ (.database [])) else .error .notDatabase
  | none => .ok ([], d.set at_ (.database []))

/-- Opens the cache at an absolute path. Gives also the disk, which has changed even where the
opening fails at last. -/
def openCache (d : Disk) (path : Bytes) : Except OpenFailure Cache × Disk :=
  match d.makeDirectories (Path.parent path) with
  | .error f => (.error (.directory f), d)
  | .ok d =>
    let failed (flaw : FileFlaw) : Except OpenFailure Cache := .error (.file path flaw)
    match Parameters.parse (Parameters.cut 63 path).2 with
    | .error flaw => (failed (.parameters flaw), d)
    | .ok ps =>
      match way ps with
      | .error flaw => (failed flaw, d)
      | .ok w =>
        let opened := if w = memoryWay then .ok ([], d)
          else d.openFile (Path.cleanSegments (cacheFile path))
        match opened with
        | .error flaw => (failed flaw, d)
        | .ok (rows, d) =>
          match checkParameters ps with
          | .error flaw => (failed flaw, d)
          | .ok () => (.ok { path, rows, isKept := w != memoryWay }, d)

def saveCache (d : Disk) (c : Cache) : Disk :=
  if c.isKept then d.set (Path.cleanSegments (cacheFile c.path)) (.database c.rows) else d

end EggLang.Disk
