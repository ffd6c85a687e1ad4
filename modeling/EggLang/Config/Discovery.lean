import EggLang.Config.Basic
import EggLang.Disk.Basic

/-!
# Finding the configuration

The configuration of a directory is the nearest document in it or above it. In one directory
`eggc.yaml` comes before `eggc.yml`.
-/

namespace EggLang.Config

/-- The names of a document, the preferred one first. -/
def fileNames : List Bytes := [utf8 "eggc.yaml", utf8 "eggc.yml"]

def findIn (exists_ : Bytes → Bool) (dir : Bytes) : Option Bytes :=
  (fileNames.map (Path.join dir)).find? exists_

/-- The nearest document from a directory upward. The directory is given by its segments, the
last one first. -/
def findUp (exists_ : Bytes → Bool) : List Bytes → Option Bytes
  | [] => findIn exists_ (Disk.pathOf [])
  | segment :: above =>
    match findIn exists_ (Disk.pathOf (segment :: above).reverse) with
    | some path => some path
    | none => findUp exists_ above

/-- The nearest document from a directory upward, of those that exist. -/
def find (exists_ : Bytes → Bool) (cwd dir : Bytes) : Option Bytes :=
  findUp exists_ (Path.cleanSegments (Path.absolute cwd dir)).reverse

def load (d : Disk) (cwd path : Bytes) : Except Failure Config :=
  match d.readFile cwd path with
  | .error f =>
    .error (.plain (utf8 "reading config " ++ path ++ utf8 ": " ++ f.message))
  | .ok content =>
    match parse content path with
    | .error r => .error (.plain (r.message path))
    | .ok c => .ok c

/-- The configuration of a directory and the document it is from, if there is one. -/
def discover (d : Disk) (dir : Bytes) : Except Failure (Config × Option Bytes) :=
  match find d.exists_ dir dir with
  | none => .ok (default, none)
  | some path => (load d dir path).map fun c => (c, some path)

end EggLang.Config
