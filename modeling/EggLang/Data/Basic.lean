import EggLang.Bytes
import EggLang.Number.Binary64

/-!
# Data

What a finished program gives back: plain data without references. The members of a map are kept
in the bytewise order of their names.
-/

namespace EggLang

inductive Data where
  | null
  | bool (b : Bool)
  | number (x : Binary64)
  | string (text : Bytes)
  | list (items : List Data)
  | map (members : List (Bytes × Data))
  /-- A function inside a structure; it has no text of its own. -/
  | callable
  deriving Repr, Inhabited

namespace Data

def setMember (name : Bytes) (value : Data) : List (Bytes × Data) → List (Bytes × Data)
  | [] => [(name, value)]
  | (n, v) :: rest =>
    if Bytes.before name n then (name, value) :: (n, v) :: rest
    else if name = n then (n, value) :: rest
    else (n, v) :: setMember name value rest

/-- The map with the given members; of two with one name the later one counts. -/
def ofMembers (members : List (Bytes × Data)) : Data :=
  map (members.foldl (fun acc m => setMember m.1 m.2 acc) [])

/-- Whether there is no data. -/
def isNull : Data → Bool
  | null => true
  | _ => false

end Data

end EggLang
