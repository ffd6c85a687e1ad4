import EggLang.Bytes

/-!
# The registry of functions

The names declared as functions, in bytewise order. A call of a registered name is a call in the
generated code and is not resolved through the scopes. Names are never taken out.
-/

namespace EggLang

structure Registry where
  names : List Bytes := []
  deriving DecidableEq, Repr

namespace Registry

def empty : Registry := {}

def has (r : Registry) (name : Bytes) : Bool := r.names.contains name

def add (r : Registry) (name : Bytes) : Registry := ⟨Bytes.insertSorted name r.names⟩

/-- The registry with every name of a list. -/
def addAll (r : Registry) (names : List Bytes) : Registry := names.foldl add r

def size (r : Registry) : Nat := r.names.length

/-- The names of the sorted list `after` that the sorted list `before` lacks: one walk over both
lists, in which each name of `before` is passed once. -/
def added : (before after : List Bytes) → List Bytes
  | _, [] => []
  | [], name :: after => name :: added [] after
  | b :: before, name :: after =>
    if Bytes.before b name then added before (name :: after)
    else if b = name then added (b :: before) after
    else name :: added (b :: before) after
termination_by before after => before.length + after.length

end Registry

end EggLang
