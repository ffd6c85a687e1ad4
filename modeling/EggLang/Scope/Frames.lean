import EggLang.Bytes

/-!
# Scope frames

Frames form a tree: each frame but a root has an outer frame, made before it. A name is owned by
the frames that bind it and is looked up from a frame outward. Frames are named by the number
they were made under.
-/

namespace EggLang

/-!
## Bindings of one frame

The names a scope frame owns, each with the value it was last given.
-/

/-- A finite map from names to values. -/
structure Bindings (α : Type) where
  entries : List (Bytes × α) := []
  deriving Repr

namespace Bindings

variable {α : Type}

def empty : Bindings α := {}

def findEntry (name : Bytes) : List (Bytes × α) → Option α
  | [] => none
  | (n, v) :: rest => if name = n then some v else findEntry name rest

def get? (b : Bindings α) (name : Bytes) : Option α := findEntry name b.entries

def owns (b : Bindings α) (name : Bytes) : Bool := (b.get? name).isSome

/-- The entries with `name` bound to `value`; a name keeps its place. -/
def setEntry (name : Bytes) (value : α) : List (Bytes × α) → List (Bytes × α)
  | [] => [(name, value)]
  | (n, v) :: rest => if name = n then (n, value) :: rest else (n, v) :: setEntry name value rest

/-- The bindings with `name` bound to `value`. -/
def set (b : Bindings α) (name : Bytes) (value : α) : Bindings α :=
  ⟨setEntry name value b.entries⟩

/-- Setting an entry changes what its name is bound to and nothing else. -/
theorem findEntry_setEntry (entries : List (Bytes × α)) (name other : Bytes) (value : α) :
    findEntry other (setEntry name value entries)
      = if other = name then some value else findEntry other entries := by
  induction entries with
  | nil => simp [setEntry, findEntry]
  | cons e rest ih =>
    obtain ⟨n, v⟩ := e
    by_cases hn : name = n
    · subst hn
      by_cases ho : other = name <;> simp [setEntry, findEntry, ho]
    · by_cases ho : other = n
      · subst ho
        have : other ≠ name := fun h => hn h.symm
        simp [setEntry, findEntry, hn, this]
      · simp [setEntry, findEntry, hn, ho, ih]

/-- Setting a name changes what it is bound to and nothing else. -/
@[simp] theorem get?_set (b : Bindings α) (name other : Bytes) (value : α) :
    (b.set name value).get? other = if other = name then some value else b.get? other :=
  findEntry_setEntry b.entries name other value

end Bindings

/-! ## Frames -/

structure Frame (α : Type) where
  /-- The enclosing frame, if any. -/
  outer : Option Nat := none
  /-- Whether the frame belongs to the body of a function literal. -/
  isFunction : Bool := false
  bindings : Bindings α := .empty
  deriving Repr

/-- The frames made so far, by number. -/
structure Frames (α : Type) where
  frames : List (Frame α) := []
  deriving Repr

namespace Frames

variable {α : Type}

def size (fs : Frames α) : Nat := fs.frames.length

def frame? (fs : Frames α) (env : Nat) : Option (Frame α) := fs.frames[env]?

def push (fs : Frames α) (f : Frame α) : Nat × Frames α := (fs.size, ⟨fs.frames ++ [f]⟩)

/-- Frames with a single root frame, which has number zero. -/
def ofRoot (bindings : Bindings α) : Frames α := ⟨[{ bindings }]⟩

/-- Opens a frame with nothing around it. -/
def outermost (fs : Frames α) : Nat × Frames α := fs.push {}

/-- Opens a frame inside `env`. -/
def enclosed (fs : Frames α) (env : Nat) : Nat × Frames α := fs.push { outer := some env }

/-- Opens the frame of a function body inside `env`. -/
def function (fs : Frames α) (env : Nat) : Nat × Frames α :=
  fs.push { outer := some env, isFunction := true }

def outer? (fs : Frames α) (env : Nat) : Option Nat := (fs.frame? env).bind Frame.outer

def isFunction (fs : Frames α) (env : Nat) : Bool :=
  match fs.frame? env with
  | some f => f.isFunction
  | none => false

def own? (fs : Frames α) (env : Nat) (name : Bytes) : Option α :=
  (fs.frame? env).bind fun f => f.bindings.get? name

def owns (fs : Frames α) (env : Nat) (name : Bytes) : Bool := (fs.own? env name).isSome

/-- What a name is bound to, looked up from a frame outward. -/
def get? (fs : Frames α) (env : Nat) (name : Bytes) : Option α :=
  match fs.own? env name with
  | some value => some value
  | none =>
    match fs.outer? env with
    | some outer => if outer < env then get? fs outer name else none
    | none => none
termination_by env

def set (fs : Frames α) (env : Nat) (name : Bytes) (value : α) : Frames α :=
  ⟨fs.frames.modify env fun f => { f with bindings := f.bindings.set name value }⟩

def root (fs : Frames α) : Bindings α :=
  match fs.frames with
  | f :: _ => f.bindings
  | [] => .empty

end Frames

end EggLang
