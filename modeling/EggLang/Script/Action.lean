import EggLang.Data.Basic
import EggLang.Script.Value

/-!
# Actions of a running script

An action is told what to do with its outcome and what to do when it throws, and gives the run that
follows. A run stops at each call and at each round of a loop: a machine that counts these stops
can interrupt a script that has no end, and every definition on the way is total.
-/

namespace EggLang.Script

/-- How a statement ended. -/
inductive Completion where
  /-- With the value of the last expression in it. -/
  | normal (v : Option Value)
  | returned (v : Value)
  | broke (label : Option String)
  | continued (label : Option String)
  deriving DecidableEq, Repr, Inhabited

/-- Where the values of a loop come from. -/
inductive Source where
  /-- The elements of an array from a place on. -/
  | elements (array position : Nat)
  /-- An iterator and its function for the next value. -/
  | iterator (it next : Value)
  deriving DecidableEq, Repr, Inhabited

/-- A loop between two rounds. Each has its labels and the scope it stands in. -/
inductive Loop where
  /-- Has a condition and a step behind each round; the first round of a loop that tests last
  needs no condition. A loop that declares names makes them anew in each round. -/
  | steps (labels : List String) (scope : Nat) (fresh : List String) (cond step : Expr)
      (body : Stmt) (testFirst : Bool)
  /-- Goes through the names of the members of an object. -/
  | names (labels : List String) (scope : Nat) (kind : Option Declaration) (target : Expr)
      (body : Stmt) (object : Nat) (rest : List Units)
  /-- Goes through values. -/
  | values (labels : List String) (scope : Nat) (kind : Option Declaration) (target : Expr)
      (body : Stmt) (source : Source)

/-- How a script ended. -/
inductive Outcome where
  | value (d : Data)
  /-- With an exception that nothing caught, by its text. -/
  | thrown (text : Units)
  /-- The budget ran out. -/
  | interrupted
  deriving Repr, Inhabited

/-- A run of a script: it has ended, or it is about to do something that may not end, and goes on
with the outcome of that. -/
inductive Run where
  | done (outcome : Outcome) (s : Store)
  /-- Calls a function, or constructs with it if a target is given. -/
  | call (callee : Nat) (self : Value) (args : List Value) (target : Option Nat)
      (k h : Value → Store → Run) (s : Store)
  | loop (l : Loop) (k : Completion → Store → Run) (h : Value → Store → Run) (s : Store)
  /-- Collects the values that a source has left. -/
  | collect (source : Source) (done : List Value) (k : List Value → Store → Run)
      (h : Value → Store → Run) (s : Store)
  /-- Executes the statements of a text. -/
  | code (body : List Stmt) (scope : Nat) (k : Completion → Store → Run)
      (h : Value → Store → Run) (s : Store)

/-- Something that a script does: it gives a value or throws one. -/
def Action (α : Type) : Type := (α → Store → Run) → (Value → Store → Run) → Store → Run

instance : Monad Action where
  pure a := fun k _ s => k a s
  bind m f := fun k h s => m (fun a s => f a k h s) h s

namespace Action

@[inline] def raise {α : Type} (v : Value) : Action α := fun _ h s => h v s

@[inline] def read {α : Type} (f : Store → α) : Action α := fun k _ s => k (f s) s

@[inline] def modify (f : Store → Store) : Action Unit := fun k _ s => k () (f s)

@[inline] def alter {α : Type} (f : Store → α × Store) : Action α := fun k _ s =>
  match f s with
  | (a, s) => k a s

/-- Does something else where an action throws. -/
def catching {α : Type} (m : Action α) (handler : Value → Action α) : Action α := fun k h s =>
  m k (fun v s => handler v k h s) s

def invoke (callee : Nat) (self : Value) (args : List Value) : Action Value := fun k h s =>
  .call callee self args none k h s

def constructWith (callee : Nat) (args : List Value) (target : Nat) : Action Value := fun k h s =>
  .call callee .undefined args (some target) k h s

def alloc (o : Object) : Action Nat := alter (·.alloc o)

def allocPlain (members : List (Key × Value)) : Action Value := do
  let ref ← alloc
    { proto := some Intrinsic.objectPrototype.ref
      members := (members.map fun (k, v) => (k, Property.plain v)).toArray }
  return .object ref

def allocSparse (elements : Array (Option Value)) : Action Value := do
  let ref ← alloc
    { kind := .array elements elements.size false, proto := some Intrinsic.arrayPrototype.ref }
  return .object ref

def allocArray (values : List Value) : Action Value := allocSparse (values.map some).toArray

def allocError (kind : ErrorKind) (message : Units) : Action Value := do
  let ref ← alloc
    { kind := .error, proto := some kind.prototype.ref
      members := #[(messageKey, .hidden (.string message))] }
  return .object ref

def failWith {α : Type} (kind : ErrorKind) (message : Units) : Action α := do
  raise (← allocError kind message)

/-- Throws an error about a value of the wrong type. -/
def fail {α : Type} (message : String) : Action α := failWith .typeError (Units.ofString message)

/-- Throws an error about a value of the wrong type that has a text in it. -/
def failAbout {α : Type} (before : String) (text : Units) (after : String) : Action α :=
  failWith .typeError (Units.ofString before ++ text ++ Units.ofString after)

/-- Does something for each item of a list in turn. -/
def each {α : Type} (f : α → Action Unit) : List α → Action Unit
  | [] => pure ()
  | a :: rest => do
    f a
    each f rest

/-- The outcomes of something done for each item of a list in turn. -/
def mapEach {α β : Type} (f : α → Action β) : List α → Action (List β)
  | [] => pure []
  | a :: rest => do
    let b ← f a
    let bs ← mapEach f rest
    return b :: bs

/-! ## Members -/

/-- A member of an object itself. A prototype that nobody has looked at is made. -/
def own (ref : Nat) (key : Key) : Action (Option Property) := do
  match ← read (·.own? ref key) with
  | some { slot := .unmade, .. } =>
    let made ← alloc
      { proto := some Intrinsic.objectPrototype.ref
        members := #[(constructorKey, .hidden (.object ref))] }
    let p : Property :=
      { slot := .value (.object made) true, enumerable := false, configurable := false }
    modify (·.put ref key p)
    return some p
  | found => return found

def valueOf (receiver : Value) (p : Property) : Action Value :=
  match p.slot with
  | .value v _ => pure v
  | .accessor (some getter) _ => invoke getter receiver []
  | _ => pure .undefined

/-- A member found along the prototypes, nothing if there is none. -/
def find (ref : Nat) (key : Key) (receiver : Value) : Action (Option Value) := do
  match ← read (·.lookup? ref key) with
  | none => return none
  | some (holder, p) =>
    match p.slot with
    | .value v _ => return some v
    | .accessor (some getter) _ => some <$> invoke getter receiver []
    | .accessor none _ => return some .undefined
    | .unmade =>
      match ← own holder key with
      | some p => some <$> valueOf receiver p
      | none => return none

/-- A member of an object, `undefined` if there is none. -/
def get (ref : Nat) (key : Key) : Action Value :=
  return (← find ref key (.object ref)).getD .undefined

/-- The object whose members a value has, nothing for `undefined` and `null`. -/
def homeOf? : Value → Option Nat
  | .undefined | .null => none
  | .bool _ => some Intrinsic.booleanPrototype.ref
  | .number _ => some Intrinsic.numberPrototype.ref
  | .string _ => some Intrinsic.stringPrototype.ref
  | .symbol _ => some Intrinsic.symbolPrototype.ref
  | .object ref => some ref

def textMember? (s : Units) (key : Key) : Option Value :=
  match key.index? with
  | some i => Object.unitAt? s i
  | none => if key = lengthKey then some (.number (.ofNat s.length)) else none

/-- A member of a value, nothing if there is none. -/
def member (v : Value) (key : Key) : Action (Option Value) :=
  let own := match v with
    | .string s => textMember? s key
    | _ => none
  match own with
  | some x => pure (some x)
  | none =>
    match homeOf? v with
    | some home => find home key v
    | none => pure none

/-- How an assignment to a member ended. -/
inductive Written where
  | done
  | readOnly
  | notExtensible
  deriving DecidableEq, Repr

def setLength (ref : Nat) (length : Nat) : Action Written := do
  match ← read (·.arrayLength? ref) with
  | some (old, fixed) =>
    if fixed then return if length = old then .done else .readOnly
    else
      modify (·.modifyObject ref (·.truncate length))
      let reached ← read (·.arrayLength? ref)
      return if reached.map (·.1) = some length then .done else .readOnly
  | none => return .done

/-- Adds a member like those that assignments make. -/
def add (ref : Nat) (key : Key) (v : Value) : Action Written := do
  if ← read (·.accepts ref key) then
    modify (·.put ref key (.plain v))
    return .done
  else return .notExtensible

def lengthOf? (x : Numeric) : Option Nat :=
  match x with
  | .int n => if 0 ≤ n && n ≤ 4294967295 then some n.toNat else none
  | .float (.finite _ 0 _) => some 0
  | .float _ => none

/-- Assigns to a member of an object. `toNumber` converts a new length of an array. -/
def assignWith (toNumber : Value → Action Numeric) (ref : Nat) (key : Key) (v : Value) :
    Action Written := do
  match ← read (·.own? ref key) with
  | some p =>
    match p.slot with
    | .value _ true =>
      if key = lengthKey && (← read (·.arrayLength? ref)).isSome then
        match lengthOf? (← toNumber v) with
        | some n => setLength ref n
        | none => failWith .rangeError (Units.ofString "Invalid array length")
      else
        modify (·.put ref key (p.setValue v))
        return .done
    | .value _ false => return .readOnly
    | .accessor _ (some setter) =>
      let _ ← invoke setter (.object ref) [v]
      return .done
    | .accessor _ none => return .readOnly
    | .unmade =>
      modify (·.put ref key
        { slot := .value v true, enumerable := false, configurable := false })
      return .done
  | none =>
    match ← read (·.inherited? ref key) with
    | some (.value _ false) | some (.accessor _ none) => return .readOnly
    | some (.accessor _ (some setter)) =>
      let _ ← invoke setter (.object ref) [v]
      return .done
    | _ => add ref key v

/-- Removes a member of an object; says whether it is gone. -/
def remove (ref : Nat) (key : Key) : Action Bool := do
  match ← read (·.own? ref key) with
  | none => return true
  | some p =>
    if p.configurable then
      modify (·.modifyObject ref (·.drop key))
      return true
    else return false

end Action

end EggLang.Script
