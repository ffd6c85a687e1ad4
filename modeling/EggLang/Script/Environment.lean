import EggLang.Script.Convert

/-!
# Variables, functions and what surrounds an expression

Reading and assigning names, making functions out of literals, and the scopes that blocks and calls
open. A name that no scope has is a member of the global object.
-/

namespace EggLang.Script

structure Context where
  scope : Nat
  /-- What follows when an optional access finds nothing. -/
  skip : Option (Store → Run) := none

/-- What is called. A name or a member that does not exist is an error only when the call
happens, after its arguments are known. -/
inductive Callee where
  | value (v : Value)
  | unresolved (name : String)
  | missing (key : Key)
  deriving DecidableEq, Repr

/-- How a pattern gives values to names. -/
inductive Binding where
  /-- By an assignment. -/
  | assign
  /-- As the first value of a variable of a block. -/
  | initialise
  deriving DecidableEq, Repr

/-- How a declaration gives values to names. -/
def Declaration.binding : Declaration → Binding
  | var => .assign
  | «let» | const => .initialise

/-- How the target of a loop gets its values. -/
def bindingOf (kind : Option Declaration) : Binding := (kind.map Declaration.binding).getD .assign

def mutabilityOf (changes : Bool) : Mutability := if changes then .changes else .fails

/-- A variable that has no value yet. -/
def unset (changes : Bool) : Variable := { value := none, mutability := mutabilityOf changes }

/-- Variables with further ones that are not among them yet. -/
def declareNew (names : List String) (vs : List (String × Variable)) : List (String × Variable) :=
  names.foldl (fun vs n => if (vs.lookup n).isSome then vs else vs ++ [(n, ({} : Variable))]) vs

/-- Parameters that are names, with their arguments; of two with one name the last one counts. -/
def bindParameters : List String → List Value → List (String × Variable) →
    List (String × Variable)
  | [], _, vs => vs
  | p :: ps, [], vs => bindParameters ps [] (Store.setNamed p ({} : Variable) vs)
  | p :: ps, a :: args, vs => bindParameters ps args (Store.setNamed p { value := some a } vs)

/-- For each argument the parameter that stands for it. Of two parameters with one name the last
one does. -/
def mappedNames : List String → List Value → List (Option String)
  | p :: ps, _ :: args => (if ps.contains p then none else some p) :: mappedNames ps args
  | _, _ => []

namespace Action

/-! ## Scopes -/

/-- Opens a scope and gives its place and the number of keepers so far. -/
def openScope (sc : Scope) : Action (Nat × Nat) := alter fun s =>
  let keepers := s.keepers
  let (scope, s) := s.openScope sc
  ((scope, keepers), s)

def inScope {α : Type} (sc : Scope) (m : Nat → Action α) : Action α := do
  let (scope, keepers) ← openScope sc
  let a ← m scope
  modify (·.closeScope scope keepers)
  return a

/-! ## Functions -/

/-- The text of a name in front of which `get` or `set` may stand. -/
def functionName (before : String) (key : Key) : Action Units := do
  let text ← keyText key
  let text := if key.isSymbol then Units.ofString "[" ++ text ++ Units.ofString "]" else text
  return Units.ofString before ++ text

/-- The members that a function has from the start. -/
def functionMembers (length : Nat) (name : Units) : Array (Key × Property) :=
  #[(lengthKey, .readOnly (.number (.ofNat length))), (nameKey, .readOnly (.string name))]

/-- The member for a prototype that nobody has looked at. -/
def unmadePrototype : Key × Property :=
  (prototypeKey, { slot := .unmade, enumerable := false, configurable := false })

def closure (f : Function) (scope : Nat) (name : Units) : Action Nat := do
  modify (·.keepScope)
  let members := functionMembers f.info.length name
  alloc
    { kind := .closure f scope, proto := some Intrinsic.functionPrototype.ref
      members := if f.info.kind = .normal then members.push unmadePrototype else members }

/-- Makes a function out of an expression. One that names itself can refer to itself. -/
def functionValue (f : Function) (scope : Nat) : Action Value := do
  match f.info.name with
  | none => return .object (← closure f scope [])
  | some name =>
    let (own, _) ← openScope { outer := some scope }
    let ref ← closure f own (Units.ofString name)
    modify (·.setVariable own name { value := some (.object ref), mutability := .ignored })
    return .object ref

/-- Gives a function that has no name the name of what it is assigned to. -/
def nameAfter (e : Expr) (key : Key) (v : Value) : Action Unit := do
  match v with
  | .object ref =>
    if e.isNameless then
      let name ← functionName "" key
      modify (·.put ref nameKey (.readOnly (.string name)))
  | _ => return

/-- Makes the functions that statements declare, as variables of a scope. -/
def hoist (scope : Nat) : List (String × Function) → Action Unit
  | [] => pure ()
  | (name, f) :: rest => do
    let ref ← closure f scope (Units.ofString name)
    modify (·.setVariable scope name { value := some (.object ref) })
    hoist scope rest

/-! ## The arguments of a call -/

/-- The arguments of a call as an object, made when somebody first looks at them. -/
def argumentsObject (scope : Nat) : Action Value := do
  match ← read fun (s : Store) => s.scopes[scope]?.bind (·.frame) with
  | none => return .undefined
  | some frame =>
    match frame.arguments with
    | some ref => return .object ref
    | none =>
      let kind ← read fun (s : Store) => (s.object frame.callee).kind
      let names := match kind with
        | .closure f _ => if f.info.isSimple then mappedNames f.info.parameters frame.args else []
        | _ => []
      let iterator ← get Intrinsic.arrayPrototype.ref WellKnown.iterator.key
      let indexed := (List.range frame.args.length).zip frame.args
      let ref ← alloc
        { kind := .arguments scope names, proto := some Intrinsic.objectPrototype.ref
          members := (indexed.map fun (i, v) => (Key.ofNat i, Property.plain v)).toArray ++
            #[(lengthKey, .hidden (.number (.ofNat frame.args.length))),
              (WellKnown.iterator.key, .hidden iterator),
              (.ofString "callee", .hidden (.object frame.callee))] }
      modify fun s =>
        { s.keepScope with scopes := s.scopes.modify scope fun sc =>
            { sc with frame := some { frame with arguments := some ref } } }
      return .object ref

/-! ## Names -/

/-- Fails because nothing has a name. -/
def failUndeclared {α : Type} (name : String) : Action α :=
  failWith .referenceError (Units.ofString (name ++ " is not defined"))

/-- Fails because a variable has no value yet. -/
def failUnset {α : Type} : Action α :=
  failWith .referenceError (Units.ofString "Cannot access a variable before initialization")

/-- The value of a name that is not the name of a variable with a value. -/
def resolveOther (scope : Nat) (name : String) : Action (Option Value) := do
  match ← read (·.find? scope name) with
  | some (_, some _) => failUnset
  | some (owner, none) => some <$> argumentsObject owner
  | none => find Intrinsic.global.ref (.ofString name) (.object Intrinsic.global.ref)

/-- The value of a name, nothing if no scope and no member of the global object has it. -/
def resolve (scope : Nat) (name : String) : Action (Option Value) := fun k h s =>
  match s.current? scope name with
  | some v => k (some v) s
  | none => resolveOther scope name k h s

def lookup (scope : Nat) (name : String) : Action Value := fun k h s =>
  match s.current? scope name with
  | some v => k v s
  | none =>
    resolveOther scope name
      (fun found s => match found with
        | some v => k v s
        | none => failUndeclared name k h s) h s

def assignName (scope : Nat) (name : String) (v : Value) : Action Unit := do
  match ← read (·.find? scope name) with
  | some (owner, some var) =>
    if var.value.isNone then failUnset
    match var.mutability with
    | .changes => modify (·.setVariable owner name { var with value := some v })
    | .fails => fail "Assignment to constant variable."
    | .ignored => return
  | some (owner, none) => modify (·.setVariable owner name { value := some v })
  | none => assign Intrinsic.global.ref (.ofString name) v

def initialise (scope : Nat) (name : String) (v : Value) : Action Unit := do
  match ← read (·.find? scope name) with
  | some (owner, some var) => modify (·.setVariable owner name { var with value := some v })
  | _ => assignName scope name v

def bind (b : Binding) (scope : Nat) (name : String) (v : Value) : Action Unit :=
  match b with
  | .assign => assignName scope name v
  | .initialise => initialise scope name v

/-! ## Members of values -/

/-- A member of a value; it fails for `undefined` and `null`. -/
def readMember (v : Value) (key : Key) : Action Value := do
  match v with
  | .undefined | .null => failAbout "Cannot read property '" (← keyText key) "' of undefined"
  | v => return (← member v key).getD .undefined

def calledMember (v : Value) (key : Key) : Action Callee := do
  match v with
  | .undefined | .null =>
    failAbout "Cannot read property '" (← keyText key) "' of undefined or null"
  | v =>
    match ← member v key with
    | some f => return .value f
    | none => return .missing key

/-- Assigns to a member of a value. The members of primitive values cannot be changed. -/
def writeMember (v : Value) (key : Key) (x : Value) : Action Unit :=
  match v with
  | .undefined | .null => fail "Cannot convert undefined or null to object"
  | .object ref => assign ref key x
  | _ => pure ()

def deleteMember (v : Value) (key : Key) : Action Value := do
  return .bool (← remove (← toObject v) key)

/-- Copies the enumerable members of a value to an object, apart from some. -/
def copyMembers (target : Nat) (v : Value) (except : List Key) : Action Unit := do
  match v with
  | .undefined | .null => return
  | v =>
    let ref ← toObject v
    let keys ← read fun (s : Store) => (s.object ref).keys
    each (fun key => do
      if except.contains key then return
      match ← read (·.own? ref key) with
      | some p =>
        if p.enumerable then
          let x ← get ref key
          modify (·.put target key (.plain x))
      | none => return) keys

/-- Defines the getter or the setter of a member; the other one stays. -/
def defineAccessor (ref : Nat) (key : Key) (f : Nat) (isGetter : Bool) : Action Unit := do
  let (getter, setter) := match (← read (·.own? ref key)).map (·.slot) with
    | some (.accessor g t) => (g, t)
    | _ => (none, none)
  let slot := if isGetter then Slot.accessor (some f) setter else .accessor getter (some f)
  modify (·.put ref key { slot })

def callFound (callee : Callee) (self : Value) (args : List Value) : Action Value := do
  match callee with
  | .unresolved name => failUndeclared name
  | .missing key => failAbout "Object has no member '" (← keyText key) "'"
  | .value (.object ref) =>
    if ← read (·.isCallable (.object ref)) then invoke ref self args
    else failAbout "Not a function: " (← toText (.object ref)) ""
  | .value v => failAbout "Value is not an object: " (← toText v) ""

def constructs (s : Store) (ref : Nat) : Bool :=
  match (s.object (s.boundTarget ref)).kind with
  | .closure f _ => f.info.kind = .normal
  | .native (.construct c) => c != .symbol
  | _ => false

def construct (callee : Value) (args : List Value) : Action Value := do
  let ref ← expectObject callee
  if ← read (constructs · ref) then constructWith ref args ref
  else fail "Value is not a constructor"

def allocRegex (source : Units) (flags : List Char) : Action Value := do
  match Regex.parse? source flags with
  | none => failWith .syntaxError (Units.ofString "Invalid regular expression")
  | some pattern =>
    let ref ← alloc
      { kind := .regex source flags pattern, proto := some Intrinsic.regexPrototype.ref
        members := #[(.ofString "lastIndex",
          { slot := .value (.number .zero) true, enumerable := false, configurable := false })] }
    return .object ref

/-- Makes the texts of a template, as they read and as they are written. -/
def allocTexts (texts : List Value) (written : List Units) : Action Value := do
  let raw ← allocArray (written.map .string)
  let made ← allocArray texts
  match made with
  | .object ref =>
    modify (·.put ref (.ofString "raw") (.constant raw))
    return made
  | _ => return made

/-- The receiver that the nearest call has, or the global object. -/
def receiver (scope : Nat) : Action Value :=
  return ((← read (·.frame? scope)).map (·.2.self)).getD (.object Intrinsic.global.ref)

/-- The function that a construction around started with. -/
def constructionTarget (scope : Nat) : Action Value :=
  return (((← read (·.frame? scope)).bind (·.2.target)).map Value.object).getD .undefined

end Action

end EggLang.Script
