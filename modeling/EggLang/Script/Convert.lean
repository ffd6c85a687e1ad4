import EggLang.Script.Action
import EggLang.Script.Reading

/-!
# Conversions

How values become truth values, texts, numbers, keys and objects. An object is converted by its
own methods, so a conversion is an action. Two conversions to numbers are in use: the full one, and
one for operands of arithmetic, for which a text beyond ASCII is not a number.
-/

namespace EggLang.Script

def Value.isTruthy : Value → Bool
  | undefined | null => false
  | bool b => b
  | number x => x.isTruthy
  | string s => !s.isEmpty
  | symbol _ | object _ => true

def boolText (b : Bool) : Units := Units.ofString (if b then "true" else "false")

/-- What an object is preferably converted to. -/
inductive Hint where
  | none
  | number
  | text
  deriving DecidableEq, Repr

def Hint.name : Hint → String
  | none => "default"
  | number => "number"
  | text => "string"

namespace Action

/-- The place of a function, nothing if the value cannot be called. -/
def callable? (v : Value) : Action (Option Nat) := do
  match v with
  | .object ref => if ← read (·.isCallable v) then return some ref else return none
  | _ => return none

/-- Calls a method that gives a primitive value, if there is one and it does. -/
def tryMethod (ref : Nat) (name : String) : Action (Option Value) := do
  match ← callable? (← get ref (.ofString name)) with
  | none => return none
  | some method =>
    match ← invoke method (.object ref) [] with
    | .object _ => return none
    | v => return some v

/-- The first primitive value that some methods give. -/
def firstOf (ref : Nat) : List String → Action Value
  | [] => fail "Could not convert object to primitive"
  | name :: rest => do
    match ← tryMethod ref name with
    | some v => return v
    | none => firstOf ref rest

def primitiveOf (hint : Hint) (ref : Nat) : Action Value := do
  match ← get ref WellKnown.toPrimitive.key with
  | .undefined | .null =>
    firstOf ref (if hint = .text then ["toString", "valueOf"] else ["valueOf", "toString"])
  | method =>
    match ← callable? method with
    | none => fail "Symbol.toPrimitive is not callable"
    | some f =>
      match ← invoke f (.object ref) [.string (Units.ofString hint.name)] with
      | .object _ => fail "Cannot convert object to primitive value"
      | v => return v

def toPrimitive (hint : Hint) : Value → Action Value
  | .object ref => primitiveOf hint ref
  | v => pure v

def primitiveText : Value → Action Units
  | .undefined => pure (Units.ofString "undefined")
  | .null => pure (Units.ofString "null")
  | .bool b => pure (boolText b)
  | .number x => pure x.text
  | .string s => pure s
  | .symbol _ => fail "Cannot convert a Symbol value to a string"
  | .object _ => pure []

def toText : Value → Action Units
  | .string s => pure s
  | .object ref => do primitiveText (← primitiveOf .text ref)
  | v => primitiveText v

/-- The text under which a value is shown: a symbol by its own text. -/
def display (v : Value) : Action Units := do
  match v with
  | .symbol id => return (← read (·.symbols[id]?.join)).getD []
  | v => toText v

/-- The number of a primitive value; a text is read as given. -/
def primitiveNumber (readText : Units → Numeric) : Value → Action Numeric
  | .undefined => pure .nan
  | .null => pure .zero
  | .bool b => pure (.int (if b then 1 else 0))
  | .number x => pure x
  | .string s => pure (readText s)
  | .symbol _ => fail "Cannot convert a Symbol value to a number"
  | .object _ => pure .nan

def toNumber : Value → Action Numeric
  | .number x => pure x
  | .object ref => do primitiveNumber Reading.toNumber (← primitiveOf .number ref)
  | v => primitiveNumber Reading.toNumber v

/-- The number that a value counts as in arithmetic. -/
def toOperand : Value → Action Numeric
  | .number x => pure x
  | .object ref => do primitiveNumber Reading.toOperand (← primitiveOf .number ref)
  | v => primitiveNumber Reading.toOperand v

/-- The integer of a value; one beyond all others where it is infinite. -/
def toInteger (v : Value) : Action Int :=
  return (← toNumber v).toInteger 9223372036854775807 (-9223372036854775808)

def toLength (v : Value) : Action Nat :=
  return (min (← toInteger v) 9007199254740991).toNat

def toKey : Value → Action Key
  | .string s => pure (.ofUnits s)
  | .number x => pure (.ofNumeric x)
  | .symbol id => pure (.symbol id)
  | .object ref => do
    match ← primitiveOf .text ref with
    | .symbol id => return .symbol id
    | v => return .ofUnits (← primitiveText v)
  | v => do return .ofUnits (← primitiveText v)

def keyText (key : Key) : Action Units :=
  match key.text? with
  | some s => pure s
  | none => display key.toValue

def toObject : Value → Action Nat
  | .undefined | .null => fail "Cannot convert undefined or null to object"
  | .object ref => pure ref
  | v => alloc { kind := .boxed v, proto := homeOf? v }

/-- The object that a value is; it fails for others. -/
def expectObject (v : Value) : Action Nat := do
  match v with
  | .object ref => return ref
  | v => failAbout "Value is not an object: " (← display v) ""

/-- The function that a value is; it fails for others. -/
def expectFunction (v : Value) : Action Nat := do
  let ref ← expectObject v
  if ← read (·.isCallable v) then return ref
  else failAbout "Value is not callable: " (← toText v) ""

/-- Assigns to a member of an object, where that is possible. -/
def assign (ref : Nat) (key : Key) (v : Value) : Action Unit := do
  let _ ← assignWith toNumber ref key v

/-- Assigns to a member of an object, and fails where that is not possible. -/
def set (ref : Nat) (key : Key) (v : Value) : Action Unit := do
  match ← assignWith toNumber ref key v with
  | .done => return
  | .readOnly =>
    failAbout "Cannot assign to read only property '" (← keyText key) "'"
  | .notExtensible =>
    failAbout "Cannot add property " (← keyText key) ", object is not extensible"

/-- Removes a member of an object, and fails where that is not possible. -/
def removeOrFail (ref : Nat) (key : Key) : Action Unit := do
  if ← remove ref key then return
  else failAbout "Cannot delete property '" (← keyText key) "'"

def lengthOf (ref : Nat) : Action Nat := do
  match ← read (·.arrayLength? ref) with
  | some (n, _) => return n
  | none => toLength (← get ref lengthKey)

/-- A method of a value, nothing if it has none. -/
def method? (v : Value) (key : Key) : Action (Option Nat) := do
  match (← member v key).getD .undefined with
  | .undefined | .null => return none
  | f => some <$> expectFunction f

/-! ## Going through values -/

/-- Whether arrays are gone through without any code of the script. -/
def Store.iteratesPlainly (s : Store) (ref : Nat) : Bool :=
  let o := s.object ref
  let isNative (holder : Nat) (key : Key) (f : Native) : Bool :=
    match (s.own? holder key).bind (·.value?) with
    | some (.object m) => match (s.object m).kind with
      | .native g => f = g
      | _ => false
    | _ => false
  o.proto = some Intrinsic.arrayPrototype.ref
    && (s.arrayLength? ref).isSome
    && (o.members.isEmpty || (o.member? WellKnown.iterator.key).isNone)
    && isNative Intrinsic.arrayPrototype.ref WellKnown.iterator.key (.array .values)
    && isNative Intrinsic.arrayIteratorPrototype.ref (.ofString "next") .next

def sourceOf (v : Value) : Action Source := do
  let plainly ← match v with
    | .object ref => read (Store.iteratesPlainly · ref)
    | _ => pure false
  match v with
  | .undefined | .null => fail "Cannot convert undefined or null to object"
  | .object ref =>
    if plainly then return .elements ref 0 else byMethod v
  | v => byMethod v
where
  /-- What the method of a value for that gives. -/
  byMethod (v : Value) : Action Source := do
    match ← method? v WellKnown.iterator.key with
    | none => fail "object is not iterable"
    | some f =>
      let it ← expectObject (← invoke f v [])
      return .iterator (.object it) (← get it (.ofString "next"))

def next (source : Source) : Action (Option (Value × Source)) := do
  match source with
  | .elements ref i =>
    if i < (← lengthOf ref) then
      return some (← get ref (.ofNat i), .elements ref (i + 1))
    else return none
  | .iterator it next =>
    let f ← expectFunction next
    let result ← expectObject (← invoke f it [])
    if (← get result (.ofString "done")).isTruthy then return none
    else return some (← get result (.ofString "value"), source)

/-- Ends the use of values some of which may be left. -/
def close (source : Source) : Action Unit := do
  match source with
  | .elements .. => return
  | .iterator it _ =>
    match ← method? it (.ofString "return") with
    | none => return
    | some f =>
      let _ ← invoke f it []

/-- Does something, and ends the use of values if that throws. -/
def closing {α : Type} (source : Source) (m : Action α) : Action α :=
  catching m fun v => do
    catching (close source) fun _ => pure ()
    raise v

def rest (source : Source) : Action (List Value) := fun k h s => .collect source [] k h s

/-- All values of a value that can be gone through. -/
def valuesOf (v : Value) : Action (List Value) := do
  rest (← sourceOf v)

def elementsOf (ref : Nat) : Action (List Value) := do
  let n ← lengthOf ref
  mapEach (fun i => get ref (.ofNat i)) (List.range n)

end Action

end EggLang.Script
