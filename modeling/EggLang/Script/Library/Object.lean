import EggLang.Script.Environment
import EggLang.Script.Operator

/-!
# Functions about objects

Descriptions of members, the functions of `Object` and the methods that all objects have.
-/

namespace EggLang.Script.Library

open EggLang.Script.Action

/-- An argument; those that are left out are `undefined`. -/
def arg (args : List Value) (n : Nat) : Value := args[n]?.getD .undefined

/-- The prototype for what is made: that of the function a construction started with, if it has
one. -/
def prototypeFor (target : Option Nat) (standard : Intrinsic) : Action Nat := do
  match target with
  | none => return standard.ref
  | some f =>
    match ← get f prototypeKey with
    | .object proto => return proto
    | _ => return standard.ref

/-! ## Descriptions of members -/

/-- What a description says about a member. -/
structure Description where
  value : Option Value := none
  writable : Option Bool := none
  getter : Option (Option Nat) := none
  setter : Option (Option Nat) := none
  enumerable : Option Bool := none
  configurable : Option Bool := none
  deriving Inhabited

namespace Description

def isAccessor (d : Description) : Bool := d.getter.isSome || d.setter.isSome

def isData (d : Description) : Bool := d.value.isSome || d.writable.isSome

/-- The part of a description under a name, if it is there. -/
def part (ref : Nat) (name : String) : Action (Option Value) :=
  find ref (.ofString name) (.object ref)

/-- The function that a part of a description gives. -/
def accessorPart (ref : Nat) (name : String) : Action (Option (Option Nat)) := do
  match ← part ref name with
  | none => return none
  | some .undefined => return some none
  | some v =>
    match ← callable? v with
    | some f => return some (some f)
    | none =>
      fail (if name = "get" then "getter must be a function" else "setter must be a function")

def ofValue (v : Value) : Action Description := do
  match v with
  | .object ref =>
    let flag (name : String) : Action (Option Bool) := return (← part ref name).map Value.isTruthy
    let enumerable ← flag "enumerable"
    let configurable ← flag "configurable"
    let value ← part ref "value"
    let writable ← flag "writable"
    let getter ← accessorPart ref "get"
    let setter ← accessorPart ref "set"
    let d : Description := { value, writable, getter, setter, enumerable, configurable }
    if d.isAccessor && d.isData then
      fail ("Invalid property descriptor. Cannot both specify accessors and a value or "
        ++ "writable attribute")
    return d
  | v => failAbout "Property description must be an object: " (← display v) ""

/-- The member that a description makes out of what was there. -/
def apply (d : Description) (old : Option Property) : Property :=
  let enumerable := d.enumerable.getD ((old.map (·.enumerable)).getD false)
  let configurable := d.configurable.getD ((old.map (·.configurable)).getD false)
  let slot :=
    if d.isAccessor then
      match old.map (·.slot) with
      | some (.accessor g t) => Slot.accessor (d.getter.getD g) (d.setter.getD t)
      | _ => .accessor (d.getter.getD none) (d.setter.getD none)
    else
      match old.map (·.slot) with
      | some (.value v w) => .value (d.value.getD v) (d.writable.getD w)
      | some (.accessor g t) =>
        if d.isData then .value (d.value.getD .undefined) (d.writable.getD false)
        else .accessor g t
      | _ => .value (d.value.getD .undefined) (d.writable.getD false)
  { slot, enumerable, configurable }

/-- Whether a description can be applied to a member that cannot be redefined. -/
def fits (d : Description) (old : Property) : Bool :=
  let sameFlags := d.configurable != some true
    && d.enumerable.all (· = old.enumerable)
  sameFlags && match old.slot with
    | .value _ true => !d.isAccessor
    | .value v false =>
      !d.isAccessor && d.writable != some true && d.value.all (·.same true v)
    | .accessor g t => !d.isData && d.getter.all (· = g) && d.setter.all (· = t)
    | .unmade => !d.isAccessor

end Description

/-- Defines a member by a description; says whether that was possible. -/
def define (ref : Nat) (key : Key) (d : Description) : Action Bool := do
  match ← own ref key with
  | none =>
    if ← read (·.accepts ref key) then
      modify (·.put ref key (d.apply none))
      return true
    else return false
  | some old =>
    if !old.configurable && !d.fits old then return false
    let isLength := key = lengthKey && (← read (·.arrayLength? ref)).isSome
    if isLength then
      match d.value with
      | some v =>
        match lengthOf? (← toNumber v) with
        | some n =>
          let _ ← setLength ref n
        | none => failWith .rangeError (Units.ofString "Invalid array length")
      | none => pure ()
      if d.writable = some false then
        modify (·.modifyObject ref fun o =>
          match o.kind with
          | .array es n _ => { o with kind := .array es n true }
          | _ => o)
      return true
    modify (·.put ref key (d.apply (some old)))
    return true

def defineOrFail (ref : Nat) (key : Key) (d : Description) : Action Unit := do
  if ← define ref key d then return
  else failAbout "Cannot redefine property: " (← keyText key) ""

def describe (p : Property) : Action Value :=
  let flags : List (Key × Value) :=
    [(.ofString "enumerable", .bool p.enumerable), (.ofString "configurable", .bool p.configurable)]
  let ofFunction (f : Option Nat) : Value := (f.map Value.object).getD .undefined
  match p.slot with
  | .value v w => allocPlain ([(.ofString "value", v), (.ofString "writable", .bool w)] ++ flags)
  | .accessor g t =>
    allocPlain ([(.ofString "get", ofFunction g), (.ofString "set", ofFunction t)] ++ flags)
  | .unmade => pure .undefined

/-- The description of a member of an object, `undefined` if it has none. -/
def describeMember (ref : Nat) (key : Key) : Action Value := do
  match ← own ref key with
  | some p => describe p
  | none => return .undefined

/-! ## The functions of `Object` -/

def keysOf (ref : Nat) : Action (List Key) := read fun (s : Store) => (s.object ref).keys

/-- The names of the enumerable members that an object itself has. -/
def enumerableNames (ref : Nat) : Action (List Key) := do
  let keys ← keysOf ref
  read fun (s : Store) => keys.filter fun k =>
    !k.isSymbol && ((s.own? ref k).map (·.enumerable)).getD false

/-- Takes away freedom from all members of an object. -/
def restrict (ref : Nat) (readOnly : Bool) : Action Unit := do
  modify (·.modifyObject ref ({ · with isExtensible := false }))
  let keys ← keysOf ref
  each (fun key => do
    match ← own ref key with
    | some p =>
      if key = lengthKey && (← read (·.arrayLength? ref)).isSome then pure ()
      else
        let slot := match p.slot with
          | .value v w => Slot.value v (w && !readOnly)
          | slot => slot
        modify (·.put ref key { p with slot, configurable := false })
    | none => pure ()) keys
  if readOnly then
    modify (·.modifyObject ref fun o =>
      match o.kind with
      | .array es n _ => { o with kind := .array es n true }
      | _ => o)

/-- Whether all members of an object are without freedom. -/
def isRestricted (ref : Nat) (readOnly : Bool) : Action Bool := do
  let keys ← keysOf ref
  read fun (s : Store) => !(s.object ref).isExtensible && keys.all fun k =>
    match s.own? ref k with
    | some p => !p.configurable && match p.slot with
      | .value _ w => !(readOnly && w)
      | _ => true
    | none => true

/-- Sets the prototype of an object; says whether that was possible. -/
def setPrototype (ref : Nat) (proto : Option Nat) : Action Bool := do
  let old ← read fun (s : Store) => (s.object ref).proto
  if old = proto then return true
  let allowed ← read fun (s : Store) => (s.object ref).isExtensible
    && proto.all fun p => p != ref && !(s.prototypes p).contains ref
  if allowed then
    modify (·.modifyObject ref ({ · with proto }))
    return true
  else return false

def prototypeValue (ref : Nat) : Action Value :=
  return ((← read fun (s : Store) => (s.object ref).proto).map Value.object).getD .null

def defineAll (ref : Nat) (v : Value) : Action Unit := do
  let props ← toObject v
  let keys ← keysOf props
  each (fun key => do
    match ← own props key with
    | some p =>
      if p.enumerable then defineOrFail ref key (← Description.ofValue (← get props key))
    | none => pure ()) keys

/-- The functions of `Object`. -/
def objectFn (f : ObjectFn) (args : List Value) : Action Value := do
  let first := arg args 0
  match f with
  | .assign =>
    let ref ← toObject first
    each (fun v => do
      match v with
      | .undefined | .null => pure ()
      | v =>
        let source ← toObject v
        let keys ← keysOf source
        each (fun key => do
          match ← own source key with
          | some p => if p.enumerable then set ref key (← get source key)
          | none => pure ()) keys) (args.drop 1)
    return .object ref
  | .create =>
    let proto ← match first with
      | .object p => pure (some p)
      | .null => pure none
      | v => failAbout "Object prototype may only be an Object or null: " (← display v) ""
    let ref ← alloc { proto }
    if arg args 1 != .undefined then defineAll ref (arg args 1)
    return .object ref
  | .defineProperties =>
    let ref ← expectObject first
    defineAll ref (arg args 1)
    return first
  | .defineProperty =>
    match first with
    | .object ref =>
      let key ← toKey (arg args 1)
      defineOrFail ref key (← Description.ofValue (arg args 2))
      return first
    | v => failAbout "Object.defineProperty called on non-object: " (← display v) ""
  | .entries =>
    let ref ← toObject first
    let pairs ← mapEach (fun k => do allocArray [k.toValue, ← get ref k]) (← enumerableNames ref)
    allocArray pairs
  | .values =>
    let ref ← toObject first
    allocArray (← mapEach (get ref) (← enumerableNames ref))
  | .keys =>
    let ref ← toObject first
    allocArray ((← enumerableNames ref).map Key.toValue)
  | .freeze | .closeOff | .preventExtensions =>
    match first with
    | .object ref =>
      if f = .preventExtensions then
        modify (·.modifyObject ref ({ · with isExtensible := false }))
      else restrict ref (f = .freeze)
    | _ => pure ()
    return first
  | .fromEntries =>
    let ref ← alloc { proto := some Intrinsic.objectPrototype.ref }
    let items ← valuesOf first
    each (fun item => do
      let pair ← expectObject item
      let key ← toKey (← get pair (.ofNat 0))
      let v ← get pair (.ofNat 1)
      modify (·.put ref key (.plain v))) items
    return .object ref
  | .getOwnPropertyDescriptor =>
    let ref ← toObject first
    describeMember ref (← toKey (arg args 1))
  | .getOwnPropertyDescriptors =>
    let ref ← toObject first
    let entries ← mapEach (fun k => do return (k, ← describeMember ref k)) (← keysOf ref)
    allocPlain entries
  | .getOwnPropertyNames =>
    let ref ← toObject first
    allocArray (((← keysOf ref).filter (!·.isSymbol)).map Key.toValue)
  | .getOwnPropertySymbols =>
    let ref ← toObject first
    allocArray (((← keysOf ref).filter Key.isSymbol).map Key.toValue)
  | .getPrototypeOf => prototypeValue (← toObject first)
  | .setPrototypeOf =>
    if first = .undefined || first = .null then
      fail "Object.setPrototypeOf called on null or undefined"
    let proto ← match arg args 1 with
      | .object p => pure (some p)
      | .null => pure none
      | v => failAbout "Object prototype may only be an Object or null: " (← display v) ""
    match first with
    | .object ref =>
      if ← setPrototype ref proto then return first
      else fail "Cannot set prototype"
    | _ => return first
  | .is => return .bool (first.same true (arg args 1))
  | .isExtensible =>
    match first with
    | .object ref => return .bool (← read fun (s : Store) => (s.object ref).isExtensible)
    | _ => return .bool false
  | .isFrozen | .isSealed =>
    match first with
    | .object ref => return .bool (← isRestricted ref (f = .isFrozen))
    | _ => return .bool true

/-! ## The methods of all objects -/

def sortName (o : Object) : String :=
  match o.kind with
  | .array .. => "Array"
  | .closure .. | .native _ | .bound .. => "Function"
  | .error => "Error"
  | .arguments .. => "Arguments"
  | .regex .. => "RegExp"
  | .boxed (.bool _) => "Boolean"
  | .boxed (.number _) => "Number"
  | .boxed (.string _) => "String"
  | _ => "Object"

def generalText (v : Value) : Action Units := do
  match v with
  | .undefined => return Units.ofString "[object Undefined]"
  | .null => return Units.ofString "[object Null]"
  | v =>
    let ref ← toObject v
    let word ← match ← get ref WellKnown.toStringTag.key with
      | .string s => pure s
      | _ => do pure (Units.ofString (sortName (← read (·.object ref))))
    return Units.ofString "[object " ++ word ++ Units.ofString "]"

def objectMethod (f : ObjectMethod) (self : Value) (args : List Value) : Action Value := do
  match f with
  | .hasOwnProperty =>
    let key ← toKey (arg args 0)
    let ref ← toObject self
    return .bool (← own ref key).isSome
  | .isPrototypeOf =>
    match arg args 0 with
    | .object ref =>
      let me ← toObject self
      return .bool ((← read (·.prototypes ref)).contains me)
    | _ => return .bool false
  | .propertyIsEnumerable =>
    let key ← toKey (arg args 0)
    let ref ← toObject self
    return .bool (((← own ref key).map (·.enumerable)).getD false)
  | .toLocaleString =>
    match ← method? self (.ofString "toString") with
    | some m => invoke m self []
    | none => failAbout "Object has no member '" (Units.ofString "toString") "'"
  | .toString => return .string (← generalText self)
  | .valueOf => return .object (← toObject self)
  | .getPrototype => prototypeValue (← toObject self)
  | .setPrototype =>
    match self with
    | .object ref =>
      let proto ← match arg args 0 with
        | .object p => pure (some (some p))
        | .null => pure (some none)
        | _ => pure none
      match proto with
      | some p => if ← setPrototype ref p then return .undefined else fail "Cyclic __proto__ value"
      | none => return .undefined
    | _ => return .undefined

/-! ## The methods of functions -/

def functionText (ref : Nat) : Action Units := do
  match ← read fun (s : Store) => (s.object ref).kind with
  | .closure f _ => return Units.ofChars f.text
  | _ =>
    let name ← toText (← get ref nameKey)
    return Units.ofString "function " ++ name ++ Units.ofString "() \x7b [native code] \x7d"

def functionMethod (f : FunctionMethod) (self : Value) (args : List Value) : Action Value := do
  match f with
  | .apply =>
    let ref ← expectFunction self
    let list ← match arg args 1 with
      | .undefined | .null => pure []
      | v => do elementsOf (← expectObject v)
    invoke ref (arg args 0) list
  | .call => invoke (← expectFunction self) (arg args 0) (args.drop 1)
  | .bind =>
    let ref ← expectFunction self
    let length ← toInteger (← get ref lengthKey)
    let name ← match ← get ref nameKey with
      | .string s => pure s
      | _ => pure []
    let proto ← read fun (s : Store) => (s.object ref).proto
    let made ← alloc
      { kind := .bound ref (arg args 0) (args.drop 1), proto
        members := functionMembers (length - (args.length - 1 : Nat)).toNat
          (Units.ofString "bound " ++ name) }
    return .object made
  | .toString =>
    match ← callable? self with
    | some ref => return .string (← functionText ref)
    | none => fail "Object is not a function"
  | .hasInstance =>
    match self with
    | .object ref =>
      if ← read (·.isCallable self) then return .bool (← isInstance (arg args 0) ref)
      else return .bool false
    | _ => return .bool false

end EggLang.Script.Library
