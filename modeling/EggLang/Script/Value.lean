import EggLang.Script.Native
import EggLang.Script.Regex
import EggLang.Script.Tree

/-!
# Values of a running script

Primitive values stand for themselves; objects live in a heap and are referred to by their place
in it. Scopes hold variables and stand in a heap of their own. The functions of this module look
at objects and change them without running any code of a script.
-/

namespace EggLang.Script

inductive Value where
  | undefined
  | null
  | bool (b : Bool)
  | number (x : Numeric)
  | string (s : Units)
  | symbol (id : Nat)
  | object (ref : Nat)
  deriving DecidableEq, Repr, Inhabited

/-- The key of a member. A text that names a place in a list is always an `index`. -/
inductive Key where
  | index (n : Nat)
  | name (s : Units)
  | symbol (id : Nat)
  deriving DecidableEq, Repr, Inhabited

namespace Key

def digitsValue? (limit : Nat) : (value : Nat) → Units → Option Nat
  | n, [] => some n
  | n, u :: rest =>
    if 48 ≤ u && u ≤ 57 then
      let m := n * 10 + (u.toNat - 48)
      if m < limit then digitsValue? limit m rest else none
    else none

def indexLimit : Nat := 4294967295

/-- The place that a text names; a text with needless zeros names none. -/
def indexOf? : Units → Option Nat
  | [] => none
  | [48] => some 0
  | 48 :: _ => none
  | u => digitsValue? indexLimit 0 u

def ofUnits (s : Units) : Key :=
  match indexOf? s with
  | some n => .index n
  | none => .name s

def ofString (s : String) : Key := .ofUnits (Units.ofString s)

def ofNat (n : Nat) : Key := if n < indexLimit then .index n else .name (Numeric.ofNat n).text

def ofNumeric (x : Numeric) : Key :=
  match x with
  | .int n => if 0 ≤ n then .ofNat n.toNat else .name x.text
  | .float _ => .ofUnits x.text

/-- The text of a key that is no symbol. -/
def text? : Key → Option Units
  | index n => some (Numeric.ofNat n).text
  | name s => some s
  | symbol _ => none

def toValue : Key → Value
  | index n => .string (Numeric.ofNat n).text
  | name s => .string s
  | symbol id => .symbol id

def index? : Key → Option Nat
  | index n => some n
  | _ => none

def isSymbol : Key → Bool
  | symbol _ => true
  | _ => false

end Key

/-- The key `length`. -/
def lengthKey : Key := .ofString "length"

/-- The key `name`. -/
def nameKey : Key := .ofString "name"

/-- The key `prototype`. -/
def prototypeKey : Key := .ofString "prototype"

/-- The key `constructor`. -/
def constructorKey : Key := .ofString "constructor"

/-- The key `message`. -/
def messageKey : Key := .ofString "message"

/-- The symbols that are there before a script starts, in the order of their numbers. -/
inductive WellKnown where
  | iterator
  | hasInstance
  | toPrimitive
  | toStringTag
  | asyncIterator
  | isConcatSpreadable
  | match
  | matchAll
  | replace
  | search
  | species
  | split
  | unscopables
  deriving DecidableEq, Repr

namespace WellKnown

def table : List (WellKnown × String) :=
  [(iterator, "iterator"), (hasInstance, "hasInstance"), (toPrimitive, "toPrimitive"),
    (toStringTag, "toStringTag"), (asyncIterator, "asyncIterator"),
    (isConcatSpreadable, "isConcatSpreadable"), (.match, "match"), (matchAll, "matchAll"),
    (replace, "replace"), (search, "search"), (species, "species"), (split, "split"),
    (unscopables, "unscopables")]

def key (w : WellKnown) : Key := .symbol w.ctorIdx

end WellKnown

inductive Slot where
  | value (v : Value) (writable : Bool)
  /-- Functions that give the value and take a new one. -/
  | accessor (getter setter : Option Nat)
  /-- The prototype of a function, which is made when somebody looks at it. -/
  | unmade
  deriving DecidableEq, Repr, Inhabited

structure Property where
  slot : Slot
  enumerable : Bool := true
  configurable : Bool := true
  deriving DecidableEq, Repr, Inhabited

namespace Property

def plain (v : Value) : Property := { slot := .value v true }

/-- A member that loops do not show. -/
def hidden (v : Value) : Property := { slot := .value v true, enumerable := false }

def constant (v : Value) : Property :=
  { slot := .value v false, enumerable := false, configurable := false }

/-- A member that can be redefined only. -/
def readOnly (v : Value) : Property := { slot := .value v false, enumerable := false }

def value? (p : Property) : Option Value :=
  match p.slot with
  | .value v _ => some v
  | _ => none

def setValue (p : Property) (v : Value) : Property :=
  match p.slot with
  | .value _ w => { p with slot := .value v w }
  | _ => { p with slot := .value v true }

/-- Whether it is a member like those that assignments make. -/
def isPlain (p : Property) : Bool :=
  match p.slot with
  | .value _ w => w && p.enumerable && p.configurable
  | _ => false

end Property

inductive Course where
  /-- The elements of an object with a length: keys, values or both. -/
  | elements (object : Nat) (keys values : Bool)
  /-- The characters of a text. -/
  | characters (text : Units)
  /-- The entries of a map or set: keys, values or both. -/
  | entries (object : Nat) (keys values : Bool)
  /-- The matches of a regular expression. -/
  | matches (regex : Nat) (text : Units)
  /-- Nothing any more. -/
  | done
  deriving DecidableEq, Repr, Inhabited

inductive ObjectKind where
  | plain
  /-- An array: the elements at its front, missing where it has a hole, its length, and whether the
  length is fixed. Elements far behind the others are kept as members. -/
  | array (elements : Array (Option Value)) (length : Nat) (fixed : Bool)
  /-- A function literal and the scope it was evaluated in. -/
  | closure (f : Function) (scope : Nat)
  | native (f : Native)
  /-- A function with its receiver and its first arguments. -/
  | bound (target : Nat) (self : Value) (args : List Value)
  | error
  /-- The arguments of a call; the names are those of the parameters that stand for them. -/
  | arguments (scope : Nat) (names : List (Option String))
  | regex (source : Units) (flags : List Char) (pattern : Regex.Pattern)
  /-- A primitive value as an object. -/
  | boxed (v : Value)
  /-- The entries of a map; a deleted one leaves a gap. -/
  | map (entries : Array (Option (Value × Value)))
  | set (entries : Array (Option (Value × Value)))
  | iterator (course : Course) (position : Nat)

instance : Inhabited ObjectKind := ⟨.plain⟩

/-- An object: its sort, its prototype, and its members in the order in which they were made. -/
structure Object where
  kind : ObjectKind := .plain
  proto : Option Nat := none
  members : Array (Key × Property) := #[]
  isExtensible : Bool := true
  deriving Inhabited

/-- What an assignment to a variable does. -/
inductive Mutability where
  | changes
  /-- It fails. -/
  | fails
  /-- Nothing happens. -/
  | ignored
  deriving DecidableEq, Repr, Inhabited

/-- A variable. It has no value before its declaration is reached. -/
structure Variable where
  value : Option Value := some .undefined
  mutability : Mutability := .changes
  deriving DecidableEq, Repr, Inhabited

/-- What belongs to one call of a function. -/
structure Frame where
  callee : Nat
  self : Value
  /-- The function that a construction started with. -/
  target : Option Nat := none
  args : List Value := []
  /-- The arguments as an object, once somebody has looked at them. -/
  arguments : Option Nat := none
  deriving DecidableEq, Repr, Inhabited

/-- The variables of a block or a call, and the scope around them. -/
structure Scope where
  variables_ : List (String × Variable) := []
  outer : Option Nat := none
  frame : Option Frame := none
  deriving Repr, Inhabited

/-- The objects and scopes of a run, the texts of symbols, those symbols that are shared by name,
and the console lines written, the last one first. -/
structure Store where
  objects : Array Object := #[]
  scopes : Array Scope := #[]
  symbols : Array (Option Units) := #[]
  shared : List (Units × Nat) := []
  console : List Bytes := []
  /-- How many things were made that keep a scope. -/
  keepers : Nat := 0

/-! ## Members of one object -/

namespace Object

def find? (o : Object) (key : Key) : Option Nat := o.members.findIdx? (·.1 == key)

def member? (o : Object) (key : Key) : Option Property := (o.members.find? (·.1 == key)).map (·.2)

/-- The object with a member set, at its old place if it had one. -/
def putMember (o : Object) (key : Key) (p : Property) : Object :=
  match o.find? key with
  | some i => { o with members := o.members.modify i fun _ => (key, p) }
  | none => { o with members := o.members.push (key, p) }

/-- The object without a member. -/
def dropMember (o : Object) (key : Key) : Object :=
  { o with members := o.members.filter (·.1 != key) }

/-- How far behind the elements of an array a new one may stand to be kept with them. -/
def reach : Nat := 1024

/-- Whether an element at a place is kept with the other elements of an array. -/
def isNear (elements : Array (Option Value)) (i : Nat) : Bool := i ≤ elements.size + reach

def putElement (elements : Array (Option Value)) (i : Nat) (v : Value) : Array (Option Value) :=
  if i < elements.size then elements.set! i (some v)
  else (elements ++ Array.replicate (i - elements.size) none).push (some v)

def unitAt? (s : Units) (i : Nat) : Option Value := s[i]?.map fun u => .string [u]

/-- A member of the object itself. The arguments of a call are looked up without the parameters
that stand for them. -/
def own? (o : Object) (key : Key) : Option Property :=
  match o.kind with
  | .array elements length fixed =>
    match key.index? with
    | some i =>
      match elements[i]? with
      | some (some v) => some (.plain v)
      | _ => if o.members.isEmpty then none else o.member? key
    | none =>
      if key = lengthKey then
        some { slot := .value (.number (.ofNat length)) (!fixed), enumerable := false,
               configurable := false }
      else o.member? key
  | .boxed (.string s) =>
    match key.index? with
    | some i =>
      match unitAt? s i with
      | some v => some { slot := .value v false, configurable := false }
      | none => o.member? key
    | none =>
      if key = lengthKey then some (.constant (.number (.ofNat s.length))) else o.member? key
  | _ => o.member? key

/-- The object with a member set, whatever was there. -/
def put (o : Object) (key : Key) (p : Property) : Object :=
  match o, key with
  | { kind := .array elements length fixed, proto, members, isExtensible }, .index i =>
    let rest := members.filter (·.1 != key)
    let isPlain := p.isPlain && isNear elements i
    { kind := .array
        (if isPlain then putElement elements i (p.value?.getD .undefined)
          else if i < elements.size then elements.set! i none else elements)
        (max length (i + 1)) fixed
      proto, members := if isPlain then rest else rest.push (key, p), isExtensible }
  | o, key => o.putMember key p

/-- The object without a member of its own. -/
def drop (o : Object) (key : Key) : Object :=
  match o.kind, key.index? with
  | .array elements length fixed, some i =>
    if i < elements.size then
      { o.dropMember key with kind := .array (elements.set! i none) length fixed }
    else o.dropMember key
  | .arguments scope names, some i =>
    { o.dropMember key with kind := .arguments scope (names.set i none) }
  | _, _ => o.dropMember key

def indices (o : Object) : List Nat :=
  let near := match o.kind with
    | .array elements .. => (List.range elements.size).filter fun i => (elements[i]?.join).isSome
    | .boxed (.string s) => List.range s.length
    | _ => []
  let far := o.members.toList.filterMap (·.1.index?)
  if far.isEmpty then near else (near ++ far).mergeSort

/-- The keys of an object: places in a list first, from the least on, then names and then symbols,
each in the order in which they were made. -/
def keys (o : Object) : List Key :=
  let special := match o.kind with
    | .array .. | .boxed (.string _) => [lengthKey]
    | _ => []
  let others := o.members.toList.map (·.1)
  o.indices.map Key.ofNat ++ special
    ++ others.filter (fun k => !k.isSymbol && k.index?.isNone) ++ others.filter Key.isSymbol

def isCallable (o : Object) : Bool :=
  match o.kind with
  | .closure .. | .native _ | .bound .. => true
  | _ => false

/-- An array with a new length. Where a member cannot be removed, the array ends right behind
it. -/
def truncate (o : Object) (length : Nat) : Object :=
  match o with
  | { kind := .array elements _ fixed, proto, members, isExtensible } =>
    let held := members.toList.filterMap fun (k, p) => if p.configurable then none else k.index?
    let length := held.foldl (fun n i => max n (i + 1)) length
    { kind := .array (elements.shrink length) length fixed, proto, isExtensible
      members := members.filter fun (k, _) => k.index?.all (· < length) }
  | o => o

end Object

/-! ## The heap -/

namespace Store

def object (s : Store) (ref : Nat) : Object := s.objects[ref]?.getD {}

def alloc (s : Store) (o : Object) : Nat × Store :=
  (s.objects.size, { s with objects := s.objects.push o })

def modifyObject (s : Store) (ref : Nat) (f : Object → Object) : Store :=
  { s with objects := s.objects.modify ref f }

def isCallable (s : Store) : Value → Bool
  | .object ref => (s.object ref).isCallable
  | _ => false

def targetOf (s : Store) : (fuel ref : Nat) → Nat
  | 0, ref => ref
  | fuel + 1, ref =>
    match (s.object ref).kind with
    | .bound target _ _ => s.targetOf fuel target
    | _ => ref

def boundTarget (s : Store) (ref : Nat) : Nat := s.targetOf s.objects.size ref

def log (s : Store) (line : Bytes) : Store := { s with console := line :: s.console }

def output (s : Store) : Bytes := (s.console.reverse.map (· ++ utf8 "\n")).flatten

/-! ## Scopes -/

def openScope (s : Store) (scope : Scope) : Nat × Store :=
  (s.scopes.size, { s with scopes := s.scopes.push scope })

/-- Gives up a scope that was opened when so many keepers had been made: if it is the last one and
nothing has been made since that keeps a scope, nothing refers to it. -/
def closeScope (s : Store) (scope keepers : Nat) : Store :=
  if s.keepers = keepers && s.scopes.size = scope + 1 then { s with scopes := s.scopes.pop } else s

def keepScope (s : Store) : Store := { s with keepers := s.keepers + 1 }

/-- The nearest scope from `scope` outward that has the variable, with the variable; nothing in
place of the variable if the name stands for the arguments of the call there. Outer scopes come
before inner ones, so the search ends. -/
def find? (s : Store) (scope : Nat) (name : String) : Option (Nat × Option Variable) :=
  match s.scopes[scope]? with
  | none => none
  | some sc =>
    match sc.variables_.lookup name with
    | some v => some (scope, some v)
    | none =>
      if sc.frame.isSome && name == "arguments" then some (scope, none)
      else
        match sc.outer with
        | some outer => if outer < scope then find? s outer name else none
        | none => none
termination_by scope

/-- The value of the nearest variable of a name, nothing if it has none yet or there is no such
variable before the next call whose arguments the name stands for. -/
def current? (s : Store) (scope : Nat) (name : String) : Option Value :=
  match s.scopes[scope]? with
  | none => none
  | some sc =>
    match sc.variables_.lookup name with
    | some v => v.value
    | none =>
      if sc.frame.isSome && name == "arguments" then none
      else
        match sc.outer with
        | some outer => if outer < scope then current? s outer name else none
        | none => none
termination_by scope

/-- The nearest call from `scope` outward, with its scope. -/
def frame? (s : Store) (scope : Nat) : Option (Nat × Frame) :=
  match s.scopes[scope]? with
  | none => none
  | some sc =>
    match sc.frame with
    | some f => some (scope, f)
    | none =>
      match sc.outer with
      | some outer => if outer < scope then frame? s outer else none
      | none => none
termination_by scope

def setNamed (name : String) (v : Variable) : List (String × Variable) → List (String × Variable)
  | [] => [(name, v)]
  | (n, w) :: rest => if n == name then (n, v) :: rest else (n, w) :: setNamed name v rest

def setVariable (s : Store) (scope : Nat) (name : String) (v : Variable) : Store :=
  { s with scopes := s.scopes.modify scope fun sc =>
      { sc with variables_ := setNamed name v sc.variables_ } }

/-! ## Members -/

/-- The value of a parameter that stands for an argument. -/
def parameter? (s : Store) (o : Object) (key : Key) : Option (Nat × String × Variable) :=
  match o.kind with
  | .arguments scope names => do
    let name ← (names[← key.index?]?).join
    let sc ← s.scopes[scope]?
    let v ← sc.variables_.lookup name
    return (scope, name, v)
  | _ => none

def own? (s : Store) (ref : Nat) (key : Key) : Option Property :=
  let o := s.object ref
  match o.own? key with
  | none => none
  | some p =>
    match s.parameter? o key with
    | some (_, _, { value := some v, .. }) => some (p.setValue v)
    | _ => some p

/-- The nearest object from `ref` along the prototypes that has the member, with the member. -/
def lookup (s : Store) (key : Key) : (fuel ref : Nat) → Option (Nat × Property)
  | 0, _ => none
  | fuel + 1, ref =>
    match s.own? ref key with
    | some p => some (ref, p)
    | none =>
      match (s.object ref).proto with
      | some proto => s.lookup key fuel proto
      | none => none

def lookup? (s : Store) (ref : Nat) (key : Key) : Option (Nat × Property) :=
  s.lookup key s.objects.size ref

/-- What a member holds that an object has from its prototypes. -/
def inherited? (s : Store) (ref : Nat) (key : Key) : Option Slot :=
  ((s.object ref).proto.bind (s.lookup? · key)).map (·.2.slot)

/-- The length of an array, and whether it is fixed. -/
def arrayLength? (s : Store) (ref : Nat) : Option (Nat × Bool) :=
  match (s.object ref).kind with
  | .array _ length fixed => some (length, fixed)
  | _ => none

/-- Whether an object takes a new member. An array with a fixed length has no place behind its
end. -/
def accepts (s : Store) (ref : Nat) (key : Key) : Bool :=
  (s.object ref).isExtensible
    && match s.arrayLength? ref with
      | some (length, true) => key.index?.all (· < length)
      | _ => true

/-- Sets a member of an object, whatever was there. -/
def put (s : Store) (ref : Nat) (key : Key) (p : Property) : Store :=
  let s := match s.parameter? (s.object ref) key, p.value? with
    | some (scope, name, var), some v => s.setVariable scope name { var with value := some v }
    | _, _ => s
  s.modifyObject ref (·.put key p)

/-- The prototype objects of an object, the nearest first. -/
def chain (s : Store) : (fuel ref : Nat) → List Nat
  | 0, _ => []
  | fuel + 1, ref =>
    match (s.object ref).proto with
    | some proto => proto :: s.chain fuel proto
    | none => []

def prototypes (s : Store) (ref : Nat) : List Nat := s.chain s.objects.size ref

/-- The names of the enumerable members of an object and its prototypes, each once. A member
hides those of the same name behind it. -/
def visibleNames (s : Store) (ref : Nat) : List Units :=
  let all := (ref :: s.prototypes ref).flatMap fun r =>
    (s.object r).keys.filterMap fun k =>
      match k.text? with
      | some n => (s.own? r k).map fun p => (n, p.enumerable)
      | none => none
  let once := all.foldl
    (fun (acc : List (Units × Bool)) e => if acc.any (·.1 == e.1) then acc else e :: acc) []
  once.reverse.filterMap fun e => if e.2 then some e.1 else none

end Store

end EggLang.Script
