import EggLang.Script.Library.Pattern

/-!
# Maps, sets and iterators

The entries of a map or set stay in the order in which they were made. Going through them finds
also those that are made meanwhile.
-/

namespace EggLang.Script.Library

open EggLang.Script.Action

abbrev Entries := Array (Option (Value × Value))

/-- The entries of a value that is a map (or a set). -/
def entriesOf (isMap : Bool) (v : Value) : Action (Nat × Entries) := do
  let kind ← match v with
    | .object ref => read fun (s : Store) => (s.object ref).kind
    | _ => pure .plain
  match v, kind, isMap with
  | .object ref, .map entries, true | .object ref, .set entries, false => return (ref, entries)
  | _, _, _ =>
    failAbout "Method called on incompatible receiver " (← display v) ""

def placeOfKey? (entries : Entries) (key : Value) : Option Nat :=
  entries.findIdx? fun e => e.any fun (k, _) => k.same false key

/-- A key as it is kept: zero has no sign. -/
def keptKey : Value → Value
  | .number x => .number (if x.isTruthy || x.isNaN then x else .zero)
  | v => v

def modifyEntries (ref : Nat) (f : Entries → Entries) : Action Unit :=
  modify (·.modifyObject ref fun o =>
    match o.kind with
    | .map es => { o with kind := .map (f es) }
    | .set es => { o with kind := .set (f es) }
    | _ => o)

def putEntry (ref : Nat) (entries : Entries) (key v : Value) : Action Unit :=
  match placeOfKey? entries key with
  | some i => modifyEntries ref (·.modify i fun _ => some (key, v))
  | none => modifyEntries ref (·.push (some (keptKey key, v)))

/-- Calls a function for the entries from a place on, those made meanwhile included. -/
def visitEntries (isMap : Bool) (self : Value) (f : Nat) (receiver : Value) : (fuel : Nat) →
    (position : Nat) → Action Unit
  | 0, _ => pure ()
  | fuel + 1, i => do
    let (_, entries) ← entriesOf isMap self
    match entries[i]? with
    | none => return
    | some none => visitEntries isMap self f receiver fuel (i + 1)
    | some (some (k, v)) =>
      let _ ← invoke f receiver [v, k, self]
      visitEntries isMap self f receiver fuel (i + 1)

/-- How many entries a function is called for at most. -/
def visitLimit : Nat := 100000000

def collectionMethod (isMap : Bool) (f : CollectionMethod) (self : Value) (args : List Value) :
    Action Value := do
  let (ref, entries) ← entriesOf isMap self
  let key := arg args 0
  let proto := if isMap then Intrinsic.mapIteratorPrototype else .setIteratorPrototype
  match f with
  | .get =>
    match placeOfKey? entries key with
    | some i => return ((entries[i]?.join).map (·.2)).getD .undefined
    | none => return .undefined
  | .set =>
    putEntry ref entries key (arg args 1)
    return self
  | .add =>
    putEntry ref entries key (keptKey key)
    return self
  | .has => return .bool (placeOfKey? entries key).isSome
  | .delete =>
    match placeOfKey? entries key with
    | some i =>
      modifyEntries ref (·.modify i fun _ => none)
      return .bool true
    | none => return .bool false
  | .clear =>
    modifyEntries ref (·.map fun _ => none)
    return .undefined
  | .size => return .number (.ofNat (entries.toList.filter Option.isSome).length)
  | .forEach =>
    let g ← expectFunction key
    visitEntries isMap self g (arg args 1) visitLimit 0
    return .undefined
  | .keys => allocIterator (.entries ref true false) proto
  | .values => allocIterator (.entries ref false true) proto
  | .entries => allocIterator (.entries ref true true) proto

def constructCollection (isMap : Bool) (args : List Value) (target : Option Nat) :
    Action Value := do
  if target.isNone then
    fail ("Constructor " ++ (if isMap then "Map" else "Set") ++ " requires 'new'")
  let proto ← prototypeFor target (if isMap then .mapPrototype else .setPrototype)
  let ref ← alloc { kind := if isMap then .map #[] else .set #[], proto := some proto }
  match arg args 0 with
  | .undefined | .null => return .object ref
  | v =>
    let items ← valuesOf v
    each (fun item => do
      let (_, entries) ← entriesOf isMap (.object ref)
      if isMap then
        let pair ← expectObject item
        putEntry ref entries (← get pair (.ofNat 0)) (← get pair (.ofNat 1))
      else putEntry ref entries item (keptKey item)) items
    return .object ref

/-! ## Iterators -/

def iteratorResult (v : Option Value) : Action Value :=
  allocPlain [(.ofString "value", v.getD .undefined), (.ofString "done", .bool v.isNone)]

def keyedResult (keys values : Bool) (k v : Value) : Action Value := do
  let both ← if keys && values then allocArray [k, v] else pure (if keys then k else v)
  iteratorResult (some both)

/-- The next entry at a place or after it, and its place. -/
def entryFrom? (entries : Entries) (start : Nat) : Option (Nat × Value × Value) :=
  (List.range (entries.size - start)).findSome? fun d =>
    (entries[start + d]?.join).map fun e => (start + d, e)

/-- The entries of an object, none if it is no map or set. -/
def entriesIn (s : Store) (ref : Nat) : Entries :=
  match (s.object ref).kind with
  | .map es | .set es => es
  | _ => #[]

def advance (self : Value) : Action Value := do
  let ref ← expectObject self
  let kind ← read fun (s : Store) => (s.object ref).kind
  let move (course : Course) (position : Nat) : Action Unit :=
    modify (·.modifyObject ref ({ · with kind := .iterator course position }))
  match kind with
  | .iterator (.elements object keys values) i =>
    if i < (← lengthOf object) then
      move (.elements object keys values) (i + 1)
      let v ← if values then get object (.ofNat i) else pure .undefined
      keyedResult keys values (.number (.ofNat i)) v
    else
      move .done 0
      iteratorResult none
  | .iterator (.characters text) i =>
    match text.drop i with
    | [] =>
      move .done 0
      iteratorResult none
    | u :: rest =>
      match rest with
      | v :: _ =>
        if Units.isHigh u && Units.isLow v then
          move (.characters text) (i + 2)
          iteratorResult (some (.string [u, v]))
        else
          move (.characters text) (i + 1)
          iteratorResult (some (.string [u]))
      | [] =>
        move (.characters text) (i + 1)
        iteratorResult (some (.string [u]))
  | .iterator (.entries object keys values) i =>
    let entries ← read (entriesIn · object)
    match entryFrom? entries i with
    | some (place, k, v) =>
      move (.entries object keys values) (place + 1)
      keyedResult keys values k v
    | none =>
      move .done 0
      iteratorResult none
  | .iterator (.matches regex text) i =>
    match ← patternOf? (.object regex) with
    | some (_, _, _, pattern) =>
      match findFrom pattern text i with
      | some m =>
        move (.matches regex text) (if m.stop = m.start then m.stop + 1 else m.stop)
        iteratorResult (some (← matchArray pattern text m))
      | none =>
        move .done 0
        iteratorResult none
    | none => iteratorResult none
  | .iterator .done _ => iteratorResult none
  | _ => fail "Method called on incompatible receiver"

end EggLang.Script.Library
