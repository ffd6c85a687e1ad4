import EggLang.Script.Library.Object

/-!
# Functions about arrays

The methods of arrays work on every object with a length. Those that call a function for the
elements leave out holes.
-/

namespace EggLang.Script.Library

open EggLang.Script.Action

def searchUp {α : Type} (f : Nat → Action (Option α)) : (count start : Nat) → Action (Option α)
  | 0, _ => pure none
  | n + 1, i => do
    match ← f i with
    | some a => return some a
    | none => searchUp f n (i + 1)

def searchDown {α : Type} (f : Nat → Action (Option α)) : (stop : Nat) → Action (Option α)
  | 0 => pure none
  | n + 1 => do
    match ← f n with
    | some a => return some a
    | none => searchDown f n

/-- Does something for each place below a number, upward. -/
def upTo (f : Nat → Action Unit) (n : Nat) : Action Unit := do
  let _ ← searchUp (α := Unit) (fun i => do
    f i
    return none) n 0

def foldUp {α : Type} (f : α → Nat → Action α) : (count start : Nat) → α → Action α
  | 0, _, a => pure a
  | n + 1, i, a => do
    let b ← f a i
    foldUp f n (i + 1) b

/-- A place given from the start or, if it is negative, from the end. -/
def relative (n : Int) (length : Nat) : Nat :=
  if 0 ≤ n then min n.toNat length else (length + n).toNat

/-- A place given by an argument, or a standard one. -/
def relativeArg (v : Value) (length standard : Nat) : Action Nat := do
  match v with
  | .undefined => return standard
  | v => return relative (← toInteger v) length

/-- An element, nothing if there is a hole. -/
def element? (ref i : Nat) : Action (Option Value) := find ref (.ofNat i) (.object ref)

def callFor (f : Nat) (self : Value) (ref i : Nat) (v : Value) : Action Value :=
  invoke f self [v, .number (.ofNat i), .object ref]

/-- Sets an element, or removes it where there is a hole. -/
def setOrRemove (ref i : Nat) (v : Option Value) : Action Unit :=
  match v with
  | some v => set ref (.ofNat i) v
  | none => removeOrFail ref (.ofNat i)

def putLength (ref n : Nat) : Action Unit := set ref lengthKey (.number (.ofNat n))

/-- Whether arrays that are joined to others give their elements. -/
def isSpreadable (v : Value) : Action Bool := do
  match v with
  | .object ref =>
    match ← get ref WellKnown.isConcatSpreadable.key with
    | .undefined => return (← read (·.arrayLength? ref)).isSome
    | x => return x.isTruthy
  | _ => return false

/-- The elements of an object from one place to another, with holes. -/
def sparse (ref start count : Nat) : Action (List (Option Value)) := do
  let found ← foldUp (fun acc i => do return (← element? ref i) :: acc) count start []
  return found.reverse

def isArray (v : Value) : Action Bool := do
  match v with
  | .object ref => return (← read (·.arrayLength? ref)).isSome
  | _ => return false

/-! ## Sorting -/

/-- The order of two elements: texts before later texts unless a function decides, and `undefined`
last. -/
def sortsBefore (f : Option Nat) (a b : Value) : Action Bool := do
  match a, b with
  | .undefined, _ => return false
  | _, .undefined => return true
  | a, b =>
    match f with
    | some f =>
      let x ← toOperand (← invoke f .undefined [a, b])
      return x.lt .zero || (!x.isTruthy && x.isSigned)
    | none => return textBefore (← toText a) (← toText b)

/-- Two sorted lists as one; of equal elements those of the first list come first. -/
def merge (before : Value → Value → Action Bool) : (fuel : Nat) → List Value → List Value →
    List Value → Action (List Value)
  | 0, a, b, done => pure (done.reverse ++ a ++ b)
  | _, [], b, done => pure (done.reverse ++ b)
  | _, a, [], done => pure (done.reverse ++ a)
  | fuel + 1, x :: a, y :: b, done => do
    if ← before y x then merge before fuel (x :: a) b (y :: done)
    else merge before fuel a (y :: b) (x :: done)

def sortList (before : Value → Value → Action Bool) : (fuel : Nat) → List Value →
    Action (List Value)
  | 0, vs => pure vs
  | fuel + 1, vs => do
    if vs.length ≤ 1 then return vs
    let half := vs.length / 2
    let a ← sortList before fuel (vs.take half)
    let b ← sortList before fuel (vs.drop half)
    merge before vs.length a b []

/-! ## Flattening -/

/-- Elements with those of arrays among them in place of the arrays, down to a depth. -/
def flatten : (depth : Nat) → List Value → Action (List Value)
  | 0, vs => pure vs
  | depth + 1, vs => do
    let parts ← mapEach (fun v => do
      match v with
      | .object ref =>
        if ← isArray v then
          flatten depth ((← sparse ref 0 (← lengthOf ref)).filterMap id)
        else return [v]
      | v => return [v]) vs
    return parts.flatten

/-- The text of elements with a separator between them. -/
def joined (separator : Units) (texts : List Units) : Units :=
  match texts with
  | [] => []
  | t :: rest => t ++ rest.flatMap (separator ++ ·)

def elementText (v : Value) : Action Units :=
  match v with
  | .undefined | .null => pure []
  | v => toText v

def allocIterator (course : Course) (proto : Intrinsic) : Action Value := do
  return .object (← alloc { kind := .iterator course 0, proto := some proto.ref })

def arrayMethod (f : ArrayMethod) (self : Value) (args : List Value) : Action Value := do
  let ref ← toObject self
  let first := arg args 0
  let second := arg args 1
  match f with
  | .at =>
    let n ← lengthOf ref
    let i ← toInteger first
    let i := if 0 ≤ i then i else i + n
    if 0 ≤ i && i < n then get ref (.ofNat i.toNat) else return .undefined
  | .concat =>
    let parts ← mapEach (fun v => do
      match v with
      | .object r =>
        if ← isSpreadable v then sparse r 0 (← lengthOf r) else return [some v]
      | v => return [some v]) (.object ref :: args)
    allocSparse parts.flatten.toArray
  | .copyWithin =>
    let n ← lengthOf ref
    let target ← relativeArg first n 0
    let start ← relativeArg second n 0
    let stop ← relativeArg (arg args 2) n n
    let moved ← sparse ref start (min (stop - start) (n - target))
    let _ ← foldUp (fun (vs : List (Option Value)) i => do
      setOrRemove ref (target + i) (vs.head?.join)
      return vs.tail) moved.length 0 moved
    return .object ref
  | .entries => allocIterator (.elements ref true true) .arrayIteratorPrototype
  | .keys => allocIterator (.elements ref true false) .arrayIteratorPrototype
  | .values => allocIterator (.elements ref false true) .arrayIteratorPrototype
  | .every =>
    let n ← lengthOf ref
    let g ← expectFunction first
    let failed ← searchUp (fun i => do
      match ← element? ref i with
      | some v =>
        if (← callFor g second ref i v).isTruthy then return none else return some ()
      | none => return none) n 0
    return .bool failed.isNone
  | .some =>
    let n ← lengthOf ref
    let g ← expectFunction first
    let found ← searchUp (fun i => do
      match ← element? ref i with
      | some v =>
        if (← callFor g second ref i v).isTruthy then return some () else return none
      | none => return none) n 0
    return .bool found.isSome
  | .fill =>
    let n ← lengthOf ref
    let start ← relativeArg second n 0
    let stop ← relativeArg (arg args 2) n n
    upTo (fun i => set ref (.ofNat (start + i)) first) (stop - start)
    return .object ref
  | .filter =>
    let n ← lengthOf ref
    let g ← expectFunction first
    let kept ← foldUp (fun (acc : List Value) i => do
      match ← element? ref i with
      | some v => if (← callFor g second ref i v).isTruthy then return v :: acc else return acc
      | none => return acc) n 0 []
    allocArray kept.reverse
  | .find | .findIndex =>
    let n ← lengthOf ref
    let g ← expectFunction first
    let found ← searchUp (fun i => do
      let v ← get ref (.ofNat i)
      if (← callFor g second ref i v).isTruthy then return some (i, v) else return none) n 0
    return pick found
  | .findLast | .findLastIndex =>
    let n ← lengthOf ref
    let g ← expectFunction first
    let found ← searchDown (fun i => do
      let v ← get ref (.ofNat i)
      if (← callFor g second ref i v).isTruthy then return some (i, v) else return none) n
    return pick found
  | .flat =>
    let n ← lengthOf ref
    let depth ← if first = .undefined then pure 1 else toInteger first
    let vs := (← sparse ref 0 n).filterMap id
    allocArray (← flatten (min depth 1000).toNat vs)
  | .flatMap =>
    let n ← lengthOf ref
    let g ← expectFunction first
    let mapped ← foldUp (fun (acc : List Value) i => do
      match ← element? ref i with
      | some v => return (← callFor g second ref i v) :: acc
      | none => return acc) n 0 []
    allocArray (← flatten 1 mapped.reverse)
  | .forEach =>
    let n ← lengthOf ref
    let g ← expectFunction first
    upTo (fun i => do
      match ← element? ref i with
      | some v =>
        let _ ← callFor g second ref i v
      | none => pure ()) n
    return .undefined
  | .includes =>
    let n ← lengthOf ref
    let start ← relativeArg second n 0
    let found ← searchUp (fun i => do
      if (← get ref (.ofNat i)).same false first then return some () else return none)
      (n - start) start
    return .bool found.isSome
  | .indexOf =>
    let n ← lengthOf ref
    let start ← relativeArg second n 0
    let found ← searchUp (fun i => do
      match ← element? ref i with
      | some v => if v.strictEquals first then return some i else return none
      | none => return none) (n - start) start
    return place found
  | .lastIndexOf =>
    let n ← lengthOf ref
    let stop ← if args.length < 2 then pure n else do
      let i ← toInteger second
      pure (if 0 ≤ i then min (i.toNat + 1) n else (n + i + 1).toNat)
    let found ← searchDown (fun i => do
      match ← element? ref i with
      | some v => if v.strictEquals first then return some i else return none
      | none => return none) stop
    return place found
  | .join =>
    let n ← lengthOf ref
    let separator ← if first = .undefined then pure (Units.ofString ",") else toText first
    let texts ← foldUp (fun (acc : List Units) i => do
      return (← elementText (← get ref (.ofNat i))) :: acc) n 0 []
    return .string (joined separator texts.reverse)
  | .map =>
    let n ← lengthOf ref
    let g ← expectFunction first
    let mapped ← foldUp (fun (acc : List (Option Value)) i => do
      match ← element? ref i with
      | some v => return some (← callFor g second ref i v) :: acc
      | none => return none :: acc) n 0 []
    allocSparse mapped.reverse.toArray
  | .pop =>
    let n ← lengthOf ref
    if n = 0 then
      putLength ref 0
      return .undefined
    let v ← get ref (.ofNat (n - 1))
    removeOrFail ref (.ofNat (n - 1))
    putLength ref (n - 1)
    return v
  | .push =>
    let n ← lengthOf ref
    let stop ← foldUp (fun (vs : List Value) i => do
      set ref (.ofNat i) (vs.headD .undefined)
      return vs.tail) args.length n args
    putLength ref (n + args.length + stop.length)
    return .number (.ofNat (n + args.length))
  | .reduce =>
    let n ← lengthOf ref
    let g ← expectFunction first
    let start := if args.length < 2 then none else some second
    let total ← foldUp (fun (acc : Option Value) i => step g ref acc i) n 0 start
    match total with
    | some v => return v
    | none => fail "No initial value"
  | .reduceRight =>
    let n ← lengthOf ref
    let g ← expectFunction first
    let start := if args.length < 2 then none else some second
    let total ← foldUp (fun (acc : Option Value) i => step g ref acc (n - 1 - i)) n 0 start
    match total with
    | some v => return v
    | none => fail "No initial value"
  | .reverse =>
    let n ← lengthOf ref
    let vs ← sparse ref 0 n
    let _ ← foldUp (fun (vs : List (Option Value)) i => do
      setOrRemove ref i (vs.head?.join)
      return vs.tail) n 0 vs.reverse
    return .object ref
  | .shift =>
    let n ← lengthOf ref
    if n = 0 then
      putLength ref 0
      return .undefined
    let v ← get ref (.ofNat 0)
    let vs ← sparse ref 1 (n - 1)
    let _ ← foldUp (fun (vs : List (Option Value)) i => do
      setOrRemove ref i (vs.head?.join)
      return vs.tail) (n - 1) 0 vs
    removeOrFail ref (.ofNat (n - 1))
    putLength ref (n - 1)
    return v
  | .unshift =>
    let n ← lengthOf ref
    let vs ← sparse ref 0 n
    let all := args.map some ++ vs
    let _ ← foldUp (fun (vs : List (Option Value)) i => do
      setOrRemove ref i (vs.head?.join)
      return vs.tail) all.length 0 all
    putLength ref all.length
    return .number (.ofNat all.length)
  | .slice =>
    let n ← lengthOf ref
    let start ← relativeArg first n 0
    let stop ← relativeArg second n n
    allocSparse (← sparse ref start (stop - start)).toArray
  | .sort =>
    let g ← match first with
      | .undefined => pure none
      | v => do
        match ← callable? v with
        | some g => pure (some g)
        | none => fail "The comparison function must be either a function or undefined"
    let n ← lengthOf ref
    let vs := (← sparse ref 0 n).filterMap id
    let sorted ← sortList (sortsBefore g) vs.length vs
    let padded := sorted.map some ++ List.replicate (n - sorted.length) none
    let _ ← foldUp (fun (vs : List (Option Value)) i => do
      setOrRemove ref i (vs.head?.join)
      return vs.tail) n 0 padded
    return .object ref
  | .splice =>
    let n ← lengthOf ref
    let start ← relativeArg first n 0
    let count ← match args.length with
      | 0 => pure 0
      | 1 => pure (n - start)
      | _ => do pure (min (← toInteger second).toNat (n - start))
    let removed ← sparse ref start count
    let rest ← sparse ref (start + count) (n - start - count)
    let added := (args.drop 2).map some ++ rest
    let _ ← foldUp (fun (vs : List (Option Value)) i => do
      setOrRemove ref i (vs.head?.join)
      return vs.tail) added.length start added
    let _ ← searchDown (fun i => do
      if start + added.length ≤ i then
        removeOrFail ref (.ofNat i)
        return none
      else return some ()) n
    putLength ref (start + added.length)
    allocSparse removed.toArray
  | .toString =>
    match ← callable? (← get ref (.ofString "join")) with
    | some g => invoke g (.object ref) []
    | none => return .string (← generalText (.object ref))
  | .toLocaleString =>
    let n ← lengthOf ref
    let texts ← foldUp (fun (acc : List Units) i => do
      match ← get ref (.ofNat i) with
      | .undefined | .null => return [] :: acc
      | v =>
        match ← method? v (.ofString "toLocaleString") with
        | some g => return (← toText (← invoke g v [])) :: acc
        | none => return (← toText v) :: acc) n 0 []
    return .string (joined (Units.ofString ",") texts.reverse)
where
  /-- The value or the place that a search found. -/
  pick (found : Option (Nat × Value)) : Value :=
    if f = .findIndex || f = .findLastIndex then place (found.map (·.1))
    else (found.map (·.2)).getD .undefined
  /-- A place that a search found, or -1. -/
  place (found : Option Nat) : Value := .number (.ofInt ((found.map Int.ofNat).getD (-1)))
  /-- One step of a reduction; without a start the first element is it. -/
  step (g ref : Nat) (acc : Option Value) (i : Nat) : Action (Option Value) := do
    match ← element? ref i, acc with
    | none, acc => return acc
    | some v, none => return some v
    | some v, some a =>
      return some (← invoke g .undefined [a, v, .number (.ofNat i), .object ref])

/-- The functions of `Array`. -/
def arrayFn (f : ArrayFn) (args : List Value) : Action Value := do
  match f with
  | .isArray => return .bool (← isArray (arg args 0))
  | .of => allocArray args
  | .from =>
    let mapper ← match arg args 1 with
      | .undefined => pure none
      | v => some <$> expectFunction v
    let v := arg args 0
    let vs ← match ← method? v WellKnown.iterator.key with
      | some _ => valuesOf v
      | none => do elementsOf (← toObject v)
    match mapper with
    | none => allocArray vs
    | some g =>
      let numbered := (List.range vs.length).zip vs
      let mapped ← mapEach (fun (i, v) => invoke g (arg args 2) [v, .number (.ofNat i)]) numbered
      allocArray mapped

/-- Makes an array as `Array` does. -/
def constructArray (args : List Value) (target : Option Nat) : Action Value := do
  let proto ← prototypeFor target .arrayPrototype
  match args with
  | [.number x] =>
    match lengthOf? x with
    | some n => return .object (← alloc { kind := .array #[] n false, proto := some proto })
    | none => failWith .rangeError (Units.ofString "Invalid array length")
  | args =>
    let elements := (args.map some).toArray
    return .object (← alloc { kind := .array elements elements.size false, proto := some proto })

end EggLang.Script.Library
