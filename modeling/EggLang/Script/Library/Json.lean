import EggLang.Script.Library.Array

/-!
# JSON texts in scripts

Reading a JSON text into objects, and writing values as JSON texts. The methods of objects and a
given function can change what is written.
-/

namespace EggLang.Script.Library

open EggLang.Script.Action

/-! ## Reading -/

inductive JsonTree where
  | null
  | bool (b : Bool)
  | number (x : Numeric)
  | string (u : Units)
  | array (items : List JsonTree)
  | object (members : List (Units × JsonTree))
  deriving Inhabited

namespace JsonTree

/-- Whether a character is white space between the parts of a JSON text. -/
def isGap (c : Char) : Bool := c = ' ' || c = '\t' || c = '\n' || c = '\r'

/-- A text without the white space at its front. -/
def skipGap (cs : List Char) : List Char := cs.dropWhile isGap

/-- The units of a string after its opening quote, and the rest behind the closing one. -/
def stringRest? : (skip : Nat) → List Char → Option (Units × List Char)
  | _, [] => none
  | skip + 1, _ :: rest => stringRest? skip rest
  | 0, c :: rest =>
    if c = '"' then some ([], rest)
    else if c.toNat < 32 then none
    else if c = '\\' then
      match rest with
      | 'u' :: more =>
        let digits := more.take 4
        if digits.length = 4 && digits.all (Reading.isDigitOf 16) then
          (stringRest? 5 rest).map fun (u, r) => ((Reading.valueOf 16 digits).toUInt16 :: u, r)
        else none
      | e :: _ =>
        match escapes.lookup e with
        | some n => (stringRest? 1 rest).map fun (u, r) => (n :: u, r)
        | none => none
      | [] => none
    else (stringRest? 0 rest).map fun (u, r) => (Units.ofChar c ++ u, r)
where
  /-- What may stand behind a backslash. -/
  escapes : List (Char × UInt16) :=
    [('"', 34), ('\\', 92), ('/', 47), ('b', 8), ('f', 12), ('n', 10), ('r', 13), ('t', 9)]

def number? (cs : List Char) : Option (Numeric × List Char) := do
  let (negative, body) := match cs with
    | '-' :: rest => (true, rest)
    | rest => (false, rest)
  let whole := body.takeWhile Char.isDigit
  if whole.isEmpty || (whole.length != 1 && whole.head? = some '0') then none
  let rest := body.drop whole.length
  let (fraction, rest) ← match rest with
    | '.' :: more =>
      let ds := more.takeWhile Char.isDigit
      if ds.isEmpty then none else some (ds, more.drop ds.length)
    | rest => some ([], rest)
  let (exponent, rest) ← match rest with
    | e :: more =>
      if e = 'e' || e = 'E' then
        let (minus, digits) := Reading.unsigned more
        let ds := digits.takeWhile Char.isDigit
        if ds.isEmpty then none
        else
          let n : Int := min (Reading.valueOf 10 ds) 100000
          some (if minus then -n else n, digits.drop ds.length)
      else some (0, rest)
    | [] => some (0, rest)
  let x := Binary64.ofDecimal negative (Reading.valueOf 10 (whole ++ fraction))
    (exponent - fraction.length)
  return (.ofBinary64 x, rest)

mutual

def value? : (fuel : Nat) → List Char → Option (JsonTree × List Char)
  | 0, _ => none
  | fuel + 1, cs =>
    match skipGap cs with
    | '"' :: rest => (stringRest? 0 rest).map fun (u, r) => (.string u, r)
    | '[' :: rest =>
      match skipGap rest with
      | ']' :: rest => some (.array [], rest)
      | rest => items? fuel rest []
    | '\x7b' :: rest =>
      match skipGap rest with
      | '\x7d' :: rest => some (.object [], rest)
      | rest => members? fuel rest []
    | 't' :: 'r' :: 'u' :: 'e' :: rest => some (.bool true, rest)
    | 'f' :: 'a' :: 'l' :: 's' :: 'e' :: rest => some (.bool false, rest)
    | 'n' :: 'u' :: 'l' :: 'l' :: rest => some (.null, rest)
    | rest => (number? rest).map fun (x, r) => (.number x, r)

/-- Reads the items of an array; those before are given, the last one first. -/
def items? : (fuel : Nat) → List Char → List JsonTree → Option (JsonTree × List Char)
  | 0, _, _ => none
  | fuel + 1, cs, done => do
    let (v, rest) ← value? fuel cs
    match skipGap rest with
    | ',' :: rest => items? fuel rest (v :: done)
    | ']' :: rest => some (.array (v :: done).reverse, rest)
    | _ => none

/-- Reads the members of an object; those before are given, the last one first. -/
def members? : (fuel : Nat) → List Char → List (Units × JsonTree) →
    Option (JsonTree × List Char)
  | 0, _, _ => none
  | fuel + 1, cs, done => do
    match skipGap cs with
    | '"' :: rest =>
      let (name, rest) ← stringRest? 0 rest
      match skipGap rest with
      | ':' :: rest =>
        let (v, rest) ← value? fuel rest
        match skipGap rest with
        | ',' :: rest => members? fuel rest ((name, v) :: done)
        | '\x7d' :: rest => some (.object ((name, v) :: done).reverse, rest)
        | _ => none
      | _ => none
    | _ => none

end

def ofChars? (cs : List Char) : Option JsonTree := do
  let (tree, rest) ← value? (2 * cs.length + 2) cs
  if (skipGap rest).isEmpty then some tree else none

mutual

def make : JsonTree → Action Value
  | .null => pure .null
  | .bool b => pure (.bool b)
  | .number x => pure (.number x)
  | .string u => pure (.string u)
  | .array items => do
    let vs ← makeAll items
    allocArray vs
  | .object members => do
    let ref ← alloc { proto := some Intrinsic.objectPrototype.ref }
    makeMembers ref members
    return .object ref

def makeAll : List JsonTree → Action (List Value)
  | [] => pure []
  | t :: rest => do
    let v ← make t
    let vs ← makeAll rest
    return v :: vs

def makeMembers (ref : Nat) : List (Units × JsonTree) → Action Unit
  | [] => pure ()
  | (name, t) :: rest => do
    let v ← make t
    modify (·.put ref (.ofUnits name) (.plain v))
    makeMembers ref rest

end

end JsonTree

/-- Lets a function change a value that was read, its parts first. -/
def revive (f : Nat) : (fuel : Nat) → (holder : Nat) → Key → Action Value
  | 0, holder, key => get holder key
  | fuel + 1, holder, key => do
    let v ← get holder key
    match v with
    | .object ref =>
      let keys ← enumerableNames ref
      each (fun k => do
        match ← revive f fuel ref k with
        | .undefined =>
          let _ ← remove ref k
        | x => modify (·.put ref k (.plain x))) keys
    | _ => pure ()
    invoke f (.object holder) [key.toValue, v]

/-! ## Writing -/

def quotedUnit (u : UInt16) : Units :=
  match u.toNat with
  | 34 => Units.ofString "\\\""
  | 92 => Units.ofString "\\\\"
  | 8 => Units.ofString "\\b"
  | 12 => Units.ofString "\\f"
  | 10 => Units.ofString "\\n"
  | 13 => Units.ofString "\\r"
  | 9 => Units.ofString "\\t"
  | n => if n < 32 then byNumber n else [u]
where
  /-- A unit written with its number. -/
  byNumber (n : Nat) : Units :=
    Units.ofString "\\u" ++ (Bytes.hex n 4).map UInt8.toUInt16

/-- The units of a JSON string; halves of pairs that stand alone are written with their
numbers. -/
def quotedRest : Units → Units
  | [] => []
  | [u] => one u
  | u :: v :: rest =>
    if Units.isHigh u && Units.isLow v then u :: v :: quotedRest rest
    else one u ++ quotedRest (v :: rest)
where
  /-- A unit without partner. -/
  one (u : UInt16) : Units :=
    if Units.isHigh u || Units.isLow u then quotedUnit.byNumber u.toNat else quotedUnit u

def quoted (u : Units) : Units := [34] ++ quotedRest u ++ [34]

/-- How values are written. -/
structure JsonStyle where
  /-- A function that changes values. -/
  replacer : Option Nat := none
  /-- The names of the members that are written. -/
  names : Option (List Key) := none
  /-- What lines are indented by. -/
  gap : Units := []

/-- Parts of an array or object, on lines of their own if there is indentation. -/
def jsonBlock (style : JsonStyle) (indent : Units) (opening closing : UInt16)
    (parts : List Units) : Units :=
  if parts.isEmpty then [opening, closing]
  else if style.gap.isEmpty then [opening] ++ joined [44] parts ++ [closing]
  else
    let inner := 10 :: (indent ++ style.gap)
    [opening] ++ inner ++ joined ([44] ++ inner) parts ++ [10] ++ indent ++ [closing]

/-- The primitive value in an object that holds one. -/
def unboxed (v : Value) : Action Value := do
  match v with
  | .object ref =>
    match ← read fun (s : Store) => (s.object ref).kind with
    | .boxed (.number _) => return .number (← toNumber v)
    | .boxed (.string _) => return .string (← toText v)
    | .boxed (.bool b) => return .bool b
    | _ => return v
  | v => return v

/-- The JSON text of a member of a value, nothing if it has none. The objects around it are
given. -/
def jsonText (style : JsonStyle) : (fuel : Nat) → (around : List Nat) → (indent : Units) →
    (holder : Value) → Key → Value → Action (Option Units)
  | 0, _, _, _, _, _ => fail "Converting circular structure to JSON"
  | fuel + 1, around, indent, holder, key, v => do
    let v ← match v with
      | .object ref => do
        match ← callable? (← get ref (.ofString "toJSON")) with
        | some f => invoke f v [key.toValue]
        | none => pure v
      | v => pure v
    let v ← match style.replacer with
      | some f => invoke f holder [key.toValue, v]
      | none => pure v
    match ← unboxed v with
    | .null => return some (Units.ofString "null")
    | .bool b => return some (boolText b)
    | .number x => return some (if x.isFinite then x.text else Units.ofString "null")
    | .string u => return some (quoted u)
    | .undefined | .symbol _ => return none
    | .object ref =>
      if ← read (·.isCallable (.object ref)) then return none
      if around.contains ref then fail "Converting circular structure to JSON"
      let inner := indent ++ style.gap
      if ← isArray (.object ref) then
        let n ← lengthOf ref
        let parts ← mapEach (fun i => do
          let item ← get ref (.ofNat i)
          let text ← jsonText style fuel (ref :: around) inner (.object ref) (.ofNat i) item
          return text.getD (Units.ofString "null")) (List.range n)
        return some (jsonBlock style indent 91 93 parts)
      else
        let keys ← match style.names with
          | some names => pure names
          | none => enumerableNames ref
        let parts ← mapEach (fun k => do
          let item ← get ref k
          let text ← jsonText style fuel (ref :: around) inner (.object ref) k item
          let name ← keyText k
          let separator := if style.gap.isEmpty then [58] else [58, 32]
          return text.map fun t => quoted name ++ separator ++ t) keys
        return some (jsonBlock style indent 123 125 (parts.filterMap id))

/-- How many levels of objects are written at most. -/
def jsonDepth : Nat := 10000

/-- The style that the arguments of `JSON.stringify` choose. -/
def jsonStyle (args : List Value) : Action JsonStyle := do
  let v := arg args 1
  let replacer ← callable? v
  let names ← match v with
    | .object ref =>
      if replacer.isNone && (← isArray v) then do
        let items ← elementsOf ref
        let keys ← mapEach (fun item => do
          match ← unboxed item with
          | .string u => return some (Key.ofUnits u)
          | .number x => return some (Key.ofNumeric x)
          | _ => return none) items
        pure (some (keys.filterMap id).eraseDups)
      else pure none
    | _ => pure none
  let gap ← match ← unboxed (arg args 2) with
    | .number x => pure (List.replicate (min (x.toInteger 10 0) 10).toNat 32)
    | .string u => pure (u.take 10)
    | _ => pure []
  return { replacer, names, gap }

/-- The functions of `JSON`. -/
def jsonFn (f : JsonFn) (args : List Value) : Action Value := do
  match f with
  | .parse =>
    let text ← toText (arg args 0)
    match JsonTree.ofChars? (Units.toChars text) with
    | none => failWith .syntaxError (Units.ofString "Unexpected token in JSON")
    | some tree =>
      let v ← tree.make
      match ← callable? (arg args 1) with
      | some f =>
        let ref ← alloc
          { proto := some Intrinsic.objectPrototype.ref, members := #[(.name [], .plain v)] }
        revive f jsonDepth ref (.name [])
      | none => return v
  | .stringify =>
    let style ← jsonStyle args
    let v := arg args 0
    let ref ← alloc
      { proto := some Intrinsic.objectPrototype.ref, members := #[(.name [], .plain v)] }
    match ← jsonText style jsonDepth [] [] (.object ref) (.name []) v with
    | some u => return .string u
    | none => return .undefined

end EggLang.Script.Library
