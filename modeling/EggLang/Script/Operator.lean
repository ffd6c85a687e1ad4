import EggLang.Script.Convert

/-!
# Operators

What the operators of scripts give. Arithmetic on two integers is exact; some operators look for
integers only after converting their operands, and convert them again if they find others.
-/

namespace EggLang.Script

/-- Whether two values are equal without any conversion. -/
def Value.strictEquals : Value → Value → Bool
  | number a, number b => a.eq b
  | a, b => a = b

/-- Whether two values are the same; `signed` tells the zeros apart. -/
def Value.same (signed : Bool) : Value → Value → Bool
  | number a, number b => a.same signed b
  | a, b => a = b

/-- The order of texts by their characters, strict. -/
def textBefore (a b : Units) : Bool := go (Units.toChars a) (Units.toChars b)
where
  /-- The order of lists of characters. -/
  go : List Char → List Char → Bool
    | _, [] => false
    | [], _ :: _ => true
    | c :: s, d :: t => c.toNat < d.toNat || (c = d && go s t)

/-- Whether a text is equal to a number. It is read as a whole number where the number is one. -/
def textEqualsNumber (text : Units) (x : Numeric) : Bool :=
  match x with
  | .int n => Reading.isPlain text && Reading.toInt? text = some n
  | .float _ => (Reading.toOperand text).eq x

/-- Whether a text denotes the fraction that a truth value counts as. -/
def textEqualsBool (text : Units) (b : Bool) : Bool :=
  match Reading.toFraction? text with
  | some x => x.eq (if b then .ofNat 1 else .zero)
  | none => false

/-- Whether two primitive values are equal after conversions; the first operand decides which. -/
def primitivesEqual (a b : Value) : Bool :=
  match a, b with
  | .undefined, .undefined | .undefined, .null | .null, .undefined | .null, .null => true
  | .undefined, _ | .null, _ | _, .undefined | _, .null => false
  | .symbol i, .symbol j => i = j
  | .symbol _, _ | _, .symbol _ => false
  | .string s, .string t => s = t
  | .string s, .number x => textEqualsNumber s x
  | .string s, .bool c => Reading.isPlain s && textEqualsBool s c
  | .number x, .string s => x.eq (match x with
      | .int _ => Reading.toNumber s
      | .float _ => Reading.toOperand s)
  | .bool c, .string s => textEqualsNumber s (.int (if c then 1 else 0))
  | .number x, .number y => x.eq y
  | .number x, .bool c | .bool c, .number x => x.eq (.int (if c then 1 else 0))
  | .bool c, .bool d => c = d
  | _, _ => false

namespace Action

/-- Whether two values are equal after conversions. -/
def looseEquals (a b : Value) : Action Bool := do
  match a, b with
  | .object r, .object t => return r = t
  | .object _, .undefined | .object _, .null | .undefined, .object _ | .null, .object _ =>
    return false
  | .object r, .bool c | .bool c, .object r =>
    return primitivesEqual (← primitiveOf .none r) (.number (.int (if c then 1 else 0)))
  | .string s, .object r => return primitivesEqual (.string s) (← primitiveOf .none r)
  | .object r, b | b, .object r => return primitivesEqual (← primitiveOf .none r) b
  | a, b => return primitivesEqual a b

/-- Whether one value is below another, or nothing if they cannot be compared. The operands are
primitive. -/
def below (a b : Value) : Action (Option Bool) := do
  match a, b with
  | .string s, .string t => return some (textBefore s t)
  | a, b =>
    let x ← toOperand a
    let y ← toOperand b
    if x.isNaN || y.isNaN then return none else return some (x.lt y)

/-- Compares two values; `swapped` asks whether the second is below the first. -/
def compare (a b : Value) (swapped : Bool) : Action (Option Bool) := do
  let a ← toPrimitive .number a
  let b ← toPrimitive .number b
  if swapped then below b a else below a b

/-- The number of a value and whether it is a small integer. -/
def integer? (v : Value) : Action (Option Int) := do
  match ← toNumber v with
  | .int n => return some n
  | .float _ => return none

def integersFirst (f : Numeric → Numeric → Numeric) (a b : Value) : Action Numeric := do
  let others : Action Numeric := do
    let x ← toOperand a
    let y ← toOperand b
    return f x y
  match ← integer? a with
  | none => others
  | some n =>
    match ← integer? b with
    | none => others
    | some m => return f (.int n) (.int m)

/-- The sum of two values; where one is a text, both texts together. -/
def sum (a b : Value) : Action Value := do
  let a ← toPrimitive .none a
  let b ← toPrimitive .none b
  match a, b with
  | .string s, b => return .string (s ++ (← primitiveText b))
  | a, .string t => return .string ((← primitiveText a) ++ t)
  | a, b =>
    let x ← toOperand a
    let y ← toOperand b
    return .number (x.add y)

def arithmetic (f : Numeric → Numeric → Numeric) (a b : Value) : Action Value := do
  let x ← toOperand a
  let y ← toOperand b
  return .number (f x y)

/-- An operation on 32-bit words. -/
def onWords (f : UInt32 → UInt32 → Numeric) (a b : Value) : Action Value := do
  let x ← toNumber a
  let y ← toNumber b
  return .number (f x.toWord y.toWord)

/-- A word shifted to the right with copies of its sign. -/
def shiftedRight (a b : UInt32) : Numeric :=
  match Numeric.ofSignedWord a with
  | .int n => .int (n.fdiv (Nat.pow 2 (b % 32).toNat))
  | x => x

/-- Whether a prototype stands among those of a value. -/
def hasPrototype (v : Value) (proto : Nat) : Action Bool := do
  match v with
  | .object ref => return (← read (·.prototypes ref)).contains proto
  | _ => return false

/-- Whether a value was made by a function. A bound function asks the one behind it. -/
def isInstance (v : Value) (f : Nat) : Action Bool := do
  if ← read (·.isCallable (.object f)) then
    let made ← read (·.boundTarget f)
    match v with
    | .object _ =>
      match ← get made prototypeKey with
      | .object proto => hasPrototype v proto
      | _ => fail "prototype is not an object"
    | _ => return false
  else failAbout "Expecting a function in instanceof check, but got " (← toText (.object f)) ""

/-- The operator `instanceof`. -/
def instanceOf (v f : Value) : Action Bool := do
  let ref ← expectObject f
  match ← method? f WellKnown.hasInstance.key with
  | some m => return (← invoke m f [v]).isTruthy
  | none => isInstance v ref

/-- Whether an object has a member, from its prototypes too. -/
def hasMember (ref : Nat) (key : Key) : Action Bool :=
  return (← read (·.lookup? ref key)).isSome

/-- The outcome of a binary operator for two numbers, where it depends on nothing else. -/
def ofNumbers? (op : BinaryOp) (x y : Numeric) : Option Value :=
  match op with
  | .add => some (.number (x.add y))
  | .subtract => some (.number (x.sub y))
  | .multiply => some (.number (x.mul y))
  | .divide => some (.number (x.div y))
  | .remainder => some (.number (x.rem y))
  | .power => some (.number (x.pow y))
  | .looseEqual | .strictEqual => some (.bool (x.eq y))
  | .looseUnequal | .strictUnequal => some (.bool !(x.eq y))
  | .less => some (.bool (x.lt y))
  | .greater => some (.bool (y.lt x))
  | .atMost => some (.bool (!(x.isNaN || y.isNaN) && !(y.lt x)))
  | .atLeast => some (.bool (!(x.isNaN || y.isNaN) && !(x.lt y)))
  | _ => none

/-- The outcome of a binary operator that converts its operands as it needs. -/
def converting (op : BinaryOp) (a b : Value) : Action Value := do
  match op with
  | .add => sum a b
  | .subtract => arithmetic Numeric.sub a b
  | .multiply => return .number (← integersFirst Numeric.mul a b)
  | .divide => arithmetic Numeric.div a b
  | .remainder => return .number (← integersFirst Numeric.rem a b)
  | .power => arithmetic Numeric.pow a b
  | .looseEqual => return .bool (← looseEquals a b)
  | .looseUnequal => return .bool !(← looseEquals a b)
  | .strictEqual => return .bool (a.strictEquals b)
  | .strictUnequal => return .bool !(a.strictEquals b)
  | .less => return .bool ((← compare a b false) = some true)
  | .greater => return .bool ((← compare a b true) = some true)
  | .atMost => return .bool ((← compare a b true) = some false)
  | .atLeast => return .bool ((← compare a b false) = some false)
  | .bitAnd => onWords (fun x y => .ofSignedWord (x &&& y)) a b
  | .bitOr => onWords (fun x y => .ofSignedWord (x ||| y)) a b
  | .bitXor => onWords (fun x y => .ofSignedWord (x ^^^ y)) a b
  | .shiftLeft => onWords (fun x y => .ofSignedWord (x <<< (y % 32))) a b
  | .shiftRight => onWords shiftedRight a b
  | .shiftRightZero => onWords (fun x y => .ofNat (x >>> (y % 32)).toNat) a b
  | .hasMember =>
    let ref ← expectObject b
    return .bool (← hasMember ref (← toKey a))
  | .instanceOf => return .bool (← instanceOf a b)

def binary (op : BinaryOp) (a b : Value) : Action Value :=
  match a, b with
  | .number x, .number y =>
    match ofNumbers? op x y with
    | some v => pure v
    | none => converting op a b
  | a, b =>
    match op with
    | .strictEqual => pure (.bool (a.strictEquals b))
    | .strictUnequal => pure (.bool !(a.strictEquals b))
    | op => converting op a b

def typeName (v : Value) : Action String := do
  match v with
  | .undefined => return "undefined"
  | .null => return "object"
  | .bool _ => return "boolean"
  | .number _ => return "number"
  | .string _ => return "string"
  | .symbol _ => return "symbol"
  | .object _ => if ← read (·.isCallable v) then return "function" else return "object"

def negated (v : Value) : Action Numeric := do
  match ← integer? v with
  | some n => return (Numeric.int n).neg
  | none => return (← toOperand v).neg

def unary (op : UnaryOp) (v : Value) : Action Value := do
  match op with
  | .not => return .bool !v.isTruthy
  | .negate => return .number (← negated v)
  | .toNumber => return .number (← toNumber v)
  | .complement => return .number (.ofSignedWord (~~~(← toNumber v).toWord))
  | .typeOf => return .string (Units.ofString (← typeName v))
  | .void => return .undefined

/-- The value before and after an increment or a decrement. -/
def updated (op : BinaryOp) (v : Value) : Action (Value × Value) := do
  let old ← toNumber v
  let change := if op = .add then Numeric.add else Numeric.sub
  return (.number old, .number (change old (.int 1)))

end Action

end EggLang.Script
