import EggLang.Script.Library.Object

/-!
# Functions about numbers

Numbers in chosen formats, the functions of `Number` and `Math`. Formats are computed exactly from
the value of a number; a half is rounded up.
-/

namespace EggLang.Script.Library

open EggLang.Script.Action

def digitOf (d : Nat) : UInt16 := (if d < 10 then 48 + d else 87 + d).toUInt16

/-- At most so many digits of a natural number in a base, in front of others. -/
def digitsOnto (base : Nat) : (most n : Nat) → Units → Units
  | 0, _, acc => acc
  | most + 1, n, acc =>
    let acc := digitOf (n % base) :: acc
    if n < base then acc else digitsOnto base most (n / base) acc

/-- The digits of a natural number in a base, at least one. -/
def digitsIn (base n : Nat) : Units := digitsOnto base (n.log2 + 2) n []

def decimalDigits (n : Nat) : Units := digitsIn 10 n

/-- A quotient rounded to a natural number, a half up. -/
def roundUp (num den : Nat) : Nat := (2 * num + den) / (2 * den)

/-- The absolute value of a finite number as a quotient. -/
def quotientOf (x : Numeric) : Nat × Nat :=
  match x with
  | .int n => (n.natAbs, 1)
  | .float (.finite _ m e) => Binary64.magnitude m e
  | .float _ => (0, 1)

def signed (negative : Bool) (u : Units) : Units := if negative then 45 :: u else u

/-- Digits with a point before the last ones of them. -/
def withPoint (digits : Units) (places : Nat) : Units :=
  if places = 0 then digits
  else
    let padded := List.replicate (places + 1 - digits.length) 48 ++ digits
    let whole := padded.length - places
    padded.take whole ++ [46] ++ padded.drop whole

def fixedText (x : Numeric) (places : Nat) : Units :=
  let (num, den) := quotientOf x
  let n := roundUp (num * Nat.pow 10 places) den
  let negative := x.isSigned && (n != 0 || x.isTruthy)
  signed negative (withPoint (decimalDigits n) places)

/-- The greatest exponent of ten whose power is not above a positive quotient. -/
def exponentOfTen (num den : Nat) : Int :=
  let guess : Int := (decimalDigits num).length - (decimalDigits den).length
  let isAbove (e : Int) : Bool :=
    if 0 ≤ e then num < den * Nat.pow 10 e.toNat else num * Nat.pow 10 (-e).toNat < den
  if isAbove guess then guess - 1 else guess

/-- A positive quotient rounded to so many digits, and the exponent of the first one. -/
def roundedDigits (num den digits : Nat) : Units × Int :=
  let e := exponentOfTen num den
  let scale := e - (digits - 1 : Int)
  let n := if 0 ≤ scale then roundUp num (den * Nat.pow 10 scale.toNat)
    else roundUp (num * Nat.pow 10 (-scale).toNat) den
  let ds := decimalDigits n
  if digits < ds.length then (ds.take digits, e + 1) else (ds, e)

def scientificText (ds : Units) (e : Int) : Units :=
  let fraction := ds.drop 1
  ds.take 1 ++ (if fraction.isEmpty then [] else 46 :: fraction)
    ++ Units.ofString (if e < 0 then "e-" else "e+") ++ decimalDigits e.natAbs

/-- A number with an exponent and so many digits. -/
def exponentialText (x : Numeric) (digits : Nat) : Units :=
  let (num, den) := quotientOf x
  let (ds, e) := if num = 0 then (List.replicate digits 48, 0) else roundedDigits num den digits
  signed (x.isSigned && num != 0) (scientificText ds e)

/-- A number with so many significant digits. -/
def precisionText (x : Numeric) (digits : Nat) : Units :=
  let (num, den) := quotientOf x
  let (ds, e) := if num = 0 then (List.replicate digits 48, 0) else roundedDigits num den digits
  let body :=
    if e < -6 || (digits : Int) ≤ e then scientificText ds e
    else if e < 0 then Units.ofString "0." ++ List.replicate (-e - 1).toNat 48 ++ ds
    else withPoint ds (digits - 1 - e.toNat)
  signed (x.isSigned && num != 0) body

/-- The digits of a fraction in a base, as few as tell it from its neighbours. The fraction and the
distance within which it counts as the same are given over one denominator. Gives also whether the
whole part goes up. -/
def fractionDigits (base den : Nat) : (fuel num delta : Nat) → List Nat → List Nat × Bool
  | 0, _, _, done => (done.reverse, false)
  | fuel + 1, num, delta, done =>
    if num < delta then (done.reverse, false)
    else
      let num := num * base
      let delta := delta * base
      let d := num / den
      let rest := num % den
      if (den < 2 * rest || (2 * rest = den && d % 2 = 1)) && den < rest + delta then
        roundLast (d :: done)
      else fractionDigits base den fuel rest delta (d :: done)
where
  /-- The digits, the last one first, with one added to the last one. -/
  roundLast : List Nat → List Nat × Bool
    | [] => ([], true)
    | d :: done =>
      if d + 1 = base then roundLast done else (((d + 1) :: done).reverse, false)

def textInBase (base : Nat) (x : Numeric) : Units :=
  match x with
  | .int n => signed (n < 0) (digitsIn base n.natAbs)
  | .float (.finite s m e) =>
    let (num, den) := Binary64.magnitude m e
    -- Twice the denominator, so that half the distance to the next number can be written.
    let whole := num / den
    let (ds, up) :=
      if 0 ≤ e then ([], false) else fractionDigits base (2 * den) 1100 (2 * (num % den)) 1 []
    let whole := if up then whole + 1 else whole
    let fraction := ds.map fun d => (if d < 10 then 48 + d else 87 + d).toUInt16
    signed (s && m != 0)
      (digitsIn base whole ++ if fraction.isEmpty then [] else 46 :: fraction)
  | x => x.text

def receiverNumber (self : Value) : Action Numeric := do
  match self with
  | .number x => return x
  | .object ref =>
    match ← read fun (s : Store) => (s.object ref).kind with
    | .boxed (.number x) => return x
    | _ => fail "Value is not a number"
  | _ => fail "Value is not a number"

/-- An argument that has to lie between two numbers. -/
def between (v : Value) (least most : Int) (message : String) : Action Nat := do
  let n ← toInteger v
  if least ≤ n && n ≤ most then return n.toNat
  else failWith .rangeError (Units.ofString message)

def numberMethod (f : NumberMethod) (self : Value) (args : List Value) : Action Value := do
  let x ← receiverNumber self
  let first := arg args 0
  match f with
  | .valueOf => return .number x
  | .toLocaleString => return .string x.text
  | .toString =>
    let base ← match first with
      | .undefined => pure 10
      | v => between v 2 36 "toString() radix argument must be between 2 and 36"
    if base = 10 || !x.isFinite then return .string x.text
    else return .string (textInBase base x)
  | .toFixed =>
    let places ← between first 0 100 "toFixed() argument must be between 0 and 100"
    let isLarge := (Numeric.float (.ofDecimal false 1 21)).lt x
      || x.lt (Numeric.float (.ofDecimal true 1 21))
    if !x.isFinite || isLarge || x = .float (.ofDecimal false 1 21) then return .string x.text
    else return .string (fixedText x places)
  | .toExponential =>
    if first = .undefined then
      if !x.isFinite then return .string x.text
      let digits := shortestDigits x
      return .string (exponentialText x digits)
    let _ ← toInteger first
    if !x.isFinite then return .string x.text
    let places ← between first 0 100 "toExponential() argument must be between 0 and 100"
    return .string (exponentialText x (places + 1))
  | .toPrecision =>
    if first = .undefined then return .string x.text
    let _ ← toInteger first
    if !x.isFinite then return .string x.text
    let digits ← between first 1 100 "toPrecision() argument must be between 1 and 100"
    return .string (precisionText x digits)
where
  /-- The number of digits that tell a number from all others. -/
  shortestDigits (x : Numeric) : Nat :=
    match x.toBinary64 with
    | .finite _ m e => if m = 0 then 1 else (Decimal.shortest m e).digits.length
    | _ => 1

/-- Whether a value is a number without fractional part. -/
def isWhole : Value → Bool
  | .number (.int _) => true
  | .number (.float x) =>
    match x.truncate? with
    | some n => (Numeric.roundInt n).eq x
    | none => false
  | _ => false

/-- The functions of `Number`. -/
def numberFn (f : NumberFn) (args : List Value) : Value :=
  let v := arg args 0
  match f with
  | .isFinite => .bool (match v with
    | .number x => x.isFinite
    | _ => false)
  | .isInteger => .bool (isWhole v)
  | .isNaN => .bool (match v with
    | .number x => x.isNaN
    | _ => false)
  | .isSafeInteger => .bool (match v with
    | .number (.int n) => n.natAbs < 9007199254740992
    | .number x => isWhole v && !x.isTruthy
    | _ => false)

/-! ## Mathematics -/

def viaFloat (f : Float → Float) (x : Numeric) : Numeric :=
  .ofBinary64 (.ofFloat (f x.toBinary64.toFloat))

def rounded (x : Float) : Float :=
  if x == 0 || x.isNaN || x.isInf then x
  else
    let t := if x < 0 then x.ceil else x.floor
    if 0 ≤ x then if x - t ≥ 0.5 then t + 1 else t
    else if t - x > 0.5 then t - 1 else t

def cubeRoot (x : Float) : Float :=
  let t := x.cbrt
  let r := t.round
  if r * r * r == x then r else t

def logOnePlus (x : Float) : Float :=
  if x.abs < 1e-5 then x - x * x / 2 + x * x * x / 3 else (1 + x).log

def expMinusOne (x : Float) : Float :=
  if x.abs < 1e-5 then x + x * x / 2 + x * x * x / 6 else x.exp - 1

/-- The larger or the smaller of two numbers; zero is larger than negative zero. -/
def extreme (larger : Bool) (a b : Numeric) : Numeric :=
  if a.isNaN || b.isNaN then .nan
  else if a.eq b then if a.isSigned = larger then b else a
  else if a.lt b = larger then b else a

/-- The functions of `Math`. -/
def mathFn (f : MathFn) (args : List Value) : Action Value := do
  let give (x : Numeric) : Action Value := return .number x
  let floating (g : Float → Float) : Action Value := do
    give (viaFloat g (← toOperand (arg args 0)))
  match f with
  | .abs =>
    let x ← toOperand (arg args 0)
    give (if x.isSigned then x.neg else x)
  | .acos => floating Float.acos
  | .acosh => floating Float.acosh
  | .asin => floating Float.asin
  | .asinh => floating Float.asinh
  | .atan => floating Float.atan
  | .atanh => floating Float.atanh
  | .atan2 =>
    let y ← toOperand (arg args 0)
    let x ← toOperand (arg args 1)
    give (.ofBinary64 (.ofFloat (Float.atan2 y.toBinary64.toFloat x.toBinary64.toFloat)))
  | .cbrt => floating cubeRoot
  | .ceil => floating Float.ceil
  | .clz32 =>
    let w := (← toNumber (arg args 0)).toWord
    give (.ofNat (if w = 0 then 32 else 31 - w.toNat.log2))
  | .cos => floating Float.cos
  | .cosh => floating Float.cosh
  | .exp => floating Float.exp
  | .expm1 => floating expMinusOne
  | .floor => floating Float.floor
  | .fround => floating fun x => x.toFloat32.toFloat
  | .hypot =>
    let xs ← mapEach toOperand args
    if xs.any fun x => !x.isFinite && !x.isNaN then give (.infinity false)
    else
      let squares := xs.foldl (fun acc x => acc + x.toBinary64.toFloat * x.toBinary64.toFloat) 0
      give (.ofBinary64 (.ofFloat squares.sqrt))
  | .imul =>
    let a ← toNumber (arg args 0)
    let b ← toNumber (arg args 1)
    give (.ofSignedWord (a.toWord * b.toWord))
  | .log => floating Float.log
  | .log1p => floating logOnePlus
  | .log10 => floating Float.log10
  | .log2 => floating Float.log2
  | .max =>
    let xs ← mapEach toOperand args
    give (xs.foldl (extreme true) (.infinity true))
  | .min =>
    let xs ← mapEach toOperand args
    give (xs.foldl (extreme false) (.infinity false))
  | .pow =>
    let x ← toOperand (arg args 0)
    let y ← toOperand (arg args 1)
    give (x.pow y)
  | .random => give (.ofBinary64 (.ofRatio false 1 2))
  | .round => floating rounded
  | .sign =>
    let x ← toOperand (arg args 0)
    give (if x.isTruthy then .int (if x.isSigned then -1 else 1) else x)
  | .sin => floating Float.sin
  | .sinh => floating Float.sinh
  | .sqrt => floating Float.sqrt
  | .tan => floating Float.tan
  | .tanh => floating Float.tanh
  | .trunc => floating fun x => if x < 0 then x.ceil else x.floor

/-- The constants of `Math`. -/
def mathConstants : List (String × Float) :=
  [("E", 2.718281828459045), ("LN10", 2.302585092994046), ("LN2", 0.6931471805599453),
    ("LOG10E", 0.4342944819032518), ("LOG2E", 1.4426950408889634), ("PI", 3.141592653589793),
    ("SQRT1_2", 0.7071067811865476), ("SQRT2", 1.4142135623730951)]

end EggLang.Script.Library
