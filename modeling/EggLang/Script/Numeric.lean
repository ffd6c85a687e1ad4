import EggLang.Number.Arithmetic
import EggLang.Number.Layout
import EggLang.Text.Units

/-!
# Numbers of scripts

A number is a small integer or a double-precision number. Whole numbers up to 2^53 are always kept
as integers, negative zero apart, so a number has one form only and arithmetic on integers is
exact.
-/

namespace EggLang.Script

/-!
## Numbers as text

A number is written positionally when its exponent lies between -7 and 21 and with an
exponent otherwise; zero has no sign.
-/

/-- How a script writes a number. -/
def numberLayout : Layout where
  positionalFrom := some (-6)
  positionalBelow := some 21
  exponentDigits := 1
  signedZero := false
  positiveInfinity := "Infinity"
  infinity := "Infinity"

def numberText (x : Binary64) : Units := (numberLayout.render x).map UInt8.toUInt16

def numberKey (x : Binary64) : Units := numberText x

/-! ## Integers and doubles -/

inductive Numeric where
  | int (n : Int)
  /-- A number that is not a small integer. -/
  | float (x : Binary64)
  deriving DecidableEq, Repr, Inhabited

namespace Numeric

/-- The largest whole number that is kept as an integer. -/
def largest : Int := 9007199254740992

def roundInt (n : Int) : Binary64 := Binary64.ofRatio (n < 0) n.natAbs 1

/-- The number of an integer; one that is too large is rounded. -/
def ofInt (n : Int) : Numeric :=
  if -largest ≤ n && n ≤ largest then .int n else .float (roundInt n)

def ofNat (n : Nat) : Numeric := ofInt n

/-- The integer that a double is, unless it is negative zero or too large. -/
def wholeOf? : Binary64 → Option Int
  | .finite s m e =>
    if m = 0 then if s then none else some 0
    else
      let magnitude : Option Nat :=
        if 0 ≤ e then if e ≤ 1 then some (m <<< e.toNat) else none
        else
          let n := m >>> (-e).toNat
          if n <<< (-e).toNat = m then some n else none
      magnitude.bind fun n =>
        if (n : Int) ≤ largest then some (if s then -(n : Int) else n) else none
  | _ => none

def ofBinary64 (x : Binary64) : Numeric :=
  match wholeOf? x with
  | some n => .int n
  | none => .float x

def toBinary64 : Numeric → Binary64
  | int n => roundInt n
  | float x => x

def nan : Numeric := .float .nan

def zero : Numeric := .int 0

def negativeZero : Numeric := .float (Binary64.zero.neg)

def infinity (negative : Bool) : Numeric := .float (.infinite negative)

/-- Whether the number is `nan`. -/
def isNaN : Numeric → Bool
  | float .nan => true
  | _ => false

/-- Whether the number is neither infinite nor `nan`. -/
def isFinite : Numeric → Bool
  | int _ => true
  | float x => x.isFinite

def isSigned : Numeric → Bool
  | int n => n < 0
  | float (.finite s _ _) | float (.infinite s) => s
  | float .nan => false

def isTruthy : Numeric → Bool
  | int n => n != 0
  | float .nan => false
  | float (.finite _ m _) => m != 0
  | float (.infinite _) => true

/-! ## Arithmetic -/

/-- An operation on integers where both are, and on doubles otherwise. -/
def lift (onInts : Int → Int → Int) (onFloats : Binary64 → Binary64 → Binary64) :
    Numeric → Numeric → Numeric
  | int a, int b => ofInt (onInts a b)
  | a, b => ofBinary64 (onFloats a.toBinary64 b.toBinary64)

def add : Numeric → Numeric → Numeric := lift (· + ·) Binary64.add

def sub : Numeric → Numeric → Numeric := lift (· - ·) Binary64.sub

def neg : Numeric → Numeric
  | int n => if n = 0 then negativeZero else .int (-n)
  | float x => ofBinary64 x.neg

/-- The largest magnitude of a product of integers that is computed exactly. -/
def exactLimit : Nat := Nat.pow 2 63

/-- The product. Zero times an integer is zero without a sign, except for minus one. -/
def mul : Numeric → Numeric → Numeric
  | int a, int b =>
    if (a = 0 && b = -1) || (a = -1 && b = 0) then negativeZero
    else if (a * b).natAbs < exactLimit then ofInt (a * b)
    else .float ((roundInt a).mul (roundInt b))
  | a, b => ofBinary64 (a.toBinary64.mul b.toBinary64)

def div (a b : Numeric) : Numeric := ofBinary64 (a.toBinary64.div b.toBinary64)

/-- The remainder; it has the sign of the dividend. -/
def rem : Numeric → Numeric → Numeric
  | int a, int b =>
    if b = 0 then nan
    else
      let r := a.tmod b
      if r = 0 && a < 0 then negativeZero else .int r
  | a, b => ofBinary64 (a.toBinary64.rem b.toBinary64)

/-- The power with a natural exponent, if it fits into 64 bits with its sign. -/
def wholePower? (base : Int) (exponent : Nat) : Option Int :=
  if base = 0 || base = 1 then some base
  else if base = -1 then some (if exponent % 2 = 0 then 1 else -1)
  else if 63 < exponent then none
  else
    let p := Int.pow base exponent
    if p.natAbs < exactLimit then some p else none

/-- The power. One to an exponent that is not finite is not a number. -/
def pow (a b : Numeric) : Numeric :=
  let exact := match a, b with
    | int x, int y => if 0 ≤ y then (if y = 0 then some 1 else wholePower? x y.toNat) else none
    | _, _ => none
  match exact with
  | some p => ofInt p
  | none =>
    let isOne := a = .int 1 || a = .int (-1)
    if b.isNaN || (isOne && !b.isFinite) then nan
    else ofBinary64 (.ofFloat (a.toBinary64.toFloat.pow b.toBinary64.toFloat))

/-! ## Comparison -/

/-- Whether two numbers are equal; `nan` is equal to nothing. -/
def eq : Numeric → Numeric → Bool
  | int a, int b => a == b
  | int n, float x | float x, int n => (roundInt n).eq x
  | float x, float y => x.eq y

/-- Whether one number is below another; false when either is `nan`. -/
def lt : Numeric → Numeric → Bool
  | int a, int b => a < b
  | a, b => a.toBinary64.lt b.toBinary64

/-- Whether two numbers are the same, `nan` and itself included; `signed` tells the zeros
apart. -/
def same (signed : Bool) (a b : Numeric) : Bool :=
  (a.isNaN && b.isNaN) || (a.eq b && (!signed || a = b)) || (!signed && !a.isTruthy && !b.isTruthy
    && !a.isNaN && !b.isNaN)

/-! ## Integers -/

/-- The integer part, nothing if the number is not finite. -/
def truncate? : Numeric → Option Int
  | int n => some n
  | float x => x.truncate?

/-- The integer part; zero for `nan`, and infinite numbers as given. -/
def toInteger (positive negative : Int) (x : Numeric) : Int :=
  match x.truncate? with
  | some n => n
  | none =>
    match x with
    | float (.infinite true) => negative
    | float (.infinite false) => positive
    | _ => 0

/-- The low 32 bits of the integer part. -/
def toWord (x : Numeric) : UInt32 :=
  match x.truncate? with
  | some n => (n.emod 4294967296).toNat.toUInt32
  | none => 0

/-- The signed integer of a 32-bit word. -/
def ofSignedWord (w : UInt32) : Numeric :=
  .int (if w.toNat < 2147483648 then w.toNat else (w.toNat : Int) - 4294967296)

/-! ## Texts -/

def text : Numeric → Units
  | int n => (Bytes.ofInt n).map UInt8.toUInt16
  | float x => numberText x

end Numeric

end EggLang.Script
