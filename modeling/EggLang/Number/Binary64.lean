/-!
# Double-precision numbers in exact arithmetic

A number of the binary64 format is a natural significand times a power of two, an infinity or
not a number. Reading a decimal rounds an exact ratio of natural numbers to the nearest such
number, a tie going to the even significand; nothing here computes with machine floats.
-/

namespace EggLang

/-- A binary64 number. A finite one is `significand * 2 ^ exponent`; it is *canonical* when the
significand has 53 bits, or the exponent is the least one and the significand has at most 53. -/
inductive Binary64 where
  | nan
  | infinite (negative : Bool)
  | finite (negative : Bool) (significand : Nat) (exponent : Int)
  deriving DecidableEq, Repr

namespace Binary64

def precision : Nat := 53

def leastExponent : Int := -1074

def greatestExponent : Int := 971

def zero : Binary64 := .finite false 0 leastExponent

/-- The quotient rounded to the nearest integer, a tie going to the even one. -/
def roundDiv (num den : Nat) : Nat :=
  let q := num / den
  let r := num % den
  if 2 * r > den then q + 1
  else if 2 * r = den then (if q % 2 = 0 then q else q + 1)
  else q

/-- `num / den` divided by `2 ^ e`, as a ratio of natural numbers. -/
def scaleDown (num den : Nat) (e : Int) : Nat × Nat :=
  if 0 ≤ e then (num, den * Nat.pow 2 e.toNat) else (num * Nat.pow 2 (-e).toNat, den)

/-- The exponent at which `num / den` has a full significand, or the least exponent if that is
larger. -/
def exponentOf (num den : Nat) : Int :=
  let guess : Int := (num.log2 : Int) - (den.log2 : Int) - 52
  let (n, d) := scaleDown num den guess
  let exact := if n / d < Nat.pow 2 52 then guess - 1 else guess
  max exact leastExponent

/-- The number nearest to the ratio `num / den`, with the given sign; beyond the largest finite
number it is infinite. -/
def ofRatio (negative : Bool) (num den : Nat) : Binary64 :=
  if num = 0 then .finite negative 0 leastExponent
  else
    let e := exponentOf num den
    let (n, d) := scaleDown num den e
    let m := roundDiv n d
    let (m, e) := if m = Nat.pow 2 precision then (Nat.pow 2 52, e + 1) else (m, e)
    if greatestExponent < e then .infinite negative else .finite negative m e

def ofNat (n : Nat) : Binary64 := ofRatio false n 1

/-- The number nearest to `digits * 10 ^ scale`. -/
def ofDecimal (negative : Bool) (digits : Nat) (scale : Int) : Binary64 :=
  if digits = 0 then .finite negative 0 leastExponent
  else if 400 < (Nat.toDigits 10 digits).length + scale then .infinite negative
  else if (Nat.toDigits 10 digits).length + scale < -400 then .finite negative 0 leastExponent
  else if 0 ≤ scale then ofRatio negative (digits * Nat.pow 10 scale.toNat) 1
  else ofRatio negative digits (Nat.pow 10 (-scale).toNat)

/-- Whether the number is below zero, negative zero not included. -/
def isNegative : Binary64 → Bool
  | .finite s m _ => s && m != 0
  | .infinite s => s
  | .nan => false

/-- Whether the number is neither infinite nor `nan`. -/
def isFinite : Binary64 → Bool
  | .finite .. => true
  | _ => false

/-- The number with the given bits in the interchange format. -/
def ofBits (bits : UInt64) : Binary64 :=
  let n := bits.toNat
  let negative := n / Nat.pow 2 63 = 1
  let biased : Nat := n / Nat.pow 2 52 % Nat.pow 2 11
  let fraction : Nat := n % Nat.pow 2 52
  if biased = 2047 then (if fraction = 0 then .infinite negative else .nan)
  else if biased = 0 then .finite negative fraction leastExponent
  else .finite negative (Nat.pow 2 52 + fraction) ((biased : Int) - 1075)

/-- The bits of a canonical number in the interchange format. -/
def toBits : Binary64 → UInt64
  | .nan => 0x7FF8000000000000
  | .infinite s => (if s then 0xFFF0000000000000 else 0x7FF0000000000000)
  | .finite s m e =>
    let sign := if s then Nat.pow 2 63 else 0
    if m < Nat.pow 2 52 then (sign + m).toUInt64
    else (sign + (e + 1075).toNat * Nat.pow 2 52 + (m - Nat.pow 2 52)).toUInt64

def toFloat (x : Binary64) : Float := Float.ofBits x.toBits

def ofFloat (x : Float) : Binary64 := ofBits x.toBits

/-- The magnitude of a finite number as a ratio of natural numbers. -/
def magnitude (m : Nat) (e : Int) : Nat × Nat :=
  if 0 ≤ e then (m * Nat.pow 2 e.toNat, 1) else (m, Nat.pow 2 (-e).toNat)

/-- Whether the number is at least the natural number `n`; false for `nan`. -/
def atLeast (n : Nat) : Binary64 → Bool
  | .finite false m e => let (num, den) := magnitude m e; n * den ≤ num
  | .infinite false => true
  | _ => false

end Binary64

end EggLang
