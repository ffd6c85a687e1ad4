import EggLang.Number.Binary64

/-!
# Arithmetic on double-precision numbers

The operations compute an exact ratio and round it once, so each result is the nearest number to
the true one. Signed zeros, infinities and `nan` follow the rules of the format.
-/

namespace EggLang.Binary64

def neg : Binary64 → Binary64
  | .nan => .nan
  | .infinite s => .infinite !s
  | .finite s m e => .finite (!s) m e

/-- The number nearest to `n * 2 ^ e`, with the given sign. -/
def ofScaled (negative : Bool) (n : Nat) (e : Int) : Binary64 :=
  let (num, den) := magnitude n e
  ofRatio negative num den

/-- A finite number as an integer multiple of `2 ^ unit`, where `unit` is not above its
exponent. -/
def inUnits (negative : Bool) (m : Nat) (e unit : Int) : Int :=
  let n : Int := (m <<< (e - unit).toNat : Nat)
  if negative then -n else n

/-- The sum. A zero sum is negative only if both numbers are. -/
def add : Binary64 → Binary64 → Binary64
  | .nan, _ | _, .nan => .nan
  | .infinite s, .infinite t => if s = t then .infinite s else .nan
  | .infinite s, _ => .infinite s
  | _, .infinite t => .infinite t
  | .finite s m e, .finite t n f =>
    let unit := min e f
    let total := inUnits s m e unit + inUnits t n f unit
    if total = 0 then .finite (s && t) 0 leastExponent
    else ofScaled (total < 0) total.natAbs unit

def sub (x y : Binary64) : Binary64 := add x y.neg

def mul : Binary64 → Binary64 → Binary64
  | .nan, _ | _, .nan => .nan
  | .infinite s, .infinite t => .infinite (s != t)
  | .infinite s, .finite t n _ => if n = 0 then .nan else .infinite (s != t)
  | .finite s m _, .infinite t => if m = 0 then .nan else .infinite (s != t)
  | .finite s m e, .finite t n f => ofScaled (s != t) (m * n) (e + f)

def div : Binary64 → Binary64 → Binary64
  | .nan, _ | _, .nan => .nan
  | .infinite _, .infinite _ => .nan
  | .infinite s, .finite t _ _ => .infinite (s != t)
  | .finite s _ _, .infinite t => .finite (s != t) 0 leastExponent
  | .finite s m e, .finite t n f =>
    if n = 0 then (if m = 0 then .nan else .infinite (s != t))
    else
      let (a, b) := magnitude m e
      let (c, d) := magnitude n f
      ofRatio (s != t) (a * d) (b * c)

/-- The remainder of the division that rounds toward zero; it has the sign of the dividend. -/
def rem : Binary64 → Binary64 → Binary64
  | .nan, _ | _, .nan | .infinite _, _ => .nan
  | x, .infinite _ => x
  | .finite s m e, .finite _ n f =>
    if n = 0 then .nan
    else
      let unit := min e f
      ofScaled s ((m <<< (e - unit).toNat) % (n <<< (f - unit).toNat)) unit

/-- Whether two numbers are equal; the two zeros are, `nan` is equal to nothing. -/
def eq : Binary64 → Binary64 → Bool
  | .nan, _ | _, .nan => false
  | .finite s m e, .finite t n f => if m = 0 || n = 0 then m = n else s = t && m = n && e = f
  | x, y => x = y

/-- Whether one number is below another; false when either is `nan`. -/
def lt : Binary64 → Binary64 → Bool
  | .nan, _ | _, .nan => false
  | .infinite s, .infinite t => s && !t
  | .infinite s, .finite .. => s
  | .finite .., .infinite t => !t
  | .finite s m e, .finite t n f =>
    let unit := min e f
    inUnits s m e unit < inUnits t n f unit

/-- The integer part of a number as an integer, nothing if it is not finite. -/
def truncate? : Binary64 → Option Int
  | .finite s m e =>
    let n : Nat := if 0 ≤ e then m <<< e.toNat else m >>> (-e).toNat
    some (if s then -(n : Int) else n)
  | _ => none

/-- The low 32 bits of the integer part. -/
def toWord (x : Binary64) : UInt32 :=
  match x.truncate? with
  | some n => (n.emod (Nat.pow 2 32)).toNat.toUInt32
  | none => 0

/-- The signed number of a 32-bit word. -/
def ofSignedWord (w : UInt32) : Binary64 :=
  if w.toNat < Nat.pow 2 31 then ofNat w.toNat else (ofNat (Nat.pow 2 32 - w.toNat)).neg

end EggLang.Binary64
