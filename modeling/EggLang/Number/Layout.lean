import EggLang.Bytes
import EggLang.Number.Shortest

/-!
# Number texts

How the digits of a number are laid out: positionally, as `1230` or `0.00123`, or with an
exponent, as `1.23e+25`. Each format of the library is one `Layout` record.
-/

namespace EggLang

/-- The decisions of a number format. -/
structure Layout where
  /-- The least exponent that is written positionally, if there is a least one. -/
  positionalFrom : Option Int
  /-- The first exponent that is no longer written positionally, if there is one. -/
  positionalBelow : Option Int
  /-- The least number of digits of a written exponent. -/
  exponentDigits : Nat
  /-- Whether zero keeps its sign. -/
  signedZero : Bool
  /-- The text of positive infinity; the negative one has a minus sign before `infinity`. -/
  positiveInfinity : String
  infinity : String

namespace Layout

def digitText (ds : List Nat) : Bytes := ds.map fun d => (48 + d).toUInt8

def positional (d : Decimal) : Bytes :=
  if d.point ≤ 0 then
    utf8 "0." ++ List.replicate (-d.point).toNat 48 ++ digitText d.digits
  else
    let n := d.point.toNat
    if d.digits.length ≤ n then digitText d.digits ++ List.replicate (n - d.digits.length) 48
    else digitText (d.digits.take n) ++ utf8 "." ++ digitText (d.digits.drop n)

def scientific (exponentDigits : Nat) (d : Decimal) : Bytes :=
  let mantissa :=
    match d.digits with
    | [] => utf8 "0"
    | [a] => digitText [a]
    | a :: rest => digitText [a] ++ utf8 "." ++ digitText rest
  let size := Bytes.ofNat d.exponent.natAbs
  mantissa ++ utf8 (if d.exponent < 0 then "e-" else "e+")
    ++ List.replicate (exponentDigits - size.length) 48 ++ size

/-- Whether a layout writes an exponent of this size positionally. -/
def isPositional (l : Layout) (exponent : Int) : Bool :=
  (match l.positionalFrom with | some e => e ≤ exponent | none => true)
    && (match l.positionalBelow with | some e => exponent < e | none => true)

def render (l : Layout) : Binary64 → Bytes
  | .nan => utf8 "NaN"
  | .infinite false => utf8 l.positiveInfinity
  | .infinite true => utf8 "-" ++ utf8 l.infinity
  | .finite s m e =>
    if m = 0 then utf8 (if s && l.signedZero then "-0" else "0")
    else
      let d := Decimal.shortest m e
      let body := if l.isPositional d.exponent then positional d
        else scientific l.exponentDigits d
      if s then utf8 "-" ++ body else body

end Layout

end EggLang
