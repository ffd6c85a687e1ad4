import EggLang.Number.Binary64

/-!
# The fewest digits that read back

A positive finite number is written with the least number of significant decimal digits that
rounds back to it, and among the decimals of that length with the one nearest to it. The reals
that round to `m * 2 ^ e` are an interval around it, closed when `m` is even; for each number of
digits the two decimals next to the value are tried against that interval.
-/

namespace EggLang

/-- A positive decimal `0.d₁d₂…dₙ * 10 ^ point`, its digits without a leading zero. -/
structure Decimal where
  digits : List Nat
  point : Int
  deriving DecidableEq, Repr

namespace Decimal

/-- The exponent of the decimal in the form `d₁.d₂…dₙ * 10 ^ exponent`. -/
def exponent (d : Decimal) : Int := d.point - 1

/-- The decimal digits of a natural number, most significant first. -/
def digitsOf (n : Nat) : List Nat := (Nat.toDigits 10 n).map fun c => c.toNat - 48

/-- The digits without trailing zeros. -/
def dropTrailingZeros (ds : List Nat) : List Nat := (ds.reverse.dropWhile (· == 0)).reverse

/-- The decimal `n * 10 ^ scale`, for a positive `n`. -/
def ofScaled (n : Nat) (scale : Int) : Decimal :=
  let ds := digitsOf n
  { digits := dropTrailingZeros ds, point := ds.length + scale }

/-- The reals that round to one number, as bounds over a common denominator. -/
structure Interval where
  low : Nat
  value : Nat
  high : Nat
  den : Nat
  closed : Bool

/-- The interval of the reals that round to `m * 2 ^ e`. Below a power of two the next number is
only half as far away. -/
def intervalOf (m : Nat) (e : Int) : Interval :=
  let below := if m = Nat.pow 2 52 && Binary64.leastExponent < e then 1 else 2
  let scale (n : Nat) : Nat := if 0 ≤ e then n * Nat.pow 2 e.toNat else n
  { low := scale (4 * m - below), value := scale (4 * m), high := scale (4 * m + 2),
    den := if 0 ≤ e then 4 else 4 * Nat.pow 2 (-e).toNat, closed := m % 2 = 0 }

namespace Interval

/-- `n * 10 ^ scale` over the denominator of the interval, both sides multiplied by the same
power of ten where `scale` is negative: first the decimal, then the factor of the bounds. -/
def aligned (i : Interval) (n : Nat) (scale : Int) : Nat × Nat :=
  if 0 ≤ scale then (n * Nat.pow 10 scale.toNat * i.den, 1)
  else (n * i.den, Nat.pow 10 (-scale).toNat)

/-- Whether `n * 10 ^ scale` lies in the interval. -/
def holds (i : Interval) (n : Nat) (scale : Int) : Bool :=
  let (x, f) := i.aligned n scale
  if i.closed then i.low * f ≤ x && x ≤ i.high * f else i.low * f < x && x < i.high * f

/-- How far `n * 10 ^ scale` is from the value. -/
def distance (i : Interval) (n : Nat) (scale : Int) : Nat :=
  let (x, f) := i.aligned n scale
  if x ≤ i.value * f then i.value * f - x else x - i.value * f

/-- The largest `n` with `n * 10 ^ scale` at most the value. -/
def floorAt (i : Interval) (scale : Int) : Nat :=
  if 0 ≤ scale then i.value / (i.den * Nat.pow 10 scale.toNat)
  else i.value * Nat.pow 10 (-scale).toNat / i.den

/-- The decimal on the grid of `10 ^ scale` that lies in the interval and is nearest to the
value; of two equally near ones the one with the even last digit. -/
def onGrid? (i : Interval) (scale : Int) : Option Nat :=
  let n := i.floorAt scale
  match i.holds n scale && n != 0, i.holds (n + 1) scale with
  | true, true =>
    let d₀ := i.distance n scale
    let d₁ := i.distance (n + 1) scale
    if d₀ < d₁ then some n
    else if d₁ < d₀ then some (n + 1)
    else some (if n % 2 = 0 then n else n + 1)
  | true, false => some n
  | false, true => some (n + 1)
  | false, false => none

/-- The first of the grids `scale`, `scale - 1`, … with a decimal in the interval. -/
def search (i : Interval) : (grids : Nat) → (scale : Int) → Option Decimal
  | 0, _ => none
  | grids + 1, scale =>
    match i.onGrid? scale with
    | some n => some (.ofScaled n scale)
    | none => search i grids (scale - 1)

end Interval

/-- The position of the decimal point of a positive ratio: the `k` with
`10 ^ (k - 1) ≤ num / den < 10 ^ k`, for a guess at most one too small. -/
def pointOf (num den : Nat) : Int :=
  let q := num / den
  if q ≠ 0 then ((Nat.toDigits 10 q).length : Int)
  else
    let r := den / num
    let k := (Nat.toDigits 10 r).length
    -- 10 ^ (k-1) ≤ den / num < 10 ^ k
    if Nat.pow 10 (k - 1) * num = den then 2 - (k : Int) else 1 - (k : Int)

/-- The shortest decimal of the positive number `m * 2 ^ e`. -/
def shortest (m : Nat) (e : Int) : Decimal :=
  let i := intervalOf m e
  let point := pointOf i.value i.den
  match i.search 19 point with
  | some d => d
  | none => .ofScaled (i.floorAt (point - 18)) (point - 18)

end Decimal

end EggLang
