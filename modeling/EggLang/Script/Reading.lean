import EggLang.Script.Numeric
import EggLang.Text.Blank

/-!
# Reading numbers

The number that a text denotes. A text of ASCII characters is read as a whole number, in a base
that its first two characters may tell, or else as a decimal or hexadecimal fraction with an
exponent, in which underscores may stand between digits. White space around it does not count.
-/

namespace EggLang.Script.Reading

/-- The value of a digit in any base up to thirty-six; thirty-six for other characters. -/
def digitValue (c : Char) : Nat :=
  if c.isDigit then c.toNat - 48
  else if c.isLower then c.toNat - 87
  else if c.isUpper then c.toNat - 55
  else 36

def isDigitOf (base : Nat) (c : Char) : Bool := digitValue c < base

def valueOf (base : Nat) (cs : List Char) : Nat := cs.foldl (fun n c => n * base + digitValue c) 0

/-- A text without its sign, and whether that was a minus. -/
def unsigned : List Char → Bool × List Char
  | '-' :: rest => (true, rest)
  | '+' :: rest => (false, rest)
  | rest => (false, rest)

/-- A whole number in a base, with or without a sign, that fits into 64 bits. -/
def whole? (base : Nat) (cs : List Char) : Option Int :=
  let (negative, digits) := unsigned cs
  if digits.isEmpty || !digits.all (isDigitOf base) then none
  else
    let n := valueOf base digits
    if negative then if n ≤ Nat.pow 2 63 then some (-n) else none
    else if n < Nat.pow 2 63 then some n else none

/-- The base that the second character of a number after a zero tells. -/
def baseOf? (c : Char) : Option Nat :=
  match c.toLower with
  | 'x' => some 16
  | 'o' => some 8
  | 'b' => some 2
  | _ => none

/-- The whole number of a trimmed text. No text is zero; zero with a minus sign is no whole
number. -/
def integer? (cs : List Char) : Option Int :=
  match cs with
  | [] => some 0
  | ['-', '0'] => none
  | '0' :: c :: d :: rest =>
    match baseOf? c with
    | some base => whole? base (d :: rest)
    | none => whole? 10 cs
  | _ => whole? 10 cs

/-- Whether a text without case is the beginning of another one. -/
def startsWithWord (word : String) (cs : List Char) : Bool :=
  word.toList.isPrefixOf (cs.map Char.toLower)

def special? (cs : List Char) : Option Binary64 :=
  let (negative, body) := unsigned cs
  let lower := body.map Char.toLower
  if lower = "inf".toList || lower = "infinity".toList then some (.infinite negative)
  else if cs.map Char.toLower = "nan".toList then some .nan
  else none

/-- Whether the underscores of a number stand between digits, or between a base and a digit. The
class of the character before is given: a digit or a base is true, an underscore false. -/
def underscoresFit (isHex : Bool) : Option Bool → List Char → Bool
  | last, [] => last != some false
  | last, c :: rest =>
    if c.isDigit || (isHex && isDigitOf 16 c) then underscoresFit isHex (some true) rest
    else if c = '_' then last = some true && underscoresFit isHex (some false) rest
    else last != some false && underscoresFit isHex none rest

/-- The digits before and after the point at the front of a text, and the rest. -/
def mantissa (base : Nat) (cs : List Char) : List Char × List Char × Bool × List Char :=
  let before := cs.takeWhile (isDigitOf base)
  match cs.drop before.length with
  | '.' :: rest =>
    let after := rest.takeWhile (isDigitOf base)
    (before, after, true, rest.drop after.length)
  | rest => (before, [], false, rest)

/-- An exponent behind its letter, which all of the text has to be. -/
def exponent? (letter : Char) : List Char → Option Int
  | [] => none
  | c :: rest =>
    if c.toLower = letter then
      let (negative, digits) := unsigned rest
      if digits.isEmpty || !digits.all Char.isDigit then none
      else
        let n : Int := min (valueOf 10 digits) 100000
        some (if negative then -n else n)
    else none

/-- A decimal number without a sign, all of the text. -/
def decimal? (negative : Bool) (cs : List Char) : Option Binary64 :=
  let (before, after, _, rest) := mantissa 10 cs
  if before.isEmpty && after.isEmpty then none
  else
    let scale := if rest.isEmpty then some 0 else exponent? 'e' rest
    scale.map fun e => .ofDecimal negative (valueOf 10 (before ++ after)) (e - after.length)

/-- A hexadecimal number without its sign and base, all of the text. It needs an exponent, which
is one of two. -/
def hexadecimal? (negative : Bool) (cs : List Char) : Option Binary64 :=
  let (before, after, _, rest) := mantissa 16 cs
  if before.isEmpty && after.isEmpty then none
  else
    (exponent? 'p' rest).map fun e =>
      .ofScaled negative (valueOf 16 (before ++ after)) (e - 4 * after.length)

def fraction? (cs : List Char) : Option Binary64 :=
  match special? cs with
  | some x => some x
  | none =>
    let (negative, body) := unsigned cs
    let bare := body.filter (· != '_')
    let (isHex, fits, digits) := match body with
      | '0' :: x :: rest =>
        if x.toLower = 'x' then (true, underscoresFit true (some true) rest, bare.drop 2)
        else if (baseOf? x).isSome then (false, underscoresFit false (some true) rest, bare)
        else (false, underscoresFit false none body, bare)
      | _ => (false, underscoresFit false none body, bare)
    if !fits then none
    else if isHex then hexadecimal? negative digits
    else decimal? negative digits

/-- A text without the white space around it. -/
def trimmed (cs : List Char) : List Char :=
  ((cs.dropWhile Text.isWhite).reverse.dropWhile Text.isWhite).reverse

def isPlain (u : Units) : Bool := u.all (· < 128)

def toInt? (u : Units) : Option Int := integer? (trimmed (Units.toChars u))

/-- The fraction that a text denotes; no text is zero. -/
def toFraction? (u : Units) : Option Binary64 :=
  match trimmed (Units.toChars u) with
  | [] => some .zero
  | cs => fraction? cs

def toNumber (u : Units) : Numeric :=
  match toInt? u with
  | some n => .ofInt n
  | none =>
    match toFraction? u with
    | some x => .ofBinary64 x
    | none => .nan

/-- The number that a text counts as in arithmetic and comparisons; a text with characters beyond
ASCII counts as none. -/
def toOperand (u : Units) : Numeric := if isPlain u then toNumber u else .nan

/-! ## Literals -/

/-- The value of hexadecimal digits that do not fit into 64 bits: each step is rounded. -/
def roundedHex (digits : List Char) : Binary64 :=
  digits.foldl (fun x c => (x.mul (.ofNat 16)).add (.ofNat (digitValue c))) .zero

/-- The value of a number literal that starts with a base. -/
def basedLiteral? (base : Nat) (digits : List Char) : Option Numeric :=
  match whole? base digits with
  | some n => some (.ofInt n)
  | none => if base = 16 then some (.ofBinary64 (roundedHex digits)) else none

/-- The value of a literal with a zero before octal digits. Where it does not fit into 64 bits, it
is read as a decimal number. -/
def octalLiteral (digits : List Char) : Numeric :=
  match whole? 8 digits with
  | some n => .ofInt n
  | none => .ofBinary64 (.ofDecimal false (valueOf 10 digits) 0)

def decimalLiteral? (cs : List Char) : Option Numeric :=
  match whole? 10 cs with
  | some n => some (.ofInt n)
  | none => (decimal? false cs).map .ofBinary64

end EggLang.Script.Reading
