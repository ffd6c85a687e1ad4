import EggLang.Text.Utf8

/-!
# Texts as sixteen-bit units

Scripts count and index text in UTF-16 units: a character beyond U+FFFF is a pair of surrogates,
and either half can be picked out alone. A half without its partner reads as U+FFFD.
-/

namespace EggLang

/-- A text as UTF-16 units, paired surrogates or not. -/
abbrev Units := List UInt16

namespace Units

def ofChar (c : Char) : Units :=
  let n := c.toNat
  if n < 0x10000 then [n.toUInt16]
  else [(0xD800 + (n - 0x10000) / 0x400).toUInt16, (0xDC00 + (n - 0x10000) % 0x400).toUInt16]

def ofChars (cs : List Char) : Units := cs.flatMap ofChar

def ofString (s : String) : Units := ofChars s.toList

def isHigh (u : UInt16) : Bool := 0xD800 ≤ u && u < 0xDC00

def isLow (u : UInt16) : Bool := 0xDC00 ≤ u && u < 0xE000

def paired (high low : UInt16) : Char :=
  Char.ofNat (0x10000 + (high.toNat - 0xD800) * 0x400 + (low.toNat - 0xDC00))

/-- The character of a unit that is not half of a pair. -/
def single (u : UInt16) : Char :=
  if isHigh u || isLow u then Char.ofNat 0xFFFD else Char.ofNat u.toNat

/-- The characters of a text, a lone surrogate read as U+FFFD. -/
def toChars : Units → List Char
  | [] => []
  | [u] => [single u]
  | u :: v :: rest =>
    if isHigh u && isLow v then paired u v :: toChars rest else single u :: toChars (v :: rest)

/-- The UTF-8 bytes of a text. -/
def toBytes (u : Units) : Bytes := Text.ofChars (toChars u)

/-- The order of texts by their units, strict. -/
def before : Units → Units → Bool
  | _, [] => false
  | [], _ :: _ => true
  | a :: s, b :: t => if a < b then true else if b < a then false else before s t

end Units

end EggLang
