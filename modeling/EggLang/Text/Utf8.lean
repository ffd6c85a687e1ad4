import EggLang.Bytes

/-!
# Reading a byte text as characters

A text is read from the left as a list of *glyphs*: a well-formed UTF-8 sequence is one
character, and a byte that does not start one stands alone. Columns count glyphs, and so do
the lengths of excerpts, so an ill-formed byte counts as one character everywhere.
-/

namespace EggLang

/-- One unit of a text as a reader sees it. -/
inductive Glyph where
  /-- A character in its well-formed encoding. -/
  | char (c : Char)
  /-- A byte that is not part of a well-formed encoding. -/
  | stray (b : UInt8)
  deriving DecidableEq, Repr

namespace Glyph

def bytes : Glyph → Bytes
  | char c => String.utf8EncodeChar c
  | stray b => [b]

def width (g : Glyph) : Nat := g.bytes.length

/-- The character of a glyph; a stray byte reads as the replacement character U+FFFD. -/
def toChar : Glyph → Char
  | char c => c
  | stray _ => Char.ofNat 0xFFFD

end Glyph

namespace Text

/-- Whether a byte continues a multi-byte sequence. -/
def isTail (b : UInt8) : Bool := 0x80 ≤ b && b ≤ 0xBF

def tailBits (b : UInt8) : Nat := b.toNat % 64

/-- The character encoded in well-formed UTF-8 at the front of a text. -/
def lead? : Bytes → Option Char
  | [] => none
  | a :: rest =>
    if a < 0x80 then some (Char.ofNat a.toNat)
    else if a < 0xC2 then none
    else if a < 0xE0 then
      match rest with
      | b :: _ => if isTail b then some (Char.ofNat ((a.toNat % 32) * 64 + tailBits b)) else none
      | [] => none
    else if a < 0xF0 then
      match rest with
      | b :: c :: _ =>
        let low : UInt8 := if a = 0xE0 then 0xA0 else 0x80
        let high : UInt8 := if a = 0xED then 0x9F else 0xBF
        if low ≤ b && b ≤ high && isTail c then
          some (Char.ofNat ((a.toNat % 16) * 4096 + tailBits b * 64 + tailBits c))
        else none
      | _ => none
    else if a < 0xF5 then
      match rest with
      | b :: c :: d :: _ =>
        let low : UInt8 := if a = 0xF0 then 0x90 else 0x80
        let high : UInt8 := if a = 0xF4 then 0x8F else 0xBF
        if low ≤ b && b ≤ high && isTail c && isTail d then
          some (Char.ofNat
            ((a.toNat % 8) * 262144 + tailBits b * 4096 + tailBits c * 64 + tailBits d))
        else none
      | _ => none
    else none

/-- The glyphs of a text after its first `skip` bytes, which belong to a glyph already read. -/
def glyphsFrom : (skip : Nat) → Bytes → List Glyph
  | _, [] => []
  | skip + 1, _ :: rest => glyphsFrom skip rest
  | 0, b :: rest =>
    match lead? (b :: rest) with
    | some c => .char c :: glyphsFrom (c.utf8Size - 1) rest
    | none => .stray b :: glyphsFrom 0 rest

def glyphs (text : Bytes) : List Glyph := glyphsFrom 0 text

/-- The number of characters of a text, an ill-formed byte counting as one. -/
def length (text : Bytes) : Nat := (glyphs text).length

def ofGlyphs (gs : List Glyph) : Bytes := gs.flatMap Glyph.bytes

def ofChars (cs : List Char) : Bytes := cs.flatMap String.utf8EncodeChar

/-- The characters of a text, when all of it is well-formed. -/
def chars? (text : Bytes) : Option (List Char) :=
  (glyphs text).mapM fun
    | .char c => some c
    | .stray _ => none

/-- The characters of a text, each ill-formed byte read as U+FFFD. -/
def chars (text : Bytes) : List Char := (glyphs text).map Glyph.toChar

end Text

end EggLang
