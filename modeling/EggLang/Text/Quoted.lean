import EggLang.Text.Utf8
import EggLang.Text.Classes

/-!
# Double-quoted texts

A text between double quotes on one line of printable characters: the quote and the backslash
are escaped by a backslash, the usual control characters by a letter, every other character that
does not print by its number, and a stray byte by its two hexadecimal digits.
-/

namespace EggLang.Text.Quoted

def escaped (b : UInt8) : Bytes := [92, b]

/-- How a glyph is written inside the quotes. -/
def encodeGlyph : Glyph → Bytes
  | .stray b => escaped 120 ++ Bytes.hex b.toNat 2
  | .char c =>
    let n := c.toNat
    if n = 34 || n = 92 then escaped n.toUInt8
    else if isPrintable c then String.utf8EncodeChar c
    else if n = 7 then escaped 97
    else if n = 8 then escaped 98
    else if n = 12 then escaped 102
    else if n = 10 then escaped 110
    else if n = 13 then escaped 114
    else if n = 9 then escaped 116
    else if n = 11 then escaped 118
    else if n < 0x20 || n = 0x7F then escaped 120 ++ Bytes.hex n 2
    else if n < 0x10000 then escaped 117 ++ Bytes.hex n 4
    else escaped 85 ++ Bytes.hex n 8

def encode (text : Bytes) : Bytes := [34] ++ (glyphs text).flatMap encodeGlyph ++ [34]

end EggLang.Text.Quoted
