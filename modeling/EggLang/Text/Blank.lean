import EggLang.Text.Utf8

/-!
# Classes of blank characters

Three classes are in use and they differ. Stripping a program removes the space separators, the
ASCII control blanks, the two Unicode line breaks and the byte order mark. Trimming a line
removes Unicode white space, which has U+0085 and lacks the byte order mark. A comment ends at a
line break only.
-/

namespace EggLang

/-- A glyph belongs to a class of characters when it is a character of it. -/
def Glyph.isIn (g : Glyph) (cls : Char → Bool) : Bool :=
  match g with
  | .char c => cls c
  | .stray _ => false

namespace Text

def isSpaceSeparator (c : Char) : Bool :=
  let n := c.toNat
  n = 0x20 || n = 0xA0 || n = 0x1680 || (0x2000 ≤ n && n ≤ 0x200A) || n = 0x202F || n = 0x205F
    || n = 0x3000

/-- The ASCII control blanks: tab, line feed, vertical tab, form feed and carriage return. -/
def isControlBlank (c : Char) : Bool := 9 ≤ c.toNat && c.toNat ≤ 13

/-- The characters that stripping removes wherever they stand. -/
def isBlank (c : Char) : Bool :=
  isControlBlank c || isSpaceSeparator c || c.toNat = 0x2028 || c.toNat = 0x2029
    || c.toNat = 0xFEFF

def isLineBreak (c : Char) : Bool :=
  c.toNat = 10 || c.toNat = 13 || c.toNat = 0x2028 || c.toNat = 0x2029

def isWhite (c : Char) : Bool :=
  isControlBlank c || isSpaceSeparator c || c.toNat = 0x85 || c.toNat = 0x2028
    || c.toNat = 0x2029

/-- The text without the white space at its two ends. -/
def trim (text : Bytes) : Bytes :=
  let front := (glyphs text).dropWhile (·.isIn isWhite)
  ofGlyphs (front.reverse.dropWhile (·.isIn isWhite)).reverse

end Text

end EggLang
