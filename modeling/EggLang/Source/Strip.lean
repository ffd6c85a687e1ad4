import EggLang.Text.Blank
import EggLang.Source.Place

/-!
# Stripping blanks and comments

Before a program is read its blanks and comments are taken out everywhere, also inside string
literals. A comment is a `#`, the blanks after it (line breaks among them) and then the rest of
that line. Each byte that stays keeps the offset it had in the source.
-/

namespace EggLang

/-- A byte of the source that stripping keeps, with its offset there. -/
structure Kept where
  byte : UInt8
  offset : Nat
  deriving DecidableEq, Repr

/-- A source text without blanks and comments. -/
structure Stripped where
  source : Bytes
  kept : List Kept
  deriving DecidableEq, Repr

namespace Stripped

inductive Mode where
  /-- Outside comments. -/
  | code
  /-- After the `#` of a comment, with nothing but blanks since. -/
  | opening
  /-- Inside the line of a comment. -/
  | comment
  deriving DecidableEq, Repr

/-- The bytes of one glyph, kept at consecutive offsets. -/
def keep (offset : Nat) : Bytes → List Kept
  | [] => []
  | b :: rest => ⟨b, offset⟩ :: keep (offset + 1) rest

/-- Whether a glyph is the `#` that opens a comment. -/
def opensComment (g : Glyph) : Bool := g == .char '#'

/-- The bytes kept of the glyphs that start at `offset`. -/
def survivors : Mode → (offset : Nat) → List Glyph → List Kept
  | _, _, [] => []
  | .code, offset, g :: rest =>
    if g.isIn Text.isBlank then survivors .code (offset + g.width) rest
    else if opensComment g then survivors .opening (offset + g.width) rest
    else keep offset g.bytes ++ survivors .code (offset + g.width) rest
  | .opening, offset, g :: rest =>
    if g.isIn Text.isBlank then survivors .opening (offset + g.width) rest
    else survivors .comment (offset + g.width) rest
  | .comment, offset, g :: rest =>
    if g.isIn Text.isLineBreak then survivors .code (offset + g.width) rest
    else survivors .comment (offset + g.width) rest

/-- A source text with its blanks and comments taken out. -/
def ofSource (source : Bytes) : Stripped :=
  { source, kept := survivors .code 0 (Text.glyphs source) }

def text (s : Stripped) : Bytes := s.kept.map Kept.byte

/-- The source offset of each kept byte, and the length of the source after the last one. -/
def offsets (s : Stripped) : List Nat := s.kept.map Kept.offset ++ [s.source.length]

/-- The source place of an index into the stripped text. -/
def place (s : Stripped) (index : Nat) : Place :=
  Place.locate s.source (s.offsets.getD index s.source.length)

end Stripped

/-- The text of a source without blanks and comments. -/
def strip (source : Bytes) : Bytes := (Stripped.ofSource source).text

end EggLang
