import EggLang.Text.Utf8

/-!
# Places in a source text

A place is a byte offset together with the line and the column a reader would name. Only the
line feed starts a new line, and a column counts characters, an ill-formed byte being one.
-/

namespace EggLang

/-- A place in a source text; lines and columns count from one. -/
structure Place where
  offset : Nat
  line : Nat
  column : Nat
  deriving DecidableEq, Repr

namespace Place

/-- The bytes of a text after its last line feed. -/
def lastLine (text : Bytes) : Bytes := (text.reverse.takeWhile (· != 10)).reverse

def locate (source : Bytes) (offset : Nat) : Place :=
  let before := source.take offset
  { offset, line := before.count 10 + 1, column := Text.length (lastLine before) + 1 }

end Place

end EggLang
