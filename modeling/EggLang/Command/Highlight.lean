import EggLang.Diagnostic

/-!
# Failures on a terminal

A failure without a diagnostic code is shown after the word `error`. On a terminal that takes
colours the tag of a failure, as in `error[P001]`, is bold and red.
-/

namespace EggLang.Highlight

/-- Where a failure is shown: whether it is a terminal, and what the environment says. -/
structure Screen where
  isTerminal : Bool := false
  /-- Whether the environment asks for no colours, with any value. -/
  refusesColour : Bool := false
  /-- The kind of terminal. -/
  term : Bytes := []
  deriving DecidableEq, Repr

def Screen.coloured (s : Screen) : Bool :=
  s.isTerminal && !s.refusesColour && s.term != utf8 "dumb"

def emphasized (text : Bytes) : Bytes :=
  [27] ++ utf8 "[1m" ++ [27] ++ utf8 "[31m" ++ text ++ [27] ++ utf8 "[0m"

def isUpper (b : UInt8) : Bool := 65 ≤ b && b ≤ 90

def tagLength : Nat := 11

/-- The tag at the front of a text: `error[` with a letter, three digits and `]`. -/
def tag? (text : Bytes) : Option Bytes :=
  match Bytes.dropLead? (utf8 "error[") text with
  | some (l :: a :: b :: c :: 93 :: _) =>
    if isUpper l && [a, b, c].all Bytes.isDigit then some (text.take tagLength) else none
  | _ => none

/-- A text with every tag emphasized. The first argument counts bytes of a tag already written. -/
def emphasizeTags : (skip : Nat) → Bytes → Bytes
  | _, [] => []
  | skip + 1, _ :: rest => emphasizeTags skip rest
  | 0, b :: rest =>
    match tag? (b :: rest) with
    | some tag => emphasized tag ++ emphasizeTags (tagLength - 1) rest
    | none => b :: emphasizeTags 0 rest

def render (s : Screen) (f : Failure) : Bytes :=
  if f.code.isEmpty then
    (if s.coloured then emphasized (utf8 "error") else utf8 "error") ++ utf8 ": " ++ f.render
  else if s.coloured then emphasizeTags 0 f.render
  else f.render

end EggLang.Highlight
