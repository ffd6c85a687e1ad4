import EggLang.Expr.Basic
import EggLang.Number.Layout
import EggLang.Text.Quoted

/-!
# Outlines of trees

An outline shows the structure of a tree, one node a line, each line indented by two blanks for
every level. The operator of a closure call stands one level below a line of its own, so that it
is told apart from the arguments.
-/

namespace EggLang.Expr

/-- The double a number literal denotes: the nearest one, infinite past the largest. -/
def numberValue (digits : Bytes) : Binary64 := .ofNat (Bytes.digitsValue digits)

/-- Numbers of an outline: an exponent is written from a million on and below a
ten-thousandth, with two digits at least. -/
def outlineNumber : Layout where
  positionalFrom := some (-4)
  positionalBelow := some 6
  exponentDigits := 2
  signedZero := true
  positiveInfinity := "+Inf"
  infinity := "Inf"

/-- A line of an outline: how deep it stands and its text. -/
abbrev OutlineLine := Nat × Bytes

mutual

/-- The lines of an expression that stands at a depth. -/
def outlineLines (depth : Nat) : Expr → List OutlineLine
  | number _ digits => [(depth, utf8 "Value(number) " ++ outlineNumber.render (numberValue digits))]
  | string _ content => [(depth, utf8 "Value(string) " ++ Text.Quoted.encode content)]
  | word _ name => [(depth, utf8 "Word " ++ name)]
  | apply _ operator args =>
    (depth, utf8 "Apply " ++ operator) :: outlineArgs (depth + 1) args
  | closure operator args =>
    (depth, utf8 "Closure") :: (depth + 1, utf8 "operator:")
      :: outlineLines (depth + 2) operator ++ outlineArgs (depth + 1) args

/-- The lines of an argument list; an empty list has a line that says so. -/
def outlineArgs (depth : Nat) : List Expr → List OutlineLine
  | [] => [(depth, utf8 "(no args)")]
  | [arg] => outlineLines depth arg
  | arg :: rest => outlineLines depth arg ++ outlineArgs depth rest

end

def outline (e : Expr) : Bytes :=
  (outlineLines 0 e).flatMap fun (depth, text) =>
    Bytes.repeated (utf8 "  ") depth ++ text ++ utf8 "\n"

end EggLang.Expr
