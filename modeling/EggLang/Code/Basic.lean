import EggLang.Number.Layout

/-!
# Generated code

The code a program is compiled to, before it is written out: expressions and statements.
Whether a piece of code needs an explicit `return` to become the result of a function depends
on which of the two it is and not on its text.
-/

namespace EggLang

inductive Code where
  /-- No code at all; written as `undefined`, and as nothing after `return`. -/
  | absent
  /-- Text used as it is: names, numbers and the contents of string literals. -/
  | raw (text : Bytes)
  /-- Operands joined by a binary operator. -/
  | operation (operator : Bytes) (operands : List Code)
  | call (callee : Code) (args : List Code)
  /-- A function literal; it is written with a check of the number of arguments. -/
  | function (params : List Bytes) (body : Code)
  | array (elements : List Code)
  | member (object : Code) (property : Bytes)
  | index (object index : Code)
  /-- An expression evaluated for its side effect only. -/
  | effect (operand : Code)
  | return (value : Code)
  /-- A branch on whether the condition is other than the boolean `false`. -/
  | if (cond yes no : Code)
  /-- A loop for as long as the condition is other than the boolean `false`. -/
  | while (cond body : Code)
  | var (name : Bytes) (value : Code)
  | assign (name : Bytes) (value : Code)
  | block (statements : List Code)
  deriving Repr, Inhabited

namespace Code

/-- Whether a node stands on its own as a statement. -/
def isStatement : Code → Bool
  | effect _ | .return _ | .if .. | .while .. | var .. | assign .. | block _ => true
  | _ => false

/-- The code that makes its value the result of the enclosing function; a statement is left as
it is, and so is absent code. -/
def returning : Code → Code
  | absent => absent
  | c => if c.isStatement then c else .return c

def ident (name : Bytes) : Code := raw name

/-- The literal `false`. -/
def false : Code := raw (utf8 "false")

/-- Numbers below 10²¹ are written positionally. -/
def plainNumber : Layout where
  positionalFrom := none
  positionalBelow := none
  exponentDigits := 2
  signedZero := true
  positiveInfinity := "Infinity"
  infinity := "Inf"

/-- Numbers from 10²¹ on are written with an exponent. -/
def largeNumber : Layout := { plainNumber with positionalBelow := some 21 }

def numberText (x : Binary64) : Bytes :=
  if x.isNegative then plainNumber.render x else largeNumber.render x

def number (x : Binary64) : Code := raw (numberText x)

end Code

end EggLang
