import EggLang.Code.Basic

/-!
# Primitives

The fixed library of operations. A primitive is expanded while the program is lowered: from
the code of its operands it makes the code of the operation. It never fails; a missing operand is
`undefined`, and operands it has no use for are dropped.
-/

namespace EggLang

inductive Primitive where
  | add
  | subtract
  | multiply
  | divide
  | equal
  | less
  | greater
  | print
  | array
  | length
  | element
  deriving DecidableEq, Repr

namespace Primitive

def all : List Primitive :=
  [add, subtract, multiply, divide, equal, less, greater, print, array, length, element]

def name : Primitive → Bytes
  | add => utf8 "+"
  | subtract => utf8 "-"
  | multiply => utf8 "*"
  | divide => utf8 "/"
  | equal => utf8 "=="
  | less => utf8 "<"
  | greater => utf8 ">"
  | print => utf8 "print"
  | array => utf8 "array"
  | length => utf8 "length"
  | element => utf8 "element"

def ofName? (name : Bytes) : Option Primitive := all.find? fun p => p.name = name

/-- The operand at a position, `undefined` past the end. -/
def operandAt (args : List Code) (i : Nat) : Code := args.getD i (.ident (utf8 "undefined"))

/-- Any number of operands joined by an operator: none is empty code, one stands for itself. -/
def joinAll (operator : Bytes) : List Code → Code
  | [] => .raw []
  | [arg] => arg
  | args => .operation operator args

/-- The code of an operation on the code of its operands. -/
def expand (p : Primitive) (args : List Code) : Code :=
  match p with
  | add | subtract | multiply | divide => joinAll p.name args
  | equal | less | greater => .operation p.name [operandAt args 0, operandAt args 1]
  | print => .effect (.call (.ident (utf8 "console.log")) [operandAt args 0])
  | array => .array args
  | length => .member (operandAt args 0) (utf8 "length")
  | element => .index (operandAt args 0) (operandAt args 1)

end Primitive

end EggLang
