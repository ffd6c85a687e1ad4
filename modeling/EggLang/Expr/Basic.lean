import EggLang.Source.Place

/-!
# Programs as trees

A program is one expression: a literal, a word, or a call. A call whose operator was written as
a bare word is an *application*; every other call is a *closure call* around the expression
before its argument list. A number keeps its digits as they were written.
-/

namespace EggLang

/-- An expression of the Egg language. -/
inductive Expr where
  | number (place : Place) (digits : Bytes)
  | string (place : Place) (content : Bytes)
  | word (place : Place) (name : Bytes)
  | apply (place : Place) (operator : Bytes) (args : List Expr)
  | closure (operator : Expr) (args : List Expr)
  deriving Repr

namespace Expr

/-- Where an expression starts. A closure call starts where its operator does. -/
def place : Expr → Place
  | number p _ | string p _ | word p _ | apply p _ _ => p
  | closure operator _ => operator.place

def word? : Expr → Option Bytes
  | word _ name => some name
  | _ => none

def operator? : Expr → Option Bytes
  | apply _ name _ => some name
  | _ => none

/-- Whether the expression is an application of the given name. -/
def isCallOf (name : Bytes) (e : Expr) : Bool := e.operator? == some name

/-- The call of an expression with an argument list. -/
def call (operator : Expr) (args : List Expr) : Expr :=
  match operator with
  | word p name => apply p name args
  | other => closure other args

end Expr

end EggLang
