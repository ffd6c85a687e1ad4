import EggLang.Compiler.Basic
import EggLang.Proofs.Code.Writing

/-!
# Programs

Programs in which every variable and every function is defined before it is used: arithmetic,
comparisons, arrays, functions of one parameter, conditionals and loops, in a sequence of
statements.
-/

namespace EggLang

open Code (Role IsVariable)
open Script.Parser (LineKind)

namespace Expr

/-- A name that a program may give: no operator of the language has it. -/
structure IsOwn (name : Bytes) : Prop where
  «variable» : IsVariable name
  form : SpecialForm.ofName? name = none
  primitive : Primitive.ofName? name = none

/-- The operations on any number of operands. -/
def arithmetic : List Primitive := [.add, .subtract, .multiply, .divide]

/-- The operations on two operands. -/
def comparisons : List Primitive := [.equal, .less, .greater]

/-- An expression, or the body of a function, where the given variables and functions are
defined. -/
inductive Scoped (functions : List Bytes) : Role → List Bytes → Expr → Prop where
  | number {vars : List Bytes} (place : Place) (digits : Bytes) :
      Scoped functions .value vars (.number place digits)
  | truth {vars : List Bytes} (place : Place) (b : Bool) :
      Scoped functions .value vars (.word place (utf8 (toString b)))
  | name {vars : List Bytes} (place : Place) {v : Bytes} : v ∈ vars →
      Scoped functions .value vars (.word place v)
  | arithmetic {vars : List Bytes} (place : Place) {p : Primitive} {first : Expr}
      {rest : List Expr} : p ∈ arithmetic → Scoped functions .value vars first →
      (∀ a ∈ rest, Scoped functions .value vars a) →
      Scoped functions .value vars (.apply place p.name (first :: rest))
  | comparison {vars : List Bytes} (place : Place) {p : Primitive} {a b : Expr} :
      p ∈ comparisons → Scoped functions .value vars a → Scoped functions .value vars b →
      Scoped functions .value vars (.apply place p.name [a, b])
  | array {vars : List Bytes} (place : Place) {args : List Expr} :
      (∀ a ∈ args, Scoped functions .value vars a) →
      Scoped functions .value vars (.apply place Primitive.array.name args)
  | length {vars : List Bytes} (place inner : Place) {args : List Expr} :
      (∀ a ∈ args, Scoped functions .value vars a) →
      Scoped functions .value vars
        (.apply place Primitive.length.name [.apply inner Primitive.array.name args])
  | element {vars : List Bytes} (place inner : Place) {args : List Expr} {i : Expr} :
      (∀ a ∈ args, Scoped functions .value vars a) → Scoped functions .value vars i →
      Scoped functions .value vars
        (.apply place Primitive.element.name [.apply inner Primitive.array.name args, i])
  | call {vars : List Bytes} (place : Place) {f : Bytes} {a : Expr} : f ∈ functions →
      Scoped functions .value vars a → Scoped functions .value vars (.apply place f [a])
  | applied {vars : List Bytes} (place param : Place) {q : Bytes} {body a : Expr} : IsOwn q →
      Scoped functions .body (q :: vars) body → Scoped functions .value vars a →
      Scoped functions .value vars
        (.closure (.apply place SpecialForm.fun.name [.word param q, body]) [a])
  | result {vars : List Bytes} {e : Expr} : Scoped functions .value vars e →
      Scoped functions .body vars e
  | branch {vars : List Bytes} (place : Place) {cond yes no : Expr} :
      Scoped functions .value vars cond → Scoped functions .value vars yes →
      Scoped functions .value vars no →
      Scoped functions .body vars (.apply place SpecialForm.if.name [cond, yes, no])

/-- A statement, with the variables and functions that are defined before it and after it. -/
inductive Statement : List Bytes → List Bytes → Expr → List Bytes → List Bytes → Prop where
  | value {vars functions : List Bytes} {e : Expr} : Scoped functions .value vars e →
      Statement vars functions e vars functions
  | branch {vars functions : List Bytes} (place : Place) {cond yes no : Expr} :
      Scoped functions .value vars cond → Scoped functions .value vars yes →
      Scoped functions .value vars no →
      Statement vars functions (.apply place SpecialForm.if.name [cond, yes, no]) vars functions
  | printed {vars functions : List Bytes} (place : Place) {e : Expr} :
      Scoped functions .value vars e →
      Statement vars functions (.apply place Primitive.print.name [e]) vars functions
  | declared {vars functions : List Bytes} (place target : Place) {v : Bytes} {e : Expr} :
      IsOwn v → Scoped functions .value vars e →
      Statement vars functions (.apply place SpecialForm.define.name [.word target v, e])
        (v :: vars) functions
  | defined {vars functions : List Bytes} (place target inner param : Place) {f q : Bytes}
      {body : Expr} : IsOwn f → IsOwn q → Scoped functions .body (q :: vars) body →
      Statement vars functions (.apply place SpecialForm.define.name
        [.word target f, .apply inner SpecialForm.fun.name [.word param q, body]])
        vars (f :: functions)
  | assigned {vars functions : List Bytes} (place target : Place) {v : Bytes} {e : Expr} :
      v ∈ vars → Scoped functions .value vars e →
      Statement vars functions (.apply place SpecialForm.set.name [.word target v, e])
        vars functions
  | loop {vars functions vars' functions' : List Bytes} (place inner : Place) {e : Expr} :
      Statement vars functions e vars' functions' →
      Statement vars functions
        (.apply place SpecialForm.while.name [.word inner (utf8 (toString false)), e])
        vars' functions'

/-- Statements one after the other, where the given variables and functions are defined. -/
inductive Statements : List Bytes → List Bytes → List Expr → Prop where
  | nil {vars functions : List Bytes} : Statements vars functions []
  | cons {vars functions vars' functions' : List Bytes} {e : Expr} {rest : List Expr} :
      Statement vars functions e vars' functions' → Statements vars' functions' rest →
      Statements vars functions (e :: rest)

/-- The variable that a statement defines. -/
def declared? : Expr → Option Bytes
  | apply _ name [target, value] =>
    if name = SpecialForm.define.name then
      if value.isCallOf SpecialForm.fun.name then none else target.word?
    else if name = SpecialForm.while.name then declared? value
    else none
  | _ => none

/-- The operators that begin as their first argument does. -/
def leading : List Bytes :=
  (arithmetic ++ comparisons ++ [Primitive.length, Primitive.element]).map Primitive.name

/-- The forms whose code a brace closes. -/
def braced : List Bytes := [SpecialForm.if.name, SpecialForm.while.name]

/-- What the line of a statement is to the lines around it: whether a brace closes it, and else
whether it begins with a bracket. -/
def lineShape : Expr → LineKind
  | apply _ name [] =>
    if braced.contains name then .closed
    else if name = Primitive.array.name then .hollow
    else .fresh
  | apply _ name (first :: _) =>
    if braced.contains name then .closed
    else if name = Primitive.array.name then .bracketed
    else if leading.contains name then lineShape first
    else .fresh
  | closure .. => .bracketed
  | _ => .fresh

/-- No statement begins with an array without elements, unless a brace closes the one before. -/
def AreApart (args : List Expr) : Prop :=
  (args.map lineShape).IsChain fun k m => k.mayPrecede m = true

instance (args : List Expr) : Decidable (AreApart args) :=
  inferInstanceAs (Decidable (List.IsChain _ _))

end Expr

end EggLang
