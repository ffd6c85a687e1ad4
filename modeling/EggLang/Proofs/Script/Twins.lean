import EggLang.Proofs.Script.Entry

/-!
# Statements of generated code in two scripts

The same lines are read as the same statements in two scripts, except that a function literal keeps
the script from its text on. Such statements are twins if they are made of what generated code is
made of: numbers, texts, names, arrays, functions, operations, calls, members, assignments,
branches and loops. Their names are none that other statements declare, unless they are declared
around them, as all that they assign to is.
-/

namespace EggLang.Script

/-- The operators of generated code. -/
def BinaryOp.isGenerated : BinaryOp → Bool
  | .add | .subtract | .multiply | .divide | .looseEqual | .looseUnequal | .strictEqual
  | .strictUnequal | .less | .greater => true
  | _ => false

/-- A name that stands for the same in two scripts: other statements do not declare it, or it is
declared nearer, and it has no meaning of its own. -/
structure IsShared (others bound : List String) (name : String) : Prop where
  free : name ∉ others ∨ name ∈ bound
  notArguments : name ≠ "arguments"
  notEval : name ≠ "eval"

mutual

/-- The same expression in two scripts, where `bound` are the names declared around it. -/
inductive Expr.Twins (others : List String) : List String → Expr → Expr → Prop where
  | number {bound : List String} (x : Numeric) : Expr.Twins others bound (.number x) (.number x)
  | string {bound : List String} (u : Units) : Expr.Twins others bound (.string u) (.string u)
  | bool {bound : List String} (b : Bool) : Expr.Twins others bound (.bool b) (.bool b)
  | hole {bound : List String} : Expr.Twins others bound .hole .hole
  | ident {bound : List String} {name : String} : IsShared others bound name →
      Expr.Twins others bound (.ident name) (.ident name)
  | array {bound : List String} {xs ys : List Expr} : Expr.TwinsAll others bound xs ys →
      Expr.Twins others bound (.array xs) (.array ys)
  | function {bound : List String} {f g : Function} : Function.Twins others bound f g →
      Expr.Twins others bound (.function f) (.function g)
  | negate {bound : List String} {x y : Expr} : Expr.Twins others bound x y →
      Expr.Twins others bound (.unary .negate x) (.unary .negate y)
  | binary {bound : List String} {op : BinaryOp} {w x y z : Expr} : op.isGenerated = true →
      Expr.Twins others bound w y → Expr.Twins others bound x z →
      Expr.Twins others bound (.binary op w x) (.binary op y z)
  | assign {bound : List String} {name : String} {x y : Expr} : IsShared others bound name →
      name ∈ bound → Expr.Twins others bound x y →
      Expr.Twins others bound (.assign (.ident name) x) (.assign (.ident name) y)
  | call {bound : List String} {x y : Expr} {xs ys : List Expr} : x ≠ argumentCount →
      Expr.Twins others bound x y → Expr.TwinsAll others bound xs ys →
      Expr.Twins others bound (.call false x xs) (.call false y ys)
  | construct {bound : List String} {x y : Expr} {xs ys : List Expr} :
      Expr.Twins others bound x y → Expr.TwinsAll others bound xs ys →
      Expr.Twins others bound (.construct x xs) (.construct y ys)
  | member {bound : List String} {x y : Expr} (name : Units) : Expr.Twins others bound x y →
      Expr.Twins others bound (.member false x name) (.member false y name)
  /-- The number of arguments of a call. -/
  | count {bound : List String} : "arguments" ∉ others →
      Expr.Twins others bound argumentCount argumentCount
  | index {bound : List String} {w x y z : Expr} : Expr.Twins others bound w y →
      Expr.Twins others bound x z →
      Expr.Twins others bound (.index false w x) (.index false y z)

inductive Expr.TwinsAll (others : List String) : List String → List Expr → List Expr → Prop where
  | nil {bound : List String} : Expr.TwinsAll others bound [] []
  | cons {bound : List String} {x y : Expr} {xs ys : List Expr} : Expr.Twins others bound x y →
      Expr.TwinsAll others bound xs ys → Expr.TwinsAll others bound (x :: xs) (y :: ys)

/-- The same function, without a name of its own and with names for its parameters. -/
inductive Function.Twins (others : List String) : List String → Function → Function → Prop where
  | mk {bound : List String} {info : FunctionInfo} {script : List Char} {extent : Nat}
      {params params' : List Expr} {body body' : List Stmt} :
      info.kind = .normal → info.name = none → info.isSimple = true →
      "arguments" ∉ info.parameters → "arguments" ∉ info.variables_ →
      script.take extent = info.onwards.take info.extent →
      Stmt.TwinsAll others true (info.parameters ++ info.variables_ ++ bound) body body' →
      Function.Twins others bound (.mk info params body)
        (.mk { info with onwards := script, extent } params' body')

/-- The same statement; `ends` tells whether it may end the call around it. -/
inductive Stmt.Twins (others : List String) : Bool → List String → Stmt → Stmt → Prop where
  | expression {ends : Bool} {bound : List String} {x y : Expr} : Expr.Twins others bound x y →
      Stmt.Twins others ends bound (.expression x) (.expression y)
  | declare {ends : Bool} {bound : List String} {name : String} {x y : Expr} :
      IsShared others bound name → name ∈ bound → Expr.Twins others bound x y →
      Stmt.Twins others ends bound (.declare .var (.ident name) x) (.declare .var (.ident name) y)
  | if {ends : Bool} {bound : List String} {x y : Expr} {s t u v : Stmt} :
      Expr.Twins others bound x y → Stmt.Twins others ends bound s u →
      Stmt.Twins others ends bound t v →
      Stmt.Twins others ends bound (.if x s t) (.if y u v)
  | while {ends : Bool} {bound : List String} {x y : Expr} {s t : Stmt} :
      Expr.Twins others bound x y → Stmt.Twins others ends bound s t →
      Stmt.Twins others ends bound (.while x s) (.while y t)
  | return {bound : List String} {x y : Expr} : Expr.Twins others bound x y →
      Stmt.Twins others true bound (.return x) (.return y)
  | throw {ends : Bool} {bound : List String} {x y : Expr} : Expr.Twins others bound x y →
      Stmt.Twins others ends bound (.throw x) (.throw y)
  | block {ends : Bool} {bound : List String} {ss ts : List Stmt} :
      Stmt.TwinsAll others ends bound ss ts →
      Stmt.Twins others ends bound (.block ss) (.block ts)
  | empty {ends : Bool} {bound : List String} : Stmt.Twins others ends bound .empty .empty

inductive Stmt.TwinsAll (others : List String) :
    Bool → List String → List Stmt → List Stmt → Prop where
  | nil {ends : Bool} {bound : List String} : Stmt.TwinsAll others ends bound [] []
  | cons {ends : Bool} {bound : List String} {s t : Stmt} {ss ts : List Stmt} :
      Stmt.Twins others ends bound s t → Stmt.TwinsAll others ends bound ss ts →
      Stmt.TwinsAll others ends bound (s :: ss) (t :: ts)

end

theorem Function.Twins.info {others bound : List String} {f g : Function}
    (h : Function.Twins others bound f g) :
    f.info.kind = .normal ∧ f.info.name = none ∧ f.info.isSimple = true
      ∧ g.info = { f.info with onwards := g.info.onwards, extent := g.info.extent } := by
  cases h with
  | mk kind name simple => exact ⟨kind, name, simple, rfl⟩

end EggLang.Script
