import EggLang.Script.Parser

/-!
# Expressions that differ in what follows their functions

A function literal keeps the script from its text on, so that the same text is read as different
trees in different scripts. Two trees are alike if they differ in nothing else: their functions
have the same texts. What the reader asks of a tree is the same for both.
-/

namespace EggLang.Script

mutual

/-- Two expressions that differ at most in the script behind the texts of their functions. -/
inductive Expr.Alike : Expr → Expr → Prop where
  | refl (e : Expr) : Expr.Alike e e
  | unary (op : UnaryOp) {x y : Expr} : Expr.Alike x y → Expr.Alike (.unary op x) (.unary op y)
  | binary (op : BinaryOp) {w x y z : Expr} : Expr.Alike w y → Expr.Alike x z →
      Expr.Alike (.binary op w x) (.binary op y z)
  | member {x y : Expr} (name : Units) : Expr.Alike x y →
      Expr.Alike (.member false x name) (.member false y name)
  | index {w x y z : Expr} : Expr.Alike w y → Expr.Alike x z →
      Expr.Alike (.index false w x) (.index false y z)
  | call {x y : Expr} {xs ys : List Expr} : Expr.Alike x y → Expr.AlikeAll xs ys →
      Expr.Alike (.call false x xs) (.call false y ys)
  | construct {x y : Expr} {xs ys : List Expr} : Expr.Alike x y → Expr.AlikeAll xs ys →
      Expr.Alike (.construct x xs) (.construct y ys)
  | array {xs ys : List Expr} : Expr.AlikeAll xs ys → Expr.Alike (.array xs) (.array ys)
  | function {f g : Function} : Function.Alike f g → Expr.Alike (.function f) (.function g)

inductive Expr.AlikeAll : List Expr → List Expr → Prop where
  | nil : Expr.AlikeAll [] []
  | cons {x y : Expr} {xs ys : List Expr} : Expr.Alike x y → Expr.AlikeAll xs ys →
      Expr.AlikeAll (x :: xs) (y :: ys)

/-- Two functions with the same text. -/
inductive Function.Alike : Function → Function → Prop where
  | mk {info : FunctionInfo} {onwards : List Char} {params : List Expr} {body others : List Stmt} :
      onwards.take info.extent = info.onwards.take info.extent → Stmt.AlikeAll body others →
      Function.Alike (.mk info params body) (.mk { info with onwards } params others)

inductive Stmt.Alike : Stmt → Stmt → Prop where
  | refl (s : Stmt) : Stmt.Alike s s
  | expression {x y : Expr} : Expr.Alike x y → Stmt.Alike (.expression x) (.expression y)
  | return {x y : Expr} : Expr.Alike x y → Stmt.Alike (.return x) (.return y)
  | throw {x y : Expr} : Expr.Alike x y → Stmt.Alike (.throw x) (.throw y)
  | if {x y : Expr} {s t no : Stmt} : Expr.Alike x y → Stmt.Alike s t →
      Stmt.Alike (.if x s no) (.if y t no)
  | block {ss ts : List Stmt} : Stmt.AlikeAll ss ts → Stmt.Alike (.block ss) (.block ts)

inductive Stmt.AlikeAll : List Stmt → List Stmt → Prop where
  | nil : Stmt.AlikeAll [] []
  | cons {s t : Stmt} {ss ts : List Stmt} : Stmt.Alike s t → Stmt.AlikeAll ss ts →
      Stmt.AlikeAll (s :: ss) (t :: ts)

end

namespace Stmt

variable {s t : Stmt} {ss ts us vs : List Stmt}

theorem AlikeAll.append (h : AlikeAll ss ts) (g : AlikeAll us vs) :
    AlikeAll (ss ++ us) (ts ++ vs) := by
  induction ss generalizing ts with
  | nil =>
    cases h
    exact g
  | cons s ss ih =>
    cases h with
    | cons first rest => exact .cons first (ih rest)

theorem AlikeAll.reverse (h : AlikeAll ss ts) : AlikeAll ss.reverse ts.reverse := by
  induction ss generalizing ts with
  | nil =>
    cases h
    exact .nil
  | cons s ss ih =>
    cases h with
    | cons first rest =>
      rw [List.reverse_cons, List.reverse_cons]
      exact (ih rest).append (.cons first .nil)

mutual

theorem Alike.variables {s t : Stmt} (h : s.Alike t) : s.variables_ = t.variables_ :=
  match h with
  | .refl _ => rfl
  | .expression _ | .return _ | .throw _ => by simp [variables_]
  | .if _ yes => by rw [variables_, variables_, yes.variables]
  | .block h => by rw [variables_, variables_, h.variables]

theorem AlikeAll.variables {ss ts : List Stmt} (h : AlikeAll ss ts) :
    variablesAll ss = variablesAll ts :=
  match h with
  | .nil => rfl
  | .cons h hs => by rw [variablesAll, variablesAll, h.variables, hs.variables]

end

theorem Alike.locals (h : s.Alike t) : s.locals = t.locals := by
  cases h <;> rfl

theorem functions_cons (s : Stmt) (ss : List Stmt) :
    functions (s :: ss) = functions [s] ++ functions ss := by
  cases s with
  | labelled label body =>
    rw [functions, functions]
    split <;> simp [functions]
  | _ => simp [functions]

theorem AlikeAll.functions (h : AlikeAll ss ts) : functions ss = functions ts := by
  induction ss generalizing ts with
  | nil =>
    cases h
    rfl
  | cons s ss ih =>
    cases h with
    | @cons _ t _ _ first rest =>
      rw [functions_cons, functions_cons t, ih rest]
      cases first <;> simp [Stmt.functions]

theorem AlikeAll.flatMap_locals (h : AlikeAll ss ts) :
    ss.flatMap (fun s => s.locals.map (·.1)) = ts.flatMap fun s => s.locals.map (·.1) := by
  induction ss generalizing ts with
  | nil =>
    cases h
    rfl
  | cons s ss ih =>
    cases h with
    | cons first rest => rw [List.flatMap_cons, List.flatMap_cons, first.locals, ih rest]

end Stmt

namespace Parser

mutual

theorem hasDefault_alike {x y : Expr} (h : x.Alike y) : hasDefault x = hasDefault y :=
  match h with
  | .refl _ => rfl
  | .array h => by rw [hasDefault, hasDefault, hasDefaultAny_alike h]
  | .unary .. | .binary .. | .member .. | .index .. | .call .. | .construct .. | .function .. => by
    simp [hasDefault]

theorem hasDefaultAny_alike {xs ys : List Expr} (h : Expr.AlikeAll xs ys) :
    hasDefaultAny xs = hasDefaultAny ys :=
  match h with
  | .nil => rfl
  | .cons h hs => by rw [hasDefaultAny, hasDefaultAny, hasDefault_alike h, hasDefaultAny_alike hs]

end

theorem isWellScoped_alike {ss ts : List Stmt} (h : Stmt.AlikeAll ss ts) (taken : List String)
    (isFunction : Bool) : isWellScoped taken ss isFunction = isWellScoped taken ts isFunction := by
  rw [isWellScoped, isWellScoped, h.functions, h.flatMap_locals, h.variables]

end Parser

end EggLang.Script
