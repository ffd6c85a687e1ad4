import Mathlib.Data.List.Basic
import EggLang.Proofs.Compiler.Registration
import EggLang.Proofs.Compiler.Runs

/-!
# How a function body ends

In a function body the last argument of a `do` decides what the function gives, by its form: a
word and a call of a function or a primitive are returned, a nested `do` is followed by
`return false`. The name of a call is looked up before its form is, and special forms are not left
out. So a program that has registered a function under the name `do` or `fun`, which no call can
reach, changes how later bodies end that end in one of these forms.
-/

namespace EggLang.Compiler

variable {env : Nat} {s t u : State} {b : Binding} {code : Code} {args : List Expr}
  {place : Place} {name : Bytes} {form : SpecialForm} {last : Expr}

/-- What stands at the end of a function body for the last argument of its `do`, by the form of the
argument and given its code. -/
inductive State.Ends (s : State) (code : Code) : Expr → List Code → Prop
  | word {place : Place} {name : Bytes} : s.Ends code (.word place name) [.return code]
  | function {place : Place} {name : Bytes} {args : List Expr}
      (plain : SpecialForm.ofName? name = none) (registered : s.functions.has name = true) :
      s.Ends code (.apply place name args) [code.returning]
  /-- Nothing but `print` is called for its effect alone. -/
  | primitive {place : Place} {name : Bytes} {args : List Expr} {p : Primitive}
      (plain : SpecialForm.ofName? name = none)
      (bound : s.frames.root.get? name = some (.primitive p))
      (noPrint : name ≠ Primitive.print.name) :
      s.Ends code (.apply place name args) [code.returning]
  | nested {place : Place} {args : List Expr} :
      s.Ends code (.apply place SpecialForm.do.name args) [code, .return .false]
  | form {place : Place} {args : List Expr} {form : SpecialForm} (noDo : form ≠ .do) :
      s.Ends code (.apply place form.name args) [code]
  | call {place : Place} {name : Bytes} {args : List Expr}
      (plain : SpecialForm.ofName? name = none) (new : s.functions.has name = false)
      (unbound : ∀ p, s.frames.root.get? name = some (.primitive p) →
        name = Primitive.print.name) :
      s.Ends code (.apply place name args) [code]
  | other {e : Expr} (noWord : e.word? = none) (noCall : e.operator? = none) : s.Ends code e [code]

/-- A nested `do` or a function literal whose operator passes for the name of a function. -/
def State.Mistakes (s : State) (last : Expr) : Prop :=
  ∃ form : SpecialForm, (form = .do ∨ form = .fun) ∧ last.operator? = some form.name
    ∧ s.returnsValue form.name = true

theorem returnsValue_iff : s.returnsValue name = true ↔
    s.functions.has name = true ∨
      (∃ p, s.frames.root.get? name = some (.primitive p)) ∧ name ≠ Primitive.print.name := by
  rw [State.returnsValue, Frames.get?_root]
  cases s.frames.own? 0 name with
  | none => simp
  | some b => cases b <;> simp [Binding.isPrimitive]

/-- A word is lowered to a name. -/
theorem returning_of_word (run : evaluateWord place name env s = .ok b t) :
    b.toCode.returning = .return b.toCode := by
  rw [evaluateWord_apply] at run
  split at run
  next => cases run; rfl
  next => cases run; rfl
  next =>
    split at run
    next => cases run; rfl
    next => cases run

theorem closing_apply (s : State) (place : Place) (name : Bytes) (args : List Expr) (code : Code) :
    s.closing (.apply place name args) code =
      if s.returnsValue name then [code.returning]
      else if name = SpecialForm.do.name then [code, .return .false]
      else [code] := by
  simp [State.closing, Expr.word?, Expr.operator?, Expr.isCallOf]

/-- The last argument is closed by its form, unless its operator passes for a function. -/
theorem ends_closing (run : evaluate last env s = .ok b t) (clear : ¬ t.Mistakes last) :
    t.Ends b.toCode last (t.closing last b.toCode) := by
  cases last with
  | number | string | closure => exact .other rfl rfl
  | word place name =>
    rw [evaluate] at run
    change t.Ends b.toCode _ [b.toCode.returning]
    rw [returning_of_word run]
    exact .word
  | apply place name args =>
    rw [closing_apply]
    cases special : SpecialForm.ofName? name with
    | none =>
      by_cases returns : t.returnsValue name = true
      · rw [if_pos returns]
        rcases returnsValue_iff.1 returns with registered | ⟨⟨p, bound⟩, noPrint⟩
        · exact .function special registered
        · exact .primitive special bound noPrint
      · have noDo : name ≠ SpecialForm.do.name := by
          rintro rfl
          rw [SpecialForm.ofName?_name] at special
          cases special
        rw [if_neg returns, if_neg noDo]
        rw [returnsValue_iff, not_or, not_and, not_not] at returns
        exact .call special (Bool.eq_false_iff.2 returns.1) fun p bound => returns.2 ⟨p, bound⟩
    | some form =>
      obtain rfl := SpecialForm.name_of_ofName? special
      rw [evaluate_form special] at run
      have unreturned (either : form = .do ∨ form = .fun) : ¬ t.returnsValue form.name = true :=
        fun returns => clear ⟨form, either, rfl, returns⟩
      cases form with
      | «do» =>
        rw [if_neg (unreturned (.inl rfl)), if_pos rfl]
        exact .nested
      | «fun» =>
        rw [if_neg (unreturned (.inr rfl)), if_neg (by decide)]
        exact .form (by decide)
      | «if» | «while» | define | set =>
        -- the code is a statement, which is not returned even if the operator passes for a function
        obtain ⟨c, rfl, statement⟩ := code_of_form run
        have same : (Binding.code c).toCode.returning = (Binding.code c).toCode :=
          statement (by decide)
        rw [same, if_neg (by decide : ¬ _ = SpecialForm.do.name), ite_self]
        exact .form (by decide)

theorem closing_of_mistakes (mistakes : t.Mistakes last) (code : Code) :
    t.closing last code = [code.returning] := by
  obtain ⟨form, -, operator, returns⟩ := mistakes
  rw [State.closing, operator]
  simp [returns]

/-- A `do` with arguments that succeeds lowers them from left to right. Outside function bodies
their codes are its statements. In a function body the last one is closed by its form, except that
a `do` or a function literal there is returned when its operator passes for a function. -/
theorem do_statements (done : evaluate (.apply place SpecialForm.do.name args) env s = .ok b u)
    (some : args ≠ []) :
    ∃ front last codes code closed, args = front ++ [last]
      ∧ lowerAll args env s = .ok (codes ++ [code]) u
      ∧ b = .code (.block (codes ++ closed))
      ∧ (u.frames.isFunction env = false → closed = [code])
      ∧ (u.frames.isFunction env = true →
        (¬ u.Mistakes last → u.Ends code last closed)
          ∧ (u.Mistakes last → closed = [code.returning])) := by
  obtain ⟨front, last, rfl⟩ : ∃ front last, args = front ++ [last] :=
    ⟨args.dropLast, args.getLast some, (List.dropLast_concat_getLast some).symm⟩
  rw [evaluate_form (SpecialForm.ofName?_name _)] at done
  obtain ⟨statements, t, done, ends⟩ := bind_eq_ok done
  cases ends
  rw [lowerDo_eq] at done
  obtain ⟨codes, v, run, done⟩ := bind_eq_ok done
  cases done
  obtain ⟨before, value, w, -, ran, long, rfl⟩ := lowerAll_append_ok run
  let closed := if u.frames.isFunction env then u.closing last value.toCode else [value.toCode]
  refine ⟨front, last, before, value.toCode, closed, rfl, run, ?_, ?_, ?_⟩
  · rw [statements_append u env last _ long]
  · intro outside
    exact if_neg (by simp [outside])
  · intro inside
    have ends : closed = u.closing last value.toCode := if_pos inside
    rw [ends]
    exact ⟨ends_closing ran, fun mistakes => closing_of_mistakes mistakes _⟩

/-- A function body that prints and ends in a nested `do`. -/
theorem do_statements_nested :
    let t := Compiler.new (utf8 "  ")
    let here : Place := ⟨0, 1, 1⟩
    let args := [.apply here (utf8 "print") [.number here (utf8 "2")],
      .apply here SpecialForm.do.name [.number here (utf8 "1")]]
    let s := final (openFunction [] 1 t.start)
    let u := final (evaluate (.apply here SpecialForm.do.name args) 2 s)
    s.frames.isFunction 2 = true ∧ args ≠ [] ∧
      ∃ b, evaluate (.apply here SpecialForm.do.name args) 2 s = .ok b u ∧
        ∃ front last codes code closed, args = front ++ [last]
          ∧ lowerAll args 2 s = .ok (codes ++ [code]) u
          ∧ b = .code (.block (codes ++ closed))
          ∧ (u.frames.isFunction 2 = false → closed = [code])
          ∧ (u.frames.isFunction 2 = true →
            (¬ u.Mistakes last → u.Ends code last closed)
              ∧ (u.Mistakes last → closed = [code.returning])) := by
  intro t here args s u
  have done : ∃ b, evaluate (.apply here SpecialForm.do.name args) 2 s = .ok b u :=
    ⟨_, by with_unfolding_all rfl⟩
  obtain ⟨b, done⟩ := done
  have some : args ≠ [] := by simp [args]
  exact ⟨by with_unfolding_all rfl, some, b, done, do_statements done some⟩

/-- A program registers a function under the name `do`. In a later program the nested `do` at the
end of a function body, which is not a call of it, is not followed by `return false` any more. -/
theorem registered_do_not_closed :
    let t := Compiler.new (utf8 "  ")
    let registered := (t.compile (utf8 "define(do,fun(1))")).2
    let source := utf8 "fun(do(do(1)))"
    let body := utf8 "function() \x7b\n  if (arguments.length != 0) \x7b\n"
      ++ utf8 "    throw new TypeError(\"Wrong number of arguments\")\n  \x7d\n  1"
    (t.compile source).1 = .ok (body ++ utf8 "\n  return false\n\x7d")
      ∧ (registered.compile source).1 = .ok (body ++ utf8 "\n\x7d") := by
  decide +kernel

end EggLang.Compiler
