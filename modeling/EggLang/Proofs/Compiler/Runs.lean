import EggLang.Proofs.Compiler.Traversal

/-!
# Runs of a lowering

What a lowering does in a state, form by form: a word is looked up, a call is of a special form, of
a registered function or of what its operator stands for, and the arguments of a form or of a call
are lowered from left to right. A run over them fails where the first of them fails, and a `do` is
such a run, whose last code is closed in a function body.
-/

namespace EggLang.Compiler

variable {α β : Type} {args rest : List Expr} {e : Expr} {env : Nat} {s t u : State}
  {d : Diagnostic} {place : Place} {name : Bytes} {fault : Fault} {b : Binding}

/-- A run of one lowering after another fails in the one or, after a run of it, in the other. -/
theorem bind_eq_error {m : Lowering α} {f : α → Lowering β}
    (fails : (m >>= f) s = .error d u) :
    m s = .error d u ∨ ∃ a t, m s = .ok a t ∧ f a t = .error d u := by
  simp only [bind, EStateM.bind] at fails
  cases run : m s with
  | error d' t =>
    rw [run] at fails
    exact .inl (by cases fails; rfl)
  | ok a t =>
    rw [run] at fails
    exact .inr ⟨a, t, rfl, fails⟩

theorem bind_of_error {m : Lowering α} (fails : m s = .error d t) (f : α → Lowering β) :
    (m >>= f) s = .error d t := by
  simp only [bind, EStateM.bind, fails]

theorem pure_ne_error {a : α} : (pure a : Lowering α) s ≠ .error d t := nofun

/-- What is done with the result of a run cannot fail, so the run did. -/
theorem map_eq_error {m : Lowering α} {f : α → β}
    (fails : (m >>= fun a => pure (f a)) s = .error d t) : m s = .error d t := by
  rcases bind_eq_error fails with fails | ⟨_, _, _, fails⟩
  · exact fails
  · exact absurd fails pure_ne_error

theorem refuse_eq_error (fails : (refuse fault place : Lowering α) s = .error d t) :
    d = .ofFault fault place ∧ t = s := by
  cases fails
  exact ⟨rfl, rfl⟩

/-! ## Words and calls -/

theorem evaluateWord_apply (place : Place) (name : Bytes) (env : Nat) (s : State) :
    evaluateWord place name env s = match s.frames.get? env name with
      | some (.primitive p) => .ok (.primitive p) s
      | some (.code _) => .ok (.code (.ident name)) s
      | none =>
        if s.functions.has name then .ok (.code (.ident name)) s
        else .error (.ofFault (.undefinedBinding name) place) s := by
  change (match s.frames.get? env name with
    | some (.primitive p) => (pure (.primitive p) : Lowering Binding)
    | some (.code _) => pure (.code (.ident name))
    | none =>
      if s.functions.has name then pure (.code (.ident name))
      else refuse (.undefinedBinding name) place) s = _
  cases s.frames.get? env name with
  | none => by_cases new : s.functions.has name = true <;> simp only [new] <;> rfl
  | some b => cases b <;> rfl

theorem evaluateWord_eq_error (fails : evaluateWord place name env s = .error d t) :
    s.frames.get? env name = none ∧ s.functions.has name = false
      ∧ d = .ofFault (.undefinedBinding name) place ∧ t = s := by
  rw [evaluateWord_apply] at fails
  split at fails
  next => cases fails
  next => cases fails
  next unbound =>
    split at fails
    next => cases fails
    next new =>
      cases fails
      exact ⟨unbound, by simpa using new, rfl, rfl⟩

/-- Lowers a special form. -/
def lowerForm (form : SpecialForm) (place : Place) (args : List Expr) (env : Nat) :
    Lowering Binding :=
  match form with
  | .if => lowerIf place args env
  | .while => lowerWhile place args env
  | .do => do return .code (.block (← lowerDo args env))
  | .define => lowerDefine place args env
  | .set => lowerSet place args env
  | .fun => lowerFun place [] args env

theorem evaluate_form {form : SpecialForm} (named : SpecialForm.ofName? name = some form)
    (place : Place) (args : List Expr) (env : Nat) :
    evaluate (.apply place name args) env = lowerForm form place args env := by
  rw [evaluate]
  cases form <;> simp only [named] <;> rfl

/-- Applies the value of an operator that is not registered: a primitive is expanded, and code
cannot be applied. -/
def applyBinding (value : Binding) (place : Place) (name : Bytes) (args : List Expr) (env : Nat) :
    Lowering Binding :=
  match value with
  | .primitive p => do return .code (p.expand (← lowerAll args env))
  | .code _ => refuse (.notApplicable name) place

theorem evaluate_apply (plain : SpecialForm.ofName? name = none) (place : Place)
    (args : List Expr) (env : Nat) (s : State) :
    evaluate (.apply place name args) env s =
      if s.functions.has name then
        (do return .code (.call (.ident name) (← lowerAll args env)) : Lowering Binding) s
      else (do applyBinding (← evaluateWord place name env) place name args env) s := by
  have looked : (get : Lowering State) s = .ok s s := rfl
  rw [evaluate]
  simp only [plain]
  rw [bind_ok looked]
  by_cases registered : s.functions.has name = true
  · rw [if_pos registered, if_pos registered]
  · rw [if_neg registered, if_neg registered]
    refine congrArg (fun f => (evaluateWord place name env >>= f) s) (funext fun value => ?_)
    cases value <;> rfl

/-! ## Definitions and assignments -/

/-- A `define` that succeeds lowers its value, a function after it is registered, and binds the
name if the value is none and the frame did not own the name. -/
theorem lowerDefine_ok (done : lowerDefine place args env s = .ok b u) :
    ∃ target value x v t, args = [target, value] ∧ target.word? = some x ∧
      (value.isCallOf SpecialForm.fun.name = true
          ∧ evaluate value env { s with functions := s.functions.add x } = .ok v t
          ∧ b = .code (.var x v.toCode) ∧ u = t
        ∨ value.isCallOf SpecialForm.fun.name = false ∧ evaluate value env s = .ok v t
          ∧ (s.frames.owns env x = true ∧ b = .code (.assign x v.toCode) ∧ u = t
            ∨ s.frames.owns env x = false ∧ b = .code (.var x v.toCode)
              ∧ u = { t with frames := t.frames.set env x v })) := by
  unfold lowerDefine at done
  split at done
  next target value =>
    cases word : target.word? with
    | none =>
      simp only [word] at done
      cases done
    | some x =>
      simp only [word] at done
      refine ⟨target, value, x, ?_⟩
      cases kind : value.isCallOf SpecialForm.fun.name with
      | true =>
        rw [if_pos kind] at done
        obtain ⟨_, _, registers, done⟩ := bind_eq_ok done
        cases registers
        obtain ⟨v, t, run, done⟩ := bind_eq_ok done
        cases done
        exact ⟨v, _, rfl, word, .inl ⟨rfl, run, rfl, rfl⟩⟩
      | false =>
        have looked : (get : Lowering State) s = .ok s s := rfl
        rw [if_neg (by simp [kind]), bind_ok looked] at done
        cases owned : s.frames.owns env x with
        | true =>
          rw [if_pos owned] at done
          obtain ⟨v, t, run, done⟩ := bind_eq_ok done
          cases done
          exact ⟨v, _, rfl, word, .inr ⟨rfl, run, .inl ⟨rfl, rfl, rfl⟩⟩⟩
        | false =>
          rw [if_neg (by simp [owned])] at done
          obtain ⟨v, t, run, done⟩ := bind_eq_ok done
          cases done
          exact ⟨v, t, rfl, word, .inr ⟨rfl, run, .inr ⟨rfl, rfl, rfl⟩⟩⟩
  next => cases done

/-- A `set` that succeeds lowers its value and rebinds the name in the frame that it is found in. -/
theorem lowerSet_ok (done : lowerSet place args env s = .ok b u) :
    ∃ target value rest x v t frame, args = target :: value :: rest ∧ target.word? = some x
      ∧ evaluate value env s = .ok v t ∧ t.targetOf? env x = some frame
      ∧ b = .code (.assign x v.toCode)
      ∧ u = { t with
        frames := t.frames.set frame x v,
        rootChanges := if frame = 0 then t.rootChanges + 1 else t.rootChanges } := by
  unfold lowerSet at done
  split at done
  next => cases done
  next => cases done
  next target value rest =>
    split at done
    next => cases done
    next =>
      obtain ⟨v, t, run, done⟩ := bind_eq_ok done
      cases word : target.word? with
      | none =>
        simp only [word] at done
        cases done
      | some x =>
        simp only [word] at done
        obtain ⟨found, w, rebound, done⟩ := bind_eq_ok done
        rw [rebind_apply] at rebound
        split at rebound
        next =>
          cases rebound
          cases done
        next frame at_frame =>
          cases rebound
          cases done
          exact ⟨target, value, rest, x, v, t, frame, rfl, word, run, at_frame, rfl, rfl⟩

theorem lowerFun_code {params : List Bytes} (run : lowerFun place params args env s = .ok b t) :
    ∃ c, b = .code c := by
  induction args generalizing params with
  | nil =>
    rw [lowerFun] at run
    cases run
  | cons arg rest ih =>
    cases rest with
    | nil =>
      rw [lowerFun] at run
      obtain ⟨_, _, -, run⟩ := bind_eq_ok run
      obtain ⟨_, _, -, run⟩ := bind_eq_ok run
      cases run
      exact ⟨_, rfl⟩
    | cons next later =>
      rw [lowerFun] at run
      · cases word : arg.word? with
        | none =>
          simp only [word] at run
          cases run
        | some x =>
          simp only [word] at run
          exact ih run
      · simp

/-- A special form is lowered to code, and all but `fun` are lowered to statements. -/
theorem code_of_form {form : SpecialForm} (run : lowerForm form place args env s = .ok b t) :
    ∃ c, b = .code c ∧ (form ≠ .fun → c.returning = c) := by
  cases form with
  | «if» =>
    change lowerIf place args env s = _ at run
    unfold lowerIf at run
    split at run
    next =>
      obtain ⟨_, _, -, run⟩ := bind_eq_ok run
      obtain ⟨_, _, -, run⟩ := bind_eq_ok run
      obtain ⟨_, _, -, run⟩ := bind_eq_ok run
      cases run
      exact ⟨_, rfl, fun _ => rfl⟩
    next => cases run
  | «while» =>
    change lowerWhile place args env s = _ at run
    unfold lowerWhile at run
    split at run
    next =>
      obtain ⟨_, _, -, run⟩ := bind_eq_ok run
      obtain ⟨_, _, -, run⟩ := bind_eq_ok run
      cases run
      exact ⟨_, rfl, fun _ => rfl⟩
    next => cases run
  | «do» =>
    obtain ⟨_, _, -, run⟩ := bind_eq_ok run
    cases run
    exact ⟨_, rfl, fun _ => rfl⟩
  | define =>
    obtain ⟨_, _, _, _, _, -, -, ⟨-, -, rfl, -⟩ | ⟨-, -, ⟨-, rfl, -⟩ | ⟨-, rfl, -⟩⟩⟩ :=
      lowerDefine_ok run
    all_goals exact ⟨_, rfl, fun _ => rfl⟩
  | set =>
    obtain ⟨_, _, _, _, _, _, _, -, -, -, -, rfl, -⟩ := lowerSet_ok run
    exact ⟨_, rfl, fun _ => rfl⟩
  | «fun» =>
    obtain ⟨c, rfl⟩ := lowerFun_code run
    exact ⟨c, rfl, fun other => absurd rfl other⟩

/-- Only a word is lowered to a primitive. -/
theorem word_of_primitive {p : Primitive} (run : evaluate e env s = .ok (.primitive p) t) :
    e.word? ≠ none := by
  cases e with
  | number | string =>
    rw [evaluate] at run
    cases run
  | word => simp [Expr.word?]
  | apply place name args =>
    cases special : SpecialForm.ofName? name with
    | some form =>
      rw [evaluate_form special] at run
      obtain ⟨_, same, -⟩ := code_of_form run
      cases same
    | none =>
      rw [evaluate_apply special] at run
      split at run
      next =>
        obtain ⟨_, _, -, run⟩ := bind_eq_ok run
        cases run
      next =>
        obtain ⟨value, _, -, run⟩ := bind_eq_ok run
        cases value with
        | code => cases run
        | primitive =>
          obtain ⟨_, _, -, run⟩ := bind_eq_ok run
          cases run
  | closure operator args =>
    rw [evaluate] at run
    obtain ⟨_, _, -, run⟩ := bind_eq_ok run
    obtain ⟨_, _, -, run⟩ := bind_eq_ok run
    cases run

/-! ## Lists of expressions -/

theorem lowerAll_of_error (fails : evaluate e env s = .error d t) (rest : List Expr) :
    lowerAll (e :: rest) env s = .error d t := by
  rw [lowerAll]
  exact bind_of_error fails _

theorem lowerAll_of_ok {value : Binding} (run : evaluate e env s = .ok value u)
    (fails : lowerAll rest env u = .error d t) : lowerAll (e :: rest) env s = .error d t := by
  rw [lowerAll, bind_ok run]
  exact bind_of_error fails _

theorem lowerAll_cons_ok {codes : List Code} (run : lowerAll (e :: rest) env s = .ok codes t) :
    ∃ value u others, evaluate e env s = .ok value u ∧ lowerAll rest env u = .ok others t
      ∧ codes = value.toCode :: others := by
  rw [lowerAll] at run
  obtain ⟨value, u, first, run⟩ := bind_eq_ok run
  obtain ⟨others, t', next, run⟩ := bind_eq_ok run
  cases run
  exact ⟨value, u, others, first, next, rfl⟩

/-- A list with a last expression is lowered up to it, and then it is. -/
theorem lowerAll_append_ok {last : Expr} {codes : List Code}
    (run : lowerAll (args ++ [last]) env s = .ok codes t) :
    ∃ before value u, lowerAll args env s = .ok before u ∧ evaluate last env u = .ok value t
      ∧ before.length = args.length ∧ codes = before ++ [value.toCode] := by
  induction args generalizing s codes with
  | nil =>
    obtain ⟨value, u, others, first, next, rfl⟩ := lowerAll_cons_ok run
    rw [lowerAll] at next
    cases next
    exact ⟨[], value, s, by rw [lowerAll]; rfl, first, rfl, rfl⟩
  | cons e rest ih =>
    obtain ⟨value, u, others, first, next, rfl⟩ := lowerAll_cons_ok run
    obtain ⟨before, final, v, others, last, long, rfl⟩ := ih next
    refine ⟨value.toCode :: before, final, v, ?_, last, by simp [long], rfl⟩
    rw [lowerAll, bind_ok first, bind_ok others]
    rfl

/-- A list fails at one of its expressions, those before it being lowered. -/
theorem lowerAll_eq_error (fails : lowerAll args env s = .error d t) :
    ∃ before next after codes u, args = before ++ next :: after
      ∧ lowerAll before env s = .ok codes u ∧ evaluate next env u = .error d t := by
  induction args generalizing s with
  | nil =>
    rw [lowerAll] at fails
    exact absurd fails pure_ne_error
  | cons e rest ih =>
    rw [lowerAll] at fails
    rcases bind_eq_error fails with first | ⟨value, u, first, fails⟩
    · exact ⟨[], e, rest, [], s, rfl, by rw [lowerAll]; rfl, first⟩
    · obtain ⟨before, next, after, codes, v, rfl, run, stopped⟩ := ih (map_eq_error fails)
      refine ⟨e :: before, next, after, value.toCode :: codes, v, rfl, ?_, stopped⟩
      rw [lowerAll, bind_ok first, bind_ok run]
      rfl

/-- The statements of a `do` in a frame, from the codes of its arguments: in a function body the
last one is closed. -/
def State.statements (s : State) (env : Nat) : List Expr → List Code → List Code
  | [last], [code] => if s.frames.isFunction env then s.closing last code else [code]
  | _ :: args, code :: codes => code :: s.statements env args codes
  | _, _ => []

/-- A `do` lowers its arguments and looks at the state only then. -/
theorem lowerDo_eq (args : List Expr) (env : Nat) :
    lowerDo args env = (do
      let codes ← lowerAll args env
      let s ← get
      return s.statements env args codes) := by
  induction args with
  | nil =>
    rw [lowerDo, lowerAll]
    rfl
  | cons e rest ih =>
    cases rest with
    | nil =>
      rw [lowerDo, lowerAll, lowerAll]
      simp only [bind_assoc, pure_bind]
      rfl
    | cons next later =>
      conv => rhs; rw [lowerAll]
      rw [lowerDo, ih]
      · simp only [bind_assoc, pure_bind]
        rfl
      · simp

theorem lowerDo_eq_error (fails : lowerDo args env s = .error d t) :
    lowerAll args env s = .error d t := by
  rw [lowerDo_eq] at fails
  rcases bind_eq_error fails with fails | ⟨_, _, _, fails⟩
  · exact fails
  · cases fails

theorem statements_append (s : State) (env : Nat) (last : Expr) (code : Code)
    {args : List Expr} {codes : List Code} (long : codes.length = args.length) :
    s.statements env (args ++ [last]) (codes ++ [code])
      = codes ++ if s.frames.isFunction env then s.closing last code else [code] := by
  induction args generalizing codes with
  | nil =>
    obtain rfl := List.length_eq_zero_iff.1 long
    rfl
  | cons e rest ih =>
    cases codes with
    | nil => cases long
    | cons c others =>
      have same : others.length = rest.length := Nat.succ.inj long
      have more : rest ++ [last] ≠ [] := by simp
      rw [List.cons_append, List.cons_append, List.cons_append, State.statements, ih same]
      exact fun alone _ => absurd alone more

end EggLang.Compiler
