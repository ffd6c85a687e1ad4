import EggLang.Proofs.Code.Literal
import EggLang.Proofs.Compiler.Locality
import EggLang.Proofs.Compiler.Runs
import EggLang.Proofs.Script.Call

/-!
# The number of arguments

A `fun` form is lowered to a function literal whose text checks the number of its arguments. The
function that a script makes of this text throws an error if it is called with another number of
arguments than it has parameters, before any statement of the body, and does not throw it
otherwise.
-/

namespace EggLang.Compiler

variable {place : Place} {params : List Expr} {body : Expr} {env : Nat} {s t : State}
  {value : Binding}

/-- A `fun` form is lowered to a function literal with the words in front of its body. -/
theorem lowerFun_ok {done : List Bytes}
    (run : lowerFun place done (params ++ [body]) env s = .ok value t) :
    ∃ words code, params.map Expr.word? = words.map some
      ∧ value = .code (.function (done ++ words) code) := by
  induction params generalizing done with
  | nil =>
    rw [List.nil_append, lowerFun] at run
    obtain ⟨inner, u, -, run⟩ := bind_eq_ok run
    obtain ⟨v, w, -, made⟩ := bind_eq_ok run
    cases made
    exact ⟨[], _, rfl, by rw [List.append_nil]⟩
  | cons param params ih =>
    rw [List.cons_append, lowerFun] at run
    · cases word : param.word? with
      | none =>
        simp only [word] at run
        cases run
      | some x =>
        simp only [word] at run
        obtain ⟨words, code, named, rfl⟩ := ih run
        exact ⟨x :: words, code, by simp [word, named], by simp⟩
    · simp

open Script in
/-- Wherever a script is read that has the text of a `fun` form, the form is read as a function with
the same parameters. Each evaluation of it makes a function value. A call of that goes on to the
statements behind the check if the number of arguments is the number of parameters, and else
throws the `TypeError` before any of them, as long as `arguments` and `TypeError` stand in the
function for what the check takes them for. Numbers of parameters from 2^53 on are left out: scripts
do not tell them apart. -/
theorem calls_check_arity {words : List Bytes} {names : List String} {indent rest : Bytes}
    {depth fuel : Nat} {c : Surround} {p p' : Script.Place} {e : Script.Expr}
    (lowered : evaluate (.apply place SpecialForm.fun.name (params ++ [body])) env s = .ok value t)
    (spelled : params.map Expr.word? = words.map some)
    (each : List.Forall₂ Code.IsParameter words names) (few : params.length < Nat.pow 2 53)
    (blank : Code.IsIndent indent) (found : p.Found)
    (written : Text.ofChars p.text = value.toCode.render indent depth ++ rest)
    (read : Parser.primary c fuel p = some (e, p')) :
    ∃ f otherwise statements, e = .function f ∧ f.info.parameters = names
      ∧ (∀ ctx store, ∃ ref store', (Action.eval ctx e).Yields store (.object ref) store'
        ∧ Store.Extends store.scopes.size store store'
        ∧ (store'.object ref).kind = .closure f ctx.scope)
      ∧ ∀ (store : Store) (ref scope ctor : Nat), (store.object ref).kind = .closure f scope →
        store.Supports f scope ctor → ∀ (self : Value) (args : List Value),
          if args.length = params.length then store.Proceeds ref self args (otherwise :: statements)
          else store.Rejects ref self args := by
  have form : SpecialForm.ofName? SpecialForm.fun.name = some .fun := rfl
  rw [evaluate_form form] at lowered
  obtain ⟨words', code, spelled', rfl⟩ := lowerFun_ok lowered
  obtain rfl : words = words' :=
    List.map_injective_iff.2 (Option.some_injective Bytes) (spelled.symm.trans spelled')
  have sizes : params.length = words.length := by simpa using congrArg List.length spelled
  have count : words.length = names.length := each.length_eq
  have bits : words.length < Nat.pow 2 63 := by
    have : Nat.pow 2 53 ≤ Nat.pow 2 63 := by decide
    omega
  obtain ⟨f, otherwise, statements, rfl, checks⟩ :=
    Code.literal_checks blank each bits found written read
  refine ⟨f, otherwise, statements, rfl, checks.parameters, eval_function checks.nameless,
    fun store ref scope ctor closure supports self args => ?_⟩
  rw [sizes, count]
  exact call_checks checks (by omega) closure supports self args

/-! ## Examples -/

section

open Script

/-- A store whose only name is that of the constructor of type errors. -/
def smallStore : Store where
  objects := #[{ members := #[(.ofString "TypeError", .hidden (.object 1))] },
    { kind := .native (.construct (.error .typeError)),
      members := #[(prototypeKey, .constant (.object Intrinsic.typeErrorPrototype.ref))] }]
  scopes := #[{}]

theorem smallStore_hasTypeErrors : smallStore.HasTypeErrors 0 1 where
  named := .global (by rw [Store.find?]; rfl) ⟨.hidden (.object 1), true, by decide, rfl⟩
  kind := rfl
  proto := ⟨.constant (.object Intrinsic.typeErrorPrototype.ref), false, by decide, rfl⟩

/-- The start of a script that has the text of a function literal. -/
def literalPlace (params : List Bytes) (body : Code) : Script.Place :=
  .find 0 false ((Text.chars? (Code.render (utf8 "  ") 0 (.function params body))).getD [])

/-- The names that a function literal declares besides its parameters. -/
def bodyNames? : Script.Expr → Option (List String)
  | .function f => some (f.info.variables_ ++ f.blockNames)
  | _ => none

/-- The function of `fun(x, x)` takes one argument and throws with any other number of them. -/
theorem calls_check_arity_identity :
    let here : Place := ⟨0, 1, 1⟩
    let x := utf8 "x"
    let form := Expr.apply here SpecialForm.fun.name ([.word here x] ++ [.word here x])
    let body := Code.return (.ident x)
    (∃ t, evaluate form 1 (Compiler.new (utf8 "  ")).start = .ok (.code (.function [x] body)) t)
      ∧ ∃ (f : Function) (store : Store) (ref : Nat) (statements : List Stmt),
        (∃ p', Parser.primary {} 60 (literalPlace [x] body) = some (.function f, p'))
          ∧ (store.object ref).kind = .closure f 0
          ∧ (∀ self v, store.Proceeds ref self [v] statements)
          ∧ ∀ self args, args.length ≠ 1 → store.Rejects ref self args := by
  intro here x form body
  obtain ⟨t, lowered⟩ : ∃ t, evaluate form 1 (Compiler.new (utf8 "  ")).start
      = .ok (.code (.function [x] body)) t := ⟨_, by with_unfolding_all rfl⟩
  have names : (Parser.primary {} 60 (literalPlace [x] body)).bind (fun r => bodyNames? r.1)
      = some [] := by decide +kernel
  obtain ⟨⟨e, p'⟩, read⟩ : ∃ r, Parser.primary {} 60 (literalPlace [x] body) = some r := by
    cases first : Parser.primary {} 60 (literalPlace [x] body) with
    | none => simp [first] at names
    | some r => exact ⟨r, rfl⟩
  have word : Code.IsParameter x "x" :=
    ⟨['x'], false, rfl, ⟨List.cons_ne_nil _ _, by decide⟩, by decide⟩
  have blank : Code.IsIndent (utf8 "  ") :=
    ⟨_, Parser.isBlank_space.append Parser.isBlank_space⟩
  have written : Text.ofChars (literalPlace [x] body).text
      = (Binding.code (.function [x] body)).toCode.render (utf8 "  ") 0 ++ [] := by decide +kernel
  obtain ⟨f, otherwise, statements, rfl, parameters, values, calls⟩ :=
    calls_check_arity lowered (show [Expr.word here x].map Expr.word? = [x].map some from rfl)
      (.cons word .nil) (by decide) blank ⟨0, false, _, _, rfl⟩ written read
  obtain ⟨ref, store, -, more, kind⟩ := values (.within 0) smallStore
  have others : f.info.variables_ ++ f.blockNames = [] := by simpa [read, bodyNames?] using names
  obtain ⟨vars, block⟩ := List.append_eq_nil_iff.1 others
  have count : "arguments" ∉ f.info.parameters ++ f.blockNames := by
    rw [parameters, block]
    decide
  have error : "TypeError" ∉ f.declared := by
    rw [Function.declared, parameters, vars, block]
    decide
  have supports : store.Supports f 0 1 :=
    ⟨count, error, smallStore_hasTypeErrors.extends more (by decide), by simp [vars]⟩
  have call := calls store ref 0 1 kind supports
  exact ⟨⟨t, lowered⟩, f, store, ref, otherwise :: statements, ⟨p', read⟩, kind,
    fun self v => call self [v], fun self args other => by simpa [other] using call self args⟩

/-- The message of the error that a call of a function literal throws, if it throws one. -/
def thrownBy (params : List Bytes) (body : Code) (args : List Value) : Option Units :=
  match Parser.primary {} 60 (literalPlace params body) with
  | some (.function f, _) =>
    let (ref, s) := smallStore.alloc { kind := .closure f 0 }
    let message (v : Value) (t : Store) : Units :=
      match v with
      | .object error =>
        match (t.own? error messageKey).bind (·.value?) with
        | some (.string text) => text
        | _ => []
      | _ => []
    let run := Run.call ref .undefined args none (fun _ t => .done (.value .null) t)
      (fun v t => .done (.thrown (message v t)) t) s
    match run.finish 10 with
    | (.thrown text, _) => some text
    | _ => none
  | _ => none

/-- A parameter called `arguments` hides the arguments of the call: the function of
`fun(arguments, 1)` throws although it is called with one argument. -/
theorem parameter_hides_count :
    thrownBy [utf8 "x"] (.return (.raw (utf8 "1"))) [.number (.ofNat 5)] = none
      ∧ thrownBy [utf8 "arguments"] (.return (.raw (utf8 "1"))) [.number (.ofNat 5)]
        = some arityMessage := by
  decide +kernel

end

end EggLang.Compiler
