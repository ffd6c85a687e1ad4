import EggLang.Proofs.Compiler.Locality

/-!
# More registered functions break no program

A registered name turns an application into a call and adds returns to function bodies, so two
lowerings of one program that start from different registries give different code. What decides
whether a lowering succeeds is less: which names each frame owns, which of them are primitives,
and which names are registered. A state is *below* another when the two have the same frames up to
the code that is bound in them and the second has registered whatever the first has. Where a
lowering succeeds it succeeds in every state above, and leaves states that are so related.
-/

namespace EggLang

/-- The primitive that a binding is, if it is one. -/
def Binding.primitive? : Binding → Option Primitive
  | .code _ => none
  | .primitive p => some p

/-- Bindings that a lowering treats alike: the same primitive, or any two pieces of code. -/
def Binding.Alike (b b' : Binding) : Prop := b.primitive? = b'.primitive?

namespace Compiler

/-- The second state has the same frames up to the code bound in them, and has registered all that
the first one has. -/
structure Below (s s' : State) : Prop where
  has : ∀ n, s.functions.has n = true → s'.functions.has n = true
  size : s.frames.size = s'.frames.size
  outer : ∀ env, s.frames.outer? env = s'.frames.outer? env
  own : ∀ env n, (s.frames.own? env n).map Binding.primitive?
    = (s'.frames.own? env n).map Binding.primitive?

namespace Below

variable {s s' : State}

theorem owns (h : Below s s') (env : Nat) (name : Bytes) :
    s.frames.owns env name = s'.frames.owns env name := by
  have own := congrArg Option.isSome (h.own env name)
  rwa [Option.isSome_map, Option.isSome_map] at own

theorem targetOf? (h : Below s s') (env : Nat) (name : Bytes) :
    s.targetOf? env name = s'.targetOf? env name := by
  simp only [State.targetOf?, h.outer env, h.owns]

/-- A name found from a frame is found from it on both sides, and alike. -/
theorem get? (h : Below s s') (env : Nat) (name : Bytes) :
    (s.frames.get? env name).map Binding.primitive?
      = (s'.frames.get? env name).map Binding.primitive? :=
  Frames.get?_map_congr (fun i _ => h.own i name) fun i _ => h.outer i

theorem register (h : Below s s') (name : Bytes) :
    Below { s with functions := s.functions.add name }
      { s' with functions := s'.functions.add name } where
  has n registered := by
    simp only [Registry.has_add, Bool.or_eq_true] at registered ⊢
    exact registered.imp_right (h.has n)
  size := h.size
  outer := h.outer
  own := h.own

theorem set (h : Below s s') (env : Nat) (name : Bytes) {b b' : Binding}
    (alike : b.Alike b') :
    Below { s with frames := s.frames.set env name b }
      { s' with frames := s'.frames.set env name b' } where
  has := h.has
  size := by simp [h.size]
  outer i := by simp [h.outer i]
  own i n := by
    simp only [Frames.own?_set, h.size]
    split
    · exact congrArg some alike
    · exact h.own i n

theorem count (h : Below s s') (c c' : Nat) :
    Below { s with rootChanges := c } { s' with rootChanges := c' } :=
  ⟨h.has, h.size, h.outer, h.own⟩

theorem function (h : Below s s') (env : Nat) :
    Below { s with frames := (s.frames.function env).2 }
      { s' with frames := (s'.frames.function env).2 } where
  has := h.has
  size := by simp [Frames.function, h.size]
  outer i := by simp only [Frames.function, Frames.outer?_push, h.size, h.outer i]
  own i n := by
    simp only [Frames.function, Frames.own?_push, h.size]
    split
    · rfl
    · exact h.own i n

end Below

/-- Two outcomes about which nothing is said. -/
def Whatever {α β : Type} (_ : α) (_ : β) : Prop := True

/-- Wherever the first lowering succeeds, the second one succeeds in every state above, with a
related outcome. -/
def Carries {α β : Type} (R : α → β → Prop) (m : Lowering α) (m' : Lowering β) : Prop :=
  ∀ s s' a t, Below s s' → m s = .ok a t → ∃ b t', m' s' = .ok b t' ∧ R a b ∧ Below t t'

namespace Carries

variable {α β γ δ : Type} {R : α → β → Prop} {S : γ → δ → Prop}

protected theorem pure {a : α} {b : β} (related : R a b) :
    Carries R (pure a : Lowering α) (pure b : Lowering β) := by
  intro s s' a t below ok
  cases ok
  exact ⟨b, s', rfl, related, below⟩

/-- Of a lowering that fails nothing has to be shown. -/
theorem refuse {fault : Fault} {place : Place} {m' : Lowering β} :
    Carries R (refuse fault place) m' := by
  intro s s' a t _ ok
  cases ok

protected theorem bind {m : Lowering α} {m' : Lowering β} {f : α → Lowering γ}
    {f' : β → Lowering δ} (first : Carries R m m') (next : ∀ a b, R a b → Carries S (f a) (f' b)) :
    Carries S (m >>= f) (m' >>= f') := by
  intro s s' c u below ok
  simp only [bind, EStateM.bind] at ok ⊢
  cases run : m s with
  | error d t =>
    rw [run] at ok
    cases ok
  | ok a t =>
    rw [run] at ok
    obtain ⟨b, t', run', related, between⟩ := first s s' a t below run
    rw [run']
    exact next a b related t t' c u between ok

/-- A first part that leaves the state alone may be missing on the other side. -/
theorem silent_bind {m : Lowering α} {f : α → Lowering γ} {m' : Lowering δ}
    (silent : ∀ s a t, m s = .ok a t → t = s) (next : ∀ a, Carries S (f a) m') :
    Carries S (m >>= f) m' := by
  intro s s' c u below ok
  simp only [bind, EStateM.bind] at ok
  cases run : m s with
  | error d t =>
    rw [run] at ok
    cases ok
  | ok a t =>
    rw [run] at ok
    obtain rfl := silent s a t run
    exact next a t s' c u below ok

theorem get_bind {f : State → Lowering γ} {f' : State → Lowering δ}
    (next : ∀ s s', Below s s' → Carries S (f s) (f' s')) : Carries S (get >>= f) (get >>= f') :=
  fun s s' c u below ok => next s s' below s s' c u below ok

theorem modify {g g' : State → State} (keeps : ∀ s s', Below s s' → Below (g s) (g' s')) :
    Carries Whatever (modify g : Lowering PUnit) (modify g' : Lowering PUnit) := by
  intro s s' a t below ok
  cases ok
  exact ⟨.unit, g' s', rfl, trivial, keeps s s' below⟩

theorem registerName (name : Bytes) :
    Carries Whatever (registerName name) (registerName name) :=
  modify fun _ _ below => below.register name

theorem bindName (env : Nat) (name : Bytes) {b b' : Binding} (alike : b.Alike b') :
    Carries Whatever (bindName env name b) (bindName env name b') :=
  modify fun _ _ below => below.set env name alike

theorem rebind (env : Nat) (name : Bytes) {b b' : Binding} (alike : b.Alike b') :
    Carries Eq (rebind env name b) (rebind env name b') := by
  intro s s' found t below ok
  rw [rebind_apply] at ok
  rw [rebind_apply, ← below.targetOf? env name]
  cases target : s.targetOf? env name with
  | none =>
    rw [target] at ok
    cases ok
    exact ⟨false, s', rfl, rfl, below⟩
  | some f =>
    rw [target] at ok
    cases ok
    exact ⟨true, _, rfl, rfl, (below.set f name alike).count _ _⟩

/-- A word that stands for something stands for something alike in every state above: what no
frame binds is registered there too. -/
theorem evaluateWord (place : Place) (name : Bytes) (env : Nat) :
    Carries Binding.Alike (evaluateWord place name env) (evaluateWord place name env) := by
  unfold Compiler.evaluateWord
  refine get_bind fun s s' below => ?_
  have same := below.get? env name
  cases found : s.frames.get? env name with
  | some b =>
    cases found' : s'.frames.get? env name with
    | none => simp [found, found'] at same
    | some b' =>
      have alike : b.primitive? = b'.primitive? := by simpa [found, found'] using same
      cases b with
      | code c =>
        cases b' with
        | code c' => exact .pure rfl
        | primitive p' => cases alike
      | primitive p =>
        cases b' with
        | code c' => cases alike
        | primitive p' => exact .pure alike
  | none =>
    cases found' : s'.frames.get? env name with
    | some b' => simp [found, found'] at same
    | none =>
      by_cases registered : s.functions.has name = true
      · simp only [if_pos registered, if_pos (below.has name registered)]
        exact .pure rfl
      · simp only [if_neg registered]
        exact refuse

theorem bindParams (params : List Bytes) (env : Nat) :
    Carries Whatever
      (params.forM fun p => Compiler.bindName env p (.code (.ident p)))
      (params.forM fun p => Compiler.bindName env p (.code (.ident p))) := by
  induction params with
  | nil => exact .pure trivial
  | cons p rest ih => exact (bindName env p rfl).bind fun _ _ _ => ih

theorem openFunction_bind (params : List Bytes) (env : Nat) {f : Nat → Lowering γ}
    {f' : Nat → Lowering δ} (next : ∀ inner, Carries S (f inner) (f' inner)) :
    Carries S (openFunction params env >>= f) (openFunction params env >>= f') := by
  intro s s' c u below ok
  rw [openFunction_bind_apply] at ok ⊢
  rw [← below.size]
  have body := (bindParams params s.frames.size).bind fun _ _ _ => next s.frames.size
  exact body _ _ c u (below.function env) ok

end Carries

/-- The lowering of an expression succeeds in all states above those in which it succeeds. -/
def Persists (e : Expr) : Prop :=
  ∀ env, Carries Binding.Alike (evaluate e env) (evaluate e env)

section Forms

variable {args : List Expr} {env : Nat}

theorem Carries.lowerAll (persist : ∀ arg ∈ args, Persists arg) :
    Carries Whatever (lowerAll args env) (lowerAll args env) := by
  induction args with
  | nil =>
    rw [Compiler.lowerAll]
    exact .pure trivial
  | cons e rest ih =>
    rw [Compiler.lowerAll]
    obtain ⟨first, others⟩ := List.forall_mem_cons.1 persist
    exact (first env).bind fun _ _ _ => (ih others).bind fun _ _ _ => .pure trivial

theorem Carries.lowerIf (place : Place) (persist : ∀ arg ∈ args, Persists arg) :
    Carries Binding.Alike (lowerIf place args env) (lowerIf place args env) := by
  unfold Compiler.lowerIf
  split
  next cond yes no =>
    have run (arg : Expr) (h : arg ∈ [cond, yes, no]) := persist arg h env
    exact (run yes (by simp)).bind fun _ _ _ => (run no (by simp)).bind fun _ _ _ =>
      (run cond (by simp)).bind fun _ _ _ => .pure rfl
  next => exact .refuse

theorem Carries.lowerWhile (place : Place) (persist : ∀ arg ∈ args, Persists arg) :
    Carries Binding.Alike (lowerWhile place args env) (lowerWhile place args env) := by
  unfold Compiler.lowerWhile
  split
  next cond body =>
    have run (arg : Expr) (h : arg ∈ [cond, body]) := persist arg h env
    exact (run cond (by simp)).bind fun _ _ _ => (run body (by simp)).bind fun _ _ _ =>
      .pure rfl
  next => exact .refuse

/-- The return at the end of a function body may be there on one side only. -/
theorem Carries.lowerDo (persist : ∀ arg ∈ args, Persists arg) :
    Carries Whatever (lowerDo args env) (lowerDo args env) := by
  induction args with
  | nil =>
    rw [Compiler.lowerDo]
    exact .pure trivial
  | cons arg rest ih =>
    obtain ⟨first, others⟩ := List.forall_mem_cons.1 persist
    cases rest with
    | nil =>
      rw [Compiler.lowerDo]
      exact (first env).bind fun _ _ _ => get_bind fun _ _ _ => .pure trivial
    | cons next later =>
      rw [Compiler.lowerDo]
      · exact (first env).bind fun _ _ _ => (ih others).bind fun _ _ _ => .pure trivial
      · simp

theorem Carries.lowerDefine (place : Place) (persist : ∀ arg ∈ args, Persists arg) :
    Carries Binding.Alike (lowerDefine place args env) (lowerDefine place args env) := by
  unfold Compiler.lowerDefine
  split
  next target value =>
    have run := persist value (by simp) env
    split
    next => exact .refuse
    next name _ =>
      split
      next => exact (registerName name).bind fun _ _ _ => run.bind fun _ _ _ => .pure rfl
      next =>
        refine get_bind fun s s' below => ?_
        rw [← below.owns env name]
        split
        next => exact run.bind fun _ _ _ => .pure rfl
        next =>
          exact run.bind fun _ _ alike => (bindName env name alike).bind fun _ _ _ =>
            .pure rfl
  next => exact .refuse

theorem Carries.lowerSet (place : Place) (persist : ∀ arg ∈ args, Persists arg) :
    Carries Binding.Alike (lowerSet place args env) (lowerSet place args env) := by
  unfold Compiler.lowerSet
  split
  next => exact .refuse
  next => exact .refuse
  next target value rest =>
    split
    next => exact .refuse
    next =>
      refine (persist value (by simp) env).bind fun _ _ alike => ?_
      split
      next => exact .refuse
      next name _ =>
        refine (rebind env name alike).bind fun found _ same => ?_
        subst same
        split
        next => exact .pure rfl
        next => exact .refuse

theorem Carries.lowerFun (place : Place) (params : List Bytes)
    (persist : ∀ arg ∈ args, Persists arg) :
    Carries Binding.Alike (lowerFun place params args env) (lowerFun place params args env) := by
  induction args generalizing params with
  | nil =>
    rw [Compiler.lowerFun]
    exact .refuse
  | cons arg rest ih =>
    obtain ⟨first, others⟩ := List.forall_mem_cons.1 persist
    cases rest with
    | nil =>
      rw [Compiler.lowerFun]
      refine openFunction_bind params env fun inner => ?_
      exact (first inner).bind fun _ _ _ => .pure rfl
    | cons next later =>
      rw [Compiler.lowerFun]
      · split
        next => exact .refuse
        next name _ => exact ih (params ++ [name]) others
      · simp

end Forms

/-- Looking a word up changes nothing. -/
theorem evaluateWord_silent {place : Place} {name : Bytes} {env : Nat} {s t : State} {b : Binding}
    (ok : evaluateWord place name env s = .ok b t) : t = s := by
  simp only [evaluateWord, get_bind_apply] at ok
  cases found : s.frames.get? env name with
  | some value =>
    cases value with
    | code c =>
      simp only [found] at ok
      cases ok
      rfl
    | primitive p =>
      simp only [found] at ok
      cases ok
      rfl
  | none =>
    by_cases registered : s.functions.has name = true
    · simp only [found, if_pos registered] at ok
      cases ok
      rfl
    · simp only [found, if_neg registered] at ok
      cases ok

/-- Whatever the registry, an expression that can be lowered can be lowered with a larger one. -/
theorem persists (e : Expr) : Persists e := by
  have smaller (args : List Expr) (less : sizeOf args < sizeOf e) : ∀ arg ∈ args, Persists arg :=
    fun arg mem =>
      have := List.sizeOf_lt_of_mem mem
      persists arg
  intro env
  unfold Compiler.evaluate
  split
  next => exact .pure rfl
  next => exact .pure rfl
  next place name => exact .evaluateWord place name env
  next place name args =>
    have args_persist := smaller args (by rw [Expr.apply.sizeOf_spec]; omega)
    have all : Carries Whatever (lowerAll args env) (lowerAll args env) := .lowerAll args_persist
    split
    next => exact .lowerIf place args_persist
    next => exact .lowerWhile place args_persist
    next => exact (Carries.lowerDo args_persist).bind fun _ _ _ => .pure rfl
    next => exact .lowerDefine place args_persist
    next => exact .lowerSet place args_persist
    next => exact .lowerFun place [] args_persist
    next =>
      refine .get_bind fun s s' below => ?_
      by_cases registered : s.functions.has name = true
      · rw [if_pos registered, if_pos (below.has name registered)]
        exact all.bind fun _ _ _ => .pure rfl
      · rw [if_neg registered]
        by_cases registered' : s'.functions.has name = true
        · -- below the name is a primitive, above it is called
          rw [if_pos registered']
          refine .silent_bind (fun _ _ _ => evaluateWord_silent) fun value => ?_
          split
          next => exact .refuse
          next => exact all.bind fun _ _ _ => .pure rfl
        · rw [if_neg registered']
          refine (Carries.evaluateWord place name env).bind fun b b' alike => ?_
          cases b with
          | code c => exact .refuse
          | primitive p =>
            cases b' with
            | code c => cases alike
            | primitive p' => exact all.bind fun _ _ _ => .pure rfl
  next operator args =>
    have args_persist := smaller args (by rw [Expr.closure.sizeOf_spec]; omega)
    refine (persists operator env).bind fun _ _ _ => ?_
    exact (Carries.lowerAll args_persist).bind fun _ _ _ => .pure rfl
termination_by sizeOf e

theorem Below.start {t u : Compiler} (root : ∀ n, t.root.get? n = u.root.get? n)
    (grown : t.functions.names ⊆ u.functions.names) : Below t.start u.start where
  has _ registered := Registry.has_iff.2 (grown (Registry.has_iff.1 registered))
  size := rfl
  outer env := by rcases env with _ | _ | env <;> rfl
  own env n := by
    rcases env with _ | _ | env
    · exact congrArg (Option.map Binding.primitive?) (root n)
    · rfl
    · rfl

/-- A source that compiles does so as well, to whatever text, with more functions registered and
the same root; the registry that is left then has all that the other one has. -/
theorem compile_grows (t u : Compiler) (source text : Bytes)
    (root : ∀ n, t.root.get? n = u.root.get? n)
    (grown : t.functions.names ⊆ u.functions.names)
    (compiles : (t.compile source).1 = .ok text) :
    (∃ text', (u.compile source).1 = .ok text')
      ∧ (t.compile source).2.functions.names ⊆ (u.compile source).2.functions.names := by
  cases parses : parse source with
  | error d =>
    rw [compile, parses] at compiles
    cases compiles
  | ok e =>
    rw [compile_eq t parses] at compiles ⊢
    rw [compile_eq u parses]
    cases run : evaluate e 1 t.start with
    | error d s =>
      rw [run] at compiles
      cases compiles
    | ok value s =>
      obtain ⟨value', s', run', _, below⟩ :=
        persists e 1 t.start u.start value s (.start root grown) run
      rw [run']
      refine ⟨⟨value'.toCode.print u.indent, rfl⟩, fun n mem => ?_⟩
      exact Registry.has_iff.1 (below.has n (Registry.has_iff.2 mem))

/-- A program that registers `f`: where a function `print` is registered too, the primitive of
that name is not expanded and the function is called. -/
theorem compile_grows_print :
    let source := utf8 "do(define(f,fun(1)),print(f))"
    let t := Compiler.new (utf8 " ")
    let u : Compiler := { t with functions := ⟨[utf8 "print"]⟩ }
    let defined := utf8 "var f = function() \x7b\n if (arguments.length != 0) \x7b\n"
      ++ utf8 "  throw new TypeError(\"Wrong number of arguments\")\n \x7d\n return 1\n\x7d\n"
    (∀ n, t.root.get? n = u.root.get? n) ∧ t.functions.names ⊆ u.functions.names
      ∧ (t.compile source).1 = .ok (defined ++ utf8 "console.log(f)")
      ∧ (u.compile source).1 = .ok (defined ++ utf8 "print(f)")
      ∧ (∃ text', (u.compile source).1 = .ok text')
      ∧ (t.compile source).2.functions.names ⊆ (u.compile source).2.functions.names := by
  intro source t u defined
  have ok_of_some {answer : Except Diagnostic Bytes} {text : Bytes}
      (h : answer.toOption = some text) : answer = .ok text := by
    cases answer with
    | error d => cases h
    | ok text' => rw [Option.some.inj h]
  have compiles : (t.compile source).1 = .ok (defined ++ utf8 "console.log(f)") :=
    ok_of_some (by decide +kernel)
  have compiles' : (u.compile source).1 = .ok (defined ++ utf8 "print(f)") :=
    ok_of_some (by decide +kernel)
  refine ⟨fun _ => rfl, List.nil_subset _, compiles, compiles', ?_⟩
  exact compile_grows t u source _ (fun _ => rfl) (List.nil_subset _) compiles

end Compiler

end EggLang
