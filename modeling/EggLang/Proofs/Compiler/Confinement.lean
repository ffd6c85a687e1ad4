import EggLang.Proofs.Compiler.Steps

/-!
# Lowerings confined to the names of a program

Two states agree on some names when their registries and all their frames do, and their frames
have the same shape. A lowering is confined to those names when it takes only steps over them
and two states that agree cannot be told apart by it: it gives the same answer in both and leaves
them in agreement. Confinement composes, and the lowering of an expression is confined to the
words of the expression.
-/

namespace EggLang.Compiler

/-- Two states that a lowering over the names `N` cannot tell apart. -/
structure Agree (N : List Bytes) (s s' : State) : Prop where
  has : ∀ n ∈ N, s.functions.has n = s'.functions.has n
  size : s.frames.size = s'.frames.size
  outer : ∀ env, s.frames.outer? env = s'.frames.outer? env
  isFunction : ∀ env, s.frames.isFunction env = s'.frames.isFunction env
  own : ∀ n ∈ N, ∀ env, s.frames.own? env n = s'.frames.own? env n

namespace Agree

variable {N : List Bytes} {s s' : State} {name : Bytes}

theorem owns (h : Agree N s s') (mem : name ∈ N) (env : Nat) :
    s.frames.owns env name = s'.frames.owns env name := by
  rw [Frames.owns, Frames.owns, h.own name mem]

theorem get? (h : Agree N s s') (mem : name ∈ N) (env : Nat) :
    s.frames.get? env name = s'.frames.get? env name :=
  Frames.get?_congr (fun i _ => h.own name mem i) fun i _ => h.outer i

theorem returnsValue (h : Agree N s s') (mem : name ∈ N) :
    s.returnsValue name = s'.returnsValue name := by
  rw [State.returnsValue, State.returnsValue, h.has name mem, h.own name mem]

theorem closing (h : Agree N s s') {arg : Expr} (within : arg.names ⊆ N) (code : Code) :
    s.closing arg code = s'.closing arg code := by
  have same : arg.operator?.map s.returnsValue = arg.operator?.map s'.returnsValue := by
    cases operator : arg.operator? with
    | none => rfl
    | some name =>
      have mem := within (Expr.mem_names_of_operator? operator)
      rw [Option.map_some, Option.map_some, h.returnsValue mem]
  rw [State.closing, State.closing, same]

theorem register (h : Agree N s s') (name : Bytes) :
    Agree N { s with functions := s.functions.add name }
      { s' with functions := s'.functions.add name } where
  has n mem := by simp [h.has n mem]
  size := h.size
  outer := h.outer
  isFunction := h.isFunction
  own := h.own

theorem set (h : Agree N s s') (env : Nat) (name : Bytes) (value : Binding) :
    Agree N { s with frames := s.frames.set env name value }
      { s' with frames := s'.frames.set env name value } where
  has := h.has
  size := by simp [h.size]
  outer i := by simp [h.outer i]
  isFunction i := by simp [h.isFunction i]
  own n mem i := by simp [Frames.own?_set, h.own n mem i, h.size]

theorem count (h : Agree N s s') (c c' : Nat) :
    Agree N { s with rootChanges := c } { s' with rootChanges := c' } where
  has := h.has
  size := h.size
  outer := h.outer
  isFunction := h.isFunction
  own := h.own

theorem function (h : Agree N s s') (env : Nat) :
    Agree N { s with frames := (s.frames.function env).2 }
      { s' with frames := (s'.frames.function env).2 } where
  has := h.has
  size := by simp [Frames.function, h.size]
  outer i := by simp only [Frames.function, Frames.outer?_push, h.size, h.outer i]
  isFunction i := by simp only [Frames.function, Frames.isFunction_push, h.size, h.isFunction i]
  own n mem i := by simp only [Frames.function, Frames.own?_push, h.size, h.own n mem i]

end Agree

/-- The state a lowering ends in, also when it fails. -/
def final {α : Type} : EStateM.Result Diagnostic State α → State
  | .ok _ s => s
  | .error _ s => s

/-- What a lowering gives. -/
def answer {α : Type} : EStateM.Result Diagnostic State α → Except Diagnostic α
  | .ok a _ => .ok a
  | .error d _ => .error d

/-- A lowering that changes and is influenced by nothing but the names `N`. -/
structure Confined {α : Type} (N : List Bytes) (m : Lowering α) : Prop where
  steps : ∀ s, 0 < s.frames.size → Steps N s (final (m s))
  same : ∀ s s', 0 < s.frames.size → Agree N s s' →
    answer (m s) = answer (m s') ∧ Agree N (final (m s)) (final (m s'))

namespace Confined

variable {α β : Type} {N : List Bytes}

protected theorem pure (a : α) : Confined N (pure a : Lowering α) where
  steps s _ := .refl s
  same _ _ _ h := ⟨rfl, h⟩

theorem refuse (fault : Fault) (place : Place) : Confined N (refuse fault place : Lowering α) where
  steps s _ := .refl s
  same _ _ _ h := ⟨rfl, h⟩

protected theorem bind {m : Lowering α} {f : α → Lowering β} (first : Confined N m)
    (next : ∀ a, Confined N (f a)) : Confined N (m >>= f) where
  steps s pos := by
    have run := first.steps s pos
    simp only [bind, EStateM.bind]
    cases h : m s with
    | error d t => rwa [h] at run
    | ok a t =>
      rw [h] at run
      exact run.trans ((next a).steps t (run.size_pos pos))
  same s s' pos agree := by
    have run := first.steps s pos
    have both := first.same s s' pos agree
    simp only [bind, EStateM.bind]
    cases h : m s with
    | error d t =>
      cases h' : m s' with
      | error d' t' => simpa [h, h', answer, final] using both
      | ok a' t' => simp [h, h', answer] at both
    | ok a t =>
      cases h' : m s' with
      | error d' t' => simp [h, h', answer] at both
      | ok a' t' =>
        simp only [h, h', answer, final, Except.ok.injEq] at both
        obtain ⟨rfl, agree'⟩ := both
        rw [h] at run
        exact (next a).same t t' (run.size_pos pos) agree'

/-- What is done after looking at the state is confined if states that agree look the same. -/
theorem get_bind {f : State → Lowering α} (next : ∀ s, Confined N (f s))
    (alike : ∀ s s', Agree N s s' → f s = f s') : Confined N (get >>= f) where
  steps s pos := (next s).steps s pos
  same s s' pos agree := by
    have both := (next s).same s s' pos agree
    have eq := alike s s' agree
    change answer (f s s) = answer (f s' s') ∧ Agree N (final (f s s)) (final (f s' s'))
    rwa [← eq]

theorem modify {g : State → State} (step : ∀ s, Steps N s (g s))
    (keeps : ∀ s s', Agree N s s' → Agree N (g s) (g s')) :
    Confined N (modify g : Lowering PUnit) where
  steps s _ := step s
  same s s' _ agree := ⟨rfl, keeps s s' agree⟩

theorem registerName {name : Bytes} (mem : name ∈ N) : Confined N (registerName name) :=
  modify (fun _ => (Step.register mem).single) fun _ _ agree => agree.register name

theorem bindName {env : Nat} {name : Bytes} (value : Binding) (below : 0 < env)
    (mem : name ∈ N) : Confined N (bindName env name value) :=
  modify (fun _ => (Step.bind value below mem).single) fun _ _ agree => agree.set env name value

end Confined

theorem get_bind_apply {α : Type} (f : State → Lowering α) (s : State) :
    (get >>= f) s = f s s := rfl

/-- The frame that a `set` in `env` changes. -/
def State.targetOf? (s : State) (env : Nat) (name : Bytes) : Option Nat :=
  (env :: (s.frames.outer? env).toList).find? fun f => s.frames.owns f name

theorem rebind_apply (env : Nat) (name : Bytes) (value : Binding) (s : State) :
    rebind env name value s = match s.targetOf? env name with
      | none => .ok false s
      | some target => .ok true { s with
          frames := s.frames.set target name value,
          rootChanges := if target = 0 then s.rootChanges + 1 else s.rootChanges } := by
  change (match s.targetOf? env name with
    | none => (pure false : Lowering Bool)
    | some target => do
      bindName target name value
      if target = 0 then modify fun s => { s with rootChanges := s.rootChanges + 1 }
      return true : Lowering Bool) s = _
  cases s.targetOf? env name with
  | none => rfl
  | some target =>
    by_cases h : target = 0
    · simp only [if_pos h]
      rfl
    · simp only [if_neg h]
      rfl

-- A rebinding of the root and its count are one step, so the two changes are not taken apart.
theorem Confined.rebind {N : List Bytes} {env : Nat} {name : Bytes} (value : Binding)
    (mem : name ∈ N) : Confined N (rebind env name value) where
  steps s _ := by
    rw [rebind_apply]
    cases found : s.targetOf? env name with
    | none => exact .refl s
    | some target =>
      have owned : s.frames.owns target name = true := by
        unfold State.targetOf? at found
        exact List.find?_some (p := fun f => s.frames.owns f name) found
      by_cases h : target = 0
      · subst h
        exact (Step.rebindRoot value mem owned).single
      · simp only [if_neg h]
        exact (Step.bind value (by omega) mem).single
  same s s' _ agree := by
    have same : s.targetOf? env name = s'.targetOf? env name := by
      simp only [State.targetOf?, agree.outer env, agree.owns mem]
    rw [rebind_apply, rebind_apply, same]
    cases s'.targetOf? env name with
    | none => exact ⟨rfl, agree⟩
    | some target => exact ⟨rfl, (agree.set target name value).count _ _⟩

theorem Confined.evaluateWord {N : List Bytes} (place : Place) {name : Bytes} (mem : name ∈ N)
    (env : Nat) : Confined N (evaluateWord place name env) := by
  unfold Compiler.evaluateWord
  refine get_bind (fun s => ?_) fun s s' agree => by rw [agree.get? mem env, agree.has name mem]
  split
  · exact .pure _
  · exact .pure _
  · split
    · exact .pure _
    · exact .refuse _ _

theorem openFunction_bind_apply {α : Type} (params : List Bytes) (env : Nat)
    (f : Nat → Lowering α) (s : State) :
    (openFunction params env >>= f) s
      = ((params.forM fun p => bindName s.frames.size p (.code (.ident p))) >>=
          fun _ => f s.frames.size) { s with frames := (s.frames.function env).2 } := by
  simp only [openFunction, bind_assoc, pure_bind]
  rfl

theorem Confined.bindParams {N params : List Bytes} (within : params ⊆ N) {env : Nat}
    (below : 0 < env) :
    Confined N (params.forM fun p => Compiler.bindName env p (.code (.ident p))) := by
  induction params with
  | nil => exact .pure _
  | cons p rest ih =>
    change Confined N (Compiler.bindName env p _ >>= fun _ => rest.forM _)
    refine (bindName _ below (within (List.mem_cons_self ..))).bind fun _ => ih fun n hn => ?_
    exact within (List.mem_cons_of_mem _ hn)

/-- Opening a function body, whose frame has a number above zero, and going on in it. -/
theorem Confined.openFunction_bind {α : Type} {N params : List Bytes} (within : params ⊆ N)
    (env : Nat) {f : Nat → Lowering α} (next : ∀ inner, 0 < inner → Confined N (f inner)) :
    Confined N (openFunction params env >>= f) := by
  have after (inner : Nat) (below : 0 < inner) :=
    (bindParams within below).bind fun _ => next inner below
  constructor
  · intro s pos
    rw [openFunction_bind_apply]
    have opened : Step N s _ := .openFunction env
    exact opened.single.trans ((after _ pos).steps _ (opened.size_pos pos))
  · intro s s' pos agree
    rw [openFunction_bind_apply, openFunction_bind_apply, ← agree.size]
    have opened : Step N s _ := .openFunction env
    exact (after _ pos).same _ _ (opened.size_pos pos) (agree.function env)

/-- An argument whose words are among `N` and whose lowering below the root is confined to `N`. -/
structure Settled (N : List Bytes) (arg : Expr) : Prop where
  within : arg.names ⊆ N
  evaluate : ∀ env, 0 < env → Confined N (evaluate arg env)

section Forms

variable {N : List Bytes} {args : List Expr} {env : Nat}

theorem Confined.lowerAll (settled : ∀ arg ∈ args, Settled N arg) (below : 0 < env) :
    Confined N (lowerAll args env) := by
  induction args with
  | nil =>
    rw [Compiler.lowerAll]
    exact .pure _
  | cons e rest ih =>
    rw [Compiler.lowerAll]
    obtain ⟨first, others⟩ := List.forall_mem_cons.1 settled
    exact (first.evaluate env below).bind fun _ => (ih others).bind fun _ => .pure _

theorem Confined.lowerIf (place : Place) (settled : ∀ arg ∈ args, Settled N arg)
    (below : 0 < env) : Confined N (lowerIf place args env) := by
  unfold Compiler.lowerIf
  split
  next cond yes no =>
    have run (arg : Expr) (h : arg ∈ [cond, yes, no]) := (settled arg h).evaluate env below
    exact (run yes (by simp)).bind fun _ => (run no (by simp)).bind fun _ =>
      (run cond (by simp)).bind fun _ => .pure _
  next => exact .refuse _ _

theorem Confined.lowerWhile (place : Place) (settled : ∀ arg ∈ args, Settled N arg)
    (below : 0 < env) : Confined N (lowerWhile place args env) := by
  unfold Compiler.lowerWhile
  split
  next cond body =>
    have run (arg : Expr) (h : arg ∈ [cond, body]) := (settled arg h).evaluate env below
    exact (run cond (by simp)).bind fun _ => (run body (by simp)).bind fun _ => .pure _
  next => exact .refuse _ _

theorem Confined.lowerDo (settled : ∀ arg ∈ args, Settled N arg) (below : 0 < env) :
    Confined N (lowerDo args env) := by
  induction args with
  | nil =>
    rw [Compiler.lowerDo]
    exact .pure _
  | cons arg rest ih =>
    obtain ⟨first, others⟩ := List.forall_mem_cons.1 settled
    cases rest with
    | nil =>
      rw [Compiler.lowerDo]
      refine (first.evaluate env below).bind fun value => ?_
      refine get_bind (fun _ => .pure _) fun s s' agree => ?_
      rw [agree.isFunction, agree.closing first.within]
    | cons next later =>
      rw [Compiler.lowerDo]
      · exact (first.evaluate env below).bind fun _ => (ih others).bind fun _ => .pure _
      · simp

theorem Confined.lowerDefine (place : Place) (settled : ∀ arg ∈ args, Settled N arg)
    (below : 0 < env) : Confined N (lowerDefine place args env) := by
  unfold Compiler.lowerDefine
  split
  next target value =>
    have run := (settled value (by simp)).evaluate env below
    split
    next => exact .refuse _ _
    next name word =>
      have mem : name ∈ N := (settled target (by simp)).within (Expr.mem_names_of_word? word)
      split
      next => exact (registerName mem).bind fun _ => run.bind fun _ => .pure _
      next =>
        refine get_bind (fun s => ?_) fun s s' agree => by rw [agree.owns mem]
        split
        next => exact run.bind fun _ => .pure _
        next => exact run.bind fun _ => (bindName _ below mem).bind fun _ => .pure _
  next => exact .refuse _ _

theorem Confined.lowerSet (place : Place) (settled : ∀ arg ∈ args, Settled N arg)
    (below : 0 < env) : Confined N (lowerSet place args env) := by
  unfold Compiler.lowerSet
  split
  next => exact .refuse _ _
  next => exact .refuse _ _
  next target value rest =>
    split
    next => exact .refuse _ _
    next =>
      refine ((settled value (by simp)).evaluate env below).bind fun _ => ?_
      split
      next => exact .refuse _ _
      next name word =>
        have mem : name ∈ N := (settled target (by simp)).within (Expr.mem_names_of_word? word)
        refine (rebind _ mem).bind fun found => ?_
        split
        next => exact .pure _
        next => exact .refuse _ _

theorem Confined.lowerFun (place : Place) {params : List Bytes} (read : params ⊆ N)
    (settled : ∀ arg ∈ args, Settled N arg) : Confined N (lowerFun place params args env) := by
  induction args generalizing params with
  | nil =>
    rw [Compiler.lowerFun]
    exact .refuse _ _
  | cons arg rest ih =>
    obtain ⟨first, others⟩ := List.forall_mem_cons.1 settled
    cases rest with
    | nil =>
      rw [Compiler.lowerFun]
      refine openFunction_bind read env fun inner below => ?_
      exact (first.evaluate inner below).bind fun _ => .pure _
    | cons next later =>
      rw [Compiler.lowerFun]
      · split
        next => exact .refuse _ _
        next name word =>
          refine ih (fun n hn => ?_) others
          rcases List.mem_append.1 hn with hn | hn
          · exact read hn
          · rw [List.mem_singleton.1 hn]
            exact first.within (Expr.mem_names_of_word? word)
      · simp

end Forms

/-- The lowering of an expression below the root is confined to the words of the expression. -/
theorem Confined.evaluate {N : List Bytes} (e : Expr) (within : e.names ⊆ N) (env : Nat)
    (below : 0 < env) : Confined N (evaluate e env) := by
  -- The arguments are reached through a list, so the induction is on the size of the expression.
  have settled (args : List Expr) (smaller : sizeOf args < sizeOf e)
      (words : Expr.namesAll args ⊆ N) : ∀ arg ∈ args, Settled N arg := fun arg mem =>
    have included := fun n hn => words (Expr.names_subset_namesAll mem hn)
    have := List.sizeOf_lt_of_mem mem
    ⟨included, fun env below => Confined.evaluate arg included env below⟩
  unfold Compiler.evaluate
  split
  next => exact .pure _
  next => exact .pure _
  next place name => exact .evaluateWord place (within (by simp [Expr.names])) env
  next place name args =>
    have mem : name ∈ N := within (by simp [Expr.names])
    have smaller : sizeOf args < sizeOf (Expr.apply place name args) := by
      rw [Expr.apply.sizeOf_spec]
      omega
    have args_settled := settled args smaller fun n hn => within (by simp [Expr.names, hn])
    split
    next => exact .lowerIf place args_settled below
    next => exact .lowerWhile place args_settled below
    next => exact (lowerDo args_settled below).bind fun _ => .pure _
    next => exact .lowerDefine place args_settled below
    next => exact .lowerSet place args_settled below
    next => exact .lowerFun place (List.nil_subset N) args_settled
    next =>
      refine get_bind (fun s => ?_) fun s s' agree => by rw [agree.has name mem]
      split
      next => exact (lowerAll args_settled below).bind fun _ => .pure _
      next =>
        refine (evaluateWord place mem env).bind fun value => ?_
        split
        next => exact .refuse _ _
        next => exact (lowerAll args_settled below).bind fun _ => .pure _
  next operator args =>
    have smaller : sizeOf args < sizeOf (Expr.closure operator args) := by
      rw [Expr.closure.sizeOf_spec]
      omega
    have args_settled := settled args smaller fun n hn => within (by simp [Expr.names, hn])
    refine (Confined.evaluate operator (fun n hn => ?_) env below).bind fun _ => ?_
    · exact within (by simp [Expr.names, hn])
    · exact (lowerAll args_settled below).bind fun _ => .pure _
termination_by sizeOf e

end EggLang.Compiler
