import EggLang.Proofs.Compiler.Locality

/-!
# Properties that a lowering gets from its moves

A lowering is put together from a few moves: a name is registered, bound or rebound, the frame of a
function body is opened, and the lowering is refused. A property of lowerings that the moves have
in every frame, and that passes from two lowerings to the one after the other, is had by the
lowering of every expression.
-/

namespace EggLang.Compiler

variable {α β : Type}

/-- A succeeding run of one lowering after another is a run of each. -/
theorem bind_eq_ok {m : Lowering α} {f : α → Lowering β} {s u : State} {b : β}
    (ok : (m >>= f) s = .ok b u) : ∃ a t, m s = .ok a t ∧ f a t = .ok b u := by
  simp only [bind, EStateM.bind] at ok
  cases run : m s with
  | error d t =>
    rw [run] at ok
    cases ok
  | ok a t =>
    rw [run] at ok
    exact ⟨a, t, rfl, ok⟩

theorem bind_ok {m : Lowering α} {f : α → Lowering β} {s t : State} {a : α} (ok : m s = .ok a t) :
    (m >>= f) s = f a t := by
  simp only [bind, EStateM.bind, ok]

/-- One lowering after another ends where the first one fails, or where the second one ends. -/
theorem final_bind (m : Lowering α) (f : α → Lowering β) (s : State) :
    (∃ a t, m s = .ok a t ∧ final ((m >>= f) s) = final (f a t))
      ∨ final ((m >>= f) s) = final (m s) := by
  simp only [bind, EStateM.bind]
  cases m s with
  | ok a t => exact .inl ⟨a, t, rfl, rfl⟩
  | error d t => exact .inr rfl

/-- An argument of a `do` that is not the last one. -/
theorem lowerDo_cons (arg : Expr) {rest : List Expr} (more : rest ≠ []) (env : Nat) :
    lowerDo (arg :: rest) env = do
      let first ← evaluate arg env
      return first.toCode :: (← lowerDo rest env) := by
  rw [lowerDo]
  exact more

/-- A property of lowerings in a frame that the moves have and that sequences keep. -/
structure Closed (P : (α : Type) → Nat → Lowering α → Prop) : Prop where
  pure : ∀ {α : Type} {env : Nat} (a : α), P α env (pure a)
  refuse : ∀ {α : Type} {env : Nat} (fault : Fault) (place : Place), P α env (refuse fault place)
  bind : ∀ {α β : Type} {env : Nat} {m : Lowering α} {f : α → Lowering β},
    P α env m → (∀ a, P β env (f a)) → P β env (m >>= f)
  get_bind : ∀ {α : Type} {env : Nat} {f : State → Lowering α},
    (∀ s, P α env (f s)) → P α env (get >>= f)
  registerName : ∀ {env : Nat} (name : Bytes), P Unit env (registerName name)
  bindName : ∀ {env : Nat} (name : Bytes) (value : Binding), P Unit env (bindName env name value)
  rebind : ∀ {env : Nat} (name : Bytes) (value : Binding), P Bool env (rebind env name value)
  openFunction_bind : ∀ {α : Type} {env : Nat} (params : List Bytes) {f : Nat → Lowering α},
    (∀ inner, P α inner (f inner)) → P α env (openFunction params env >>= f)

namespace Closed

variable {P : (α : Type) → Nat → Lowering α → Prop} {args : List Expr} {env : Nat}

theorem evaluateWord (h : Closed P) (place : Place) (name : Bytes) :
    P Binding env (evaluateWord place name env) := by
  unfold Compiler.evaluateWord
  refine h.get_bind fun s => ?_
  split
  · exact h.pure _
  · exact h.pure _
  · split
    · exact h.pure _
    · exact h.refuse _ _

theorem lowerAll (h : Closed P) (each : ∀ arg ∈ args, ∀ env, P Binding env (evaluate arg env)) :
    P (List Code) env (lowerAll args env) := by
  induction args with
  | nil =>
    rw [Compiler.lowerAll]
    exact h.pure _
  | cons e rest ih =>
    rw [Compiler.lowerAll]
    obtain ⟨first, others⟩ := List.forall_mem_cons.1 each
    exact h.bind (first env) fun _ => h.bind (ih others) fun _ => h.pure _

theorem lowerIf (h : Closed P) (place : Place)
    (each : ∀ arg ∈ args, ∀ env, P Binding env (evaluate arg env)) :
    P Binding env (lowerIf place args env) := by
  unfold Compiler.lowerIf
  split
  next cond yes no =>
    refine h.bind (each yes (by simp) env) fun _ => ?_
    refine h.bind (each no (by simp) env) fun _ => ?_
    exact h.bind (each cond (by simp) env) fun _ => h.pure _
  next => exact h.refuse _ _

theorem lowerWhile (h : Closed P) (place : Place)
    (each : ∀ arg ∈ args, ∀ env, P Binding env (evaluate arg env)) :
    P Binding env (lowerWhile place args env) := by
  unfold Compiler.lowerWhile
  split
  next cond body =>
    refine h.bind (each cond (by simp) env) fun _ => ?_
    exact h.bind (each body (by simp) env) fun _ => h.pure _
  next => exact h.refuse _ _

theorem lowerDo (h : Closed P) (each : ∀ arg ∈ args, ∀ env, P Binding env (evaluate arg env)) :
    P (List Code) env (lowerDo args env) := by
  induction args with
  | nil =>
    rw [Compiler.lowerDo]
    exact h.pure _
  | cons arg rest ih =>
    obtain ⟨first, others⟩ := List.forall_mem_cons.1 each
    cases rest with
    | nil =>
      rw [Compiler.lowerDo]
      exact h.bind (first env) fun _ => h.get_bind fun _ => h.pure _
    | cons next later =>
      rw [Compiler.lowerDo]
      · exact h.bind (first env) fun _ => h.bind (ih others) fun _ => h.pure _
      · simp

theorem lowerDefine (h : Closed P) (place : Place)
    (each : ∀ arg ∈ args, ∀ env, P Binding env (evaluate arg env)) :
    P Binding env (lowerDefine place args env) := by
  unfold Compiler.lowerDefine
  split
  next target value =>
    have run := each value (by simp) env
    split
    next => exact h.refuse _ _
    next name _ =>
      split
      next => exact h.bind (h.registerName name) fun _ => h.bind run fun _ => h.pure _
      next =>
        refine h.get_bind fun s => ?_
        split
        next => exact h.bind run fun _ => h.pure _
        next => exact h.bind run fun _ => h.bind (h.bindName name _) fun _ => h.pure _
  next => exact h.refuse _ _

theorem lowerSet (h : Closed P) (place : Place)
    (each : ∀ arg ∈ args, ∀ env, P Binding env (evaluate arg env)) :
    P Binding env (lowerSet place args env) := by
  unfold Compiler.lowerSet
  split
  next => exact h.refuse _ _
  next => exact h.refuse _ _
  next target value rest =>
    split
    next => exact h.refuse _ _
    next =>
      refine h.bind (each value (by simp) env) fun _ => ?_
      split
      next => exact h.refuse _ _
      next name _ =>
        refine h.bind (h.rebind name _) fun found => ?_
        split
        next => exact h.pure _
        next => exact h.refuse _ _

theorem lowerFun (h : Closed P) (place : Place) (params : List Bytes)
    (each : ∀ arg ∈ args, ∀ env, P Binding env (evaluate arg env)) :
    P Binding env (lowerFun place params args env) := by
  induction args generalizing params with
  | nil =>
    rw [Compiler.lowerFun]
    exact h.refuse _ _
  | cons arg rest ih =>
    obtain ⟨first, others⟩ := List.forall_mem_cons.1 each
    cases rest with
    | nil =>
      rw [Compiler.lowerFun]
      exact h.openFunction_bind params fun inner => h.bind (first inner) fun _ => h.pure _
    | cons next later =>
      rw [Compiler.lowerFun]
      · split
        next => exact h.refuse _ _
        next name _ => exact ih (params ++ [name]) others
      · simp

/-- The lowering of every expression has the property, in every frame. -/
theorem evaluate (h : Closed P) (e : Expr) (env : Nat) : P Binding env (evaluate e env) := by
  have smaller (args : List Expr) (less : sizeOf args < sizeOf e) :
      ∀ arg ∈ args, ∀ env, P Binding env (Compiler.evaluate arg env) := fun arg mem env =>
    have := List.sizeOf_lt_of_mem mem
    h.evaluate arg env
  unfold Compiler.evaluate
  split
  next => exact h.pure _
  next => exact h.pure _
  next place name => exact h.evaluateWord place name
  next place name args =>
    have each := smaller args (by rw [Expr.apply.sizeOf_spec]; omega)
    split
    next => exact h.lowerIf place each
    next => exact h.lowerWhile place each
    next => exact h.bind (h.lowerDo each) fun _ => h.pure _
    next => exact h.lowerDefine place each
    next => exact h.lowerSet place each
    next => exact h.lowerFun place [] each
    next =>
      refine h.get_bind fun s => ?_
      split
      next => exact h.bind (h.lowerAll each) fun _ => h.pure _
      next =>
        refine h.bind (h.evaluateWord place name) fun value => ?_
        split
        next => exact h.refuse _ _
        next => exact h.bind (h.lowerAll each) fun _ => h.pure _
  next operator args =>
    have each := smaller args (by rw [Expr.closure.sizeOf_spec]; omega)
    refine h.bind (h.evaluate operator env) fun _ => ?_
    exact h.bind (h.lowerAll each) fun _ => h.pure _
termination_by sizeOf e

end Closed

end EggLang.Compiler
