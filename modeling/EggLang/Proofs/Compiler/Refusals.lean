import EggLang.Proofs.Compiler.Runs
import EggLang.Proofs.Compiler.Tracking
import EggLang.Proofs.Expr.Positions

/-!
# Where a lowering is refused

The lowering of an expression either is refused at that expression or begins to lower some of the
expressions in it, one after the other in one frame, and fails as one of those does. So a failing
lowering comes, frame by frame and through what it has done to the state by then, to an expression
at which it is refused for one of finitely many reasons.
-/

namespace EggLang

namespace Expr

variable {e n : Expr} {args : List Expr}

/-- The expressions directly in an expression. -/
def children : Expr → List Expr
  | apply _ _ args => args
  | closure operator args => operator :: args
  | number .. | string .. | word .. => []

theorem sizeOf_child_lt (mem : n ∈ e.children) : sizeOf n < sizeOf e := by
  cases e with
  | apply place name args =>
    have : sizeOf n < sizeOf args := List.sizeOf_lt_of_mem mem
    rw [apply.sizeOf_spec]
    omega
  | closure operator args =>
    rw [closure.sizeOf_spec]
    rcases List.mem_cons.1 mem with rfl | mem
    · omega
    · have := List.sizeOf_lt_of_mem mem
      omega
  | number | string | word => cases mem

theorem nodes_subset_nodesAll (mem : n ∈ args) : n.nodes ⊆ nodesAll args := by
  induction args with
  | nil => cases mem
  | cons arg rest ih =>
    rw [nodesAll]
    rcases List.mem_cons.1 mem with rfl | mem
    · exact List.subset_append_left _ _
    · exact List.subset_append_of_subset_right _ (ih mem)

theorem nodes_child_subset (mem : n ∈ e.children) : n.nodes ⊆ e.nodes := by
  cases e with
  | apply place name args => exact List.subset_cons_of_subset _ (nodes_subset_nodesAll mem)
  | closure operator args =>
    refine List.subset_cons_of_subset _ ?_
    rcases List.mem_cons.1 mem with rfl | mem
    · exact List.subset_append_left _ _
    · exact List.subset_append_of_subset_right _ (nodes_subset_nodesAll mem)
  | number | string | word => cases mem

end Expr

namespace Compiler

variable {e n : Expr} {env inner : Nat} {s t u : State} {d : Diagnostic} {place : Place}
  {name : Bytes} {args parts : List Expr} {fault : Fault}

/-- The expressions that the lowering of an expression in the frame `env` lowers first, one after
the other, with the frame and the state in which it does. -/
inductive Begins : Expr → Nat → State → List Expr → Nat → State → Prop
  /-- The branches of an `if` come before its condition. -/
  | if {place : Place} {name : Bytes} {cond yes no : Expr} {env : Nat} {s : State}
      (form : SpecialForm.ofName? name = some .if) :
      Begins (.apply place name [cond, yes, no]) env s [yes, no, cond] env s
  | while {place : Place} {name : Bytes} {cond body : Expr} {env : Nat} {s : State}
      (form : SpecialForm.ofName? name = some .while) :
      Begins (.apply place name [cond, body]) env s [cond, body] env s
  | do {place : Place} {name : Bytes} {args : List Expr} {env : Nat} {s : State}
      (form : SpecialForm.ofName? name = some .do) :
      Begins (.apply place name args) env s args env s
  /-- A function is registered before its body is lowered. -/
  | defineFunction {place : Place} {name x : Bytes} {target value : Expr} {env : Nat} {s : State}
      (form : SpecialForm.ofName? name = some .define) (word : target.word? = some x)
      (isFunction : value.isCallOf SpecialForm.fun.name = true) :
      Begins (.apply place name [target, value]) env s [value] env
        { s with functions := s.functions.add x }
  | define {place : Place} {name x : Bytes} {target value : Expr} {env : Nat} {s : State}
      (form : SpecialForm.ofName? name = some .define) (word : target.word? = some x)
      (plain : value.isCallOf SpecialForm.fun.name = false) :
      Begins (.apply place name [target, value]) env s [value] env s
  | set {place : Place} {name : Bytes} {target value : Expr} {rest : List Expr} {env : Nat}
      {s : State} (form : SpecialForm.ofName? name = some .set)
      (taken : rest = [] ∨ target.word?.isSome) :
      Begins (.apply place name (target :: value :: rest)) env s [value] env s
  /-- The body of a function is lowered in a frame of its own. -/
  | fun {place : Place} {name : Bytes} {words : List Expr} {params : List Bytes} {body : Expr}
      {env inner : Nat} {s t : State} (form : SpecialForm.ofName? name = some .fun)
      (named : words.map Expr.word? = params.map some)
      (opened : openFunction params env s = .ok inner t) :
      Begins (.apply place name (words ++ [body])) env s [body] inner t
  | call {place : Place} {name : Bytes} {args : List Expr} {env : Nat} {s : State}
      (plain : SpecialForm.ofName? name = none) (registered : s.functions.has name = true) :
      Begins (.apply place name args) env s args env s
  | operation {place : Place} {name : Bytes} {args : List Expr} {env : Nat} {s : State}
      {p : Primitive} (plain : SpecialForm.ofName? name = none)
      (new : s.functions.has name = false) (bound : s.frames.get? env name = some (.primitive p)) :
      Begins (.apply place name args) env s args env s
  | closure {operator : Expr} {args : List Expr} {env : Nat} {s : State} :
      Begins (.closure operator args) env s (operator :: args) env s

/-- Lowering the expression in the frame `env` from the state `s` comes to lowering another one,
in some frame from some state. -/
inductive Visits : Expr → Nat → State → Expr → Nat → State → Prop
  | here {e : Expr} {env : Nat} {s : State} : Visits e env s e env s
  /-- The expressions before it are lowered, and changed the state. -/
  | part {e next n : Expr} {before after : List Expr} {codes : List Code} {env inner deep : Nat}
      {s t u v : State} (begins : Begins e env s (before ++ next :: after) inner t)
      (run : lowerAll before inner t = .ok codes u) (visits : Visits next inner u n deep v) :
      Visits e env s n deep v

/-- The lowering of an expression in the frame `env` from the state `s` is refused at that
expression, in the state `t`, for a fault at a place. -/
inductive Refuses : Expr → Nat → State → State → Fault → Place → Prop
  | word {place : Place} {name : Bytes} {env : Nat} {s : State}
      (unbound : s.frames.get? env name = none) (new : s.functions.has name = false) :
      Refuses (.word place name) env s s (.undefinedBinding name) place
  | operator {place : Place} {name : Bytes} {args : List Expr} {env : Nat} {s : State}
      (plain : SpecialForm.ofName? name = none) (unbound : s.frames.get? env name = none)
      (new : s.functions.has name = false) :
      Refuses (.apply place name args) env s s (.undefinedBinding name) place
  | notApplicable {place : Place} {name : Bytes} {args : List Expr} {c : Code} {env : Nat}
      {s : State} (plain : SpecialForm.ofName? name = none) (new : s.functions.has name = false)
      (bound : s.frames.get? env name = some (.code c)) :
      Refuses (.apply place name args) env s s (.notApplicable name) place
  | ifArity {place : Place} {name : Bytes} {args : List Expr} {env : Nat} {s : State}
      (form : SpecialForm.ofName? name = some .if) (arity : args.length ≠ 3) :
      Refuses (.apply place name args) env s s (.ifArity args.length) place
  | whileArity {place : Place} {name : Bytes} {args : List Expr} {env : Nat} {s : State}
      (form : SpecialForm.ofName? name = some .while) (arity : args.length ≠ 2) :
      Refuses (.apply place name args) env s s (.whileArity args.length) place
  | define {place : Place} {name : Bytes} {args : List Expr} {env : Nat} {s : State}
      (form : SpecialForm.ofName? name = some .define)
      (malformed : ∀ target value, args = [target, value] → target.word? = none) :
      Refuses (.apply place name args) env s s .malformedDefine place
  | set {place : Place} {name : Bytes} {args : List Expr} {env : Nat} {s : State}
      (form : SpecialForm.ofName? name = some .set) (arity : args.length ≠ 2)
      (malformed : ∀ target ∈ args.head?, target.word? = none) :
      Refuses (.apply place name args) env s s .malformedSet place
  | setWithoutValue {place : Place} {name x : Bytes} {target : Expr} {env : Nat} {s : State}
      (form : SpecialForm.ofName? name = some .set) (word : target.word? = some x) :
      Refuses (.apply place name [target]) env s s .setWithoutValue place
  /-- The value is lowered before the target is looked at. -/
  | targetNotName {place : Place} {name : Bytes} {target value : Expr} {b : Binding} {env : Nat}
      {s t : State} (form : SpecialForm.ofName? name = some .set) (noWord : target.word? = none)
      (run : evaluate value env s = .ok b t) :
      Refuses (.apply place name [target, value]) env s t .targetNotName target.place
  | unresolvedTarget {place : Place} {name x : Bytes} {target value : Expr} {rest : List Expr}
      {b : Binding} {env : Nat} {s t : State} (form : SpecialForm.ofName? name = some .set)
      (word : target.word? = some x) (run : evaluate value env s = .ok b t)
      (unowned : t.targetOf? env x = none) :
      Refuses (.apply place name (target :: value :: rest)) env s t (.unresolvedTarget x) place
  | functionWithoutBody {place : Place} {name : Bytes} {env : Nat} {s : State}
      (form : SpecialForm.ofName? name = some .fun) :
      Refuses (.apply place name []) env s s .functionWithoutBody place
  | parameterNotWord {place : Place} {name : Bytes} {words rest : List Expr}
      {params : List Bytes} {param : Expr} {env : Nat} {s : State}
      (form : SpecialForm.ofName? name = some .fun)
      (named : words.map Expr.word? = params.map some) (noWord : param.word? = none)
      (more : rest ≠ []) :
      Refuses (.apply place name (words ++ param :: rest)) env s s .parameterNotWord param.place

/-- A lowering that fails is refused at its expression or fails at one that it begins with. -/
def FailsAs (e : Expr) (env : Nat) (s t : State) (d : Diagnostic) : Prop :=
  (∃ fault place, Refuses e env s t fault place ∧ d = .ofFault fault place) ∨
    ∃ parts inner u, Begins e env s parts inner u ∧ lowerAll parts inner u = .error d t

theorem FailsAs.refused (h : Refuses e env s t fault place) :
    FailsAs e env s t (.ofFault fault place) :=
  .inl ⟨fault, place, h, rfl⟩

theorem FailsAs.begun (h : Begins e env s parts inner u)
    (fails : lowerAll parts inner u = .error d t) : FailsAs e env s t d :=
  .inr ⟨parts, inner, u, h, fails⟩

/-! ## The forms -/

theorem FailsAs.lowerIf (form : SpecialForm.ofName? name = some .if)
    (fails : lowerIf place args env s = .error d t) :
    FailsAs (.apply place name args) env s t d := by
  unfold Compiler.lowerIf at fails
  split at fails
  next cond yes no =>
    refine .begun (.if form) ?_
    rcases bind_eq_error fails with fails | ⟨_, _, run, fails⟩
    · exact lowerAll_of_error fails _
    refine lowerAll_of_ok run ?_
    rcases bind_eq_error fails with fails | ⟨_, _, run, fails⟩
    · exact lowerAll_of_error fails _
    refine lowerAll_of_ok run ?_
    exact lowerAll_of_error (map_eq_error fails) _
  next other =>
    obtain ⟨rfl, rfl⟩ := refuse_eq_error fails
    refine .refused (.ifArity form fun arity => ?_)
    obtain ⟨cond, yes, no, rfl⟩ := List.length_eq_three.1 arity
    exact other cond yes no rfl

theorem FailsAs.lowerWhile (form : SpecialForm.ofName? name = some .while)
    (fails : lowerWhile place args env s = .error d t) :
    FailsAs (.apply place name args) env s t d := by
  unfold Compiler.lowerWhile at fails
  split at fails
  next cond body =>
    refine .begun (.while form) ?_
    rcases bind_eq_error fails with fails | ⟨_, _, run, fails⟩
    · exact lowerAll_of_error fails _
    refine lowerAll_of_ok run ?_
    exact lowerAll_of_error (map_eq_error fails) _
  next other =>
    obtain ⟨rfl, rfl⟩ := refuse_eq_error fails
    refine .refused (.whileArity form fun arity => ?_)
    obtain ⟨cond, body, rfl⟩ := List.length_eq_two.1 arity
    exact other cond body rfl

theorem FailsAs.lowerDefine (form : SpecialForm.ofName? name = some .define)
    (fails : lowerDefine place args env s = .error d t) :
    FailsAs (.apply place name args) env s t d := by
  unfold Compiler.lowerDefine at fails
  split at fails
  next target value =>
    cases word : target.word? with
    | none =>
      simp only [word] at fails
      obtain ⟨rfl, rfl⟩ := refuse_eq_error fails
      refine .refused (.define form fun target' value' same => ?_)
      cases same
      exact word
    | some x =>
      simp only [word] at fails
      cases kind : value.isCallOf SpecialForm.fun.name with
      | true =>
        rw [if_pos kind] at fails
        exact .begun (.defineFunction form word kind) (lowerAll_of_error (map_eq_error fails) _)
      | false =>
        rw [if_neg (by simp [kind])] at fails
        refine .begun (.define form word kind) ?_
        have looked : (get : Lowering State) s = .ok s s := rfl
        rw [bind_ok looked] at fails
        by_cases owned : s.frames.owns env x = true
        · rw [if_pos owned] at fails
          exact lowerAll_of_error (map_eq_error fails) _
        · rw [if_neg owned] at fails
          rcases bind_eq_error fails with fails | ⟨_, _, _, fails⟩
          · exact lowerAll_of_error fails _
          · cases fails
  next other =>
    obtain ⟨rfl, rfl⟩ := refuse_eq_error fails
    exact .refused (.define form fun target value same => absurd same (other target value))

theorem FailsAs.lowerSet (form : SpecialForm.ofName? name = some .set)
    (fails : lowerSet place args env s = .error d t) :
    FailsAs (.apply place name args) env s t d := by
  unfold Compiler.lowerSet at fails
  split at fails
  next =>
    obtain ⟨rfl, rfl⟩ := refuse_eq_error fails
    exact .refused (.set form (by simp) (by simp))
  next target =>
    obtain ⟨rfl, rfl⟩ := refuse_eq_error fails
    cases word : target.word? with
    | none => exact .refused (.set form (by simp) (by simpa using word))
    | some x => exact .refused (.setWithoutValue form word)
  next target value rest =>
    split at fails
    next malformed =>
      obtain ⟨rfl, rfl⟩ := refuse_eq_error fails
      refine .refused (.set form ?_ ?_)
      all_goals simp at malformed ⊢
      · exact malformed.1
      · exact malformed.2
    next taken =>
      have taken : rest = [] ∨ target.word?.isSome := by
        cases rest <;> cases h : target.word? <;> simp [h] at taken ⊢
      rcases bind_eq_error fails with fails | ⟨b, u, run, fails⟩
      · exact .begun (.set form taken) (lowerAll_of_error fails _)
      cases word : target.word? with
      | none =>
        simp only [word] at fails
        obtain ⟨rfl, rfl⟩ := refuse_eq_error fails
        rw [word] at taken
        obtain rfl : rest = [] := taken.resolve_right (by simp)
        exact .refused (.targetNotName form word run)
      | some x =>
        simp only [word] at fails
        rcases bind_eq_error fails with fails | ⟨found, v, rebound, fails⟩
        · rw [rebind_apply] at fails
          split at fails <;> cases fails
        · rw [rebind_apply] at rebound
          split at rebound
          next unowned =>
            cases rebound
            obtain ⟨rfl, rfl⟩ := refuse_eq_error fails
            exact .refused (.unresolvedTarget form word run unowned)
          next =>
            cases rebound
            exact absurd fails pure_ne_error

/-- The parameters that are already read are in front of the others in the argument list. -/
theorem FailsAs.lowerFun_read (form : SpecialForm.ofName? name = some .fun) {words : List Expr}
    {params : List Bytes} (named : words.map Expr.word? = params.map some) (left : args ≠ [])
    (fails : lowerFun place params args env s = .error d t) :
    FailsAs (.apply place name (words ++ args)) env s t d := by
  induction args generalizing words params with
  | nil => exact absurd rfl left
  | cons arg rest ih =>
    cases rest with
    | nil =>
      rw [lowerFun] at fails
      obtain ⟨v, opens, -⟩ := openFunction_run params env s
      rcases bind_eq_error fails with fails | ⟨inner, u, opened, fails⟩
      · rw [opens] at fails
        cases fails
      · exact .begun (.fun form named opened) (lowerAll_of_error (map_eq_error fails) _)
    | cons next later =>
      rw [lowerFun] at fails
      · cases word : arg.word? with
        | none =>
          simp only [word] at fails
          obtain ⟨rfl, rfl⟩ := refuse_eq_error fails
          exact .refused (.parameterNotWord form named word (by simp))
        | some x =>
          simp only [word] at fails
          have whole : words ++ arg :: next :: later = (words ++ [arg]) ++ next :: later := by simp
          rw [whole]
          exact ih (by simp [named, word]) (by simp) fails
      · simp

theorem FailsAs.lowerFun (form : SpecialForm.ofName? name = some .fun)
    (fails : lowerFun place [] args env s = .error d t) :
    FailsAs (.apply place name args) env s t d := by
  cases args with
  | nil =>
    rw [Compiler.lowerFun] at fails
    obtain ⟨rfl, rfl⟩ := refuse_eq_error fails
    exact .refused (.functionWithoutBody form)
  | cons arg rest =>
    have named : ([] : List Expr).map Expr.word? = ([] : List Bytes).map some := rfl
    exact .lowerFun_read form named (by simp) fails

theorem FailsAs.call (plain : SpecialForm.ofName? name = none)
    (fails : Compiler.evaluate (.apply place name args) env s = .error d t) :
    FailsAs (.apply place name args) env s t d := by
  rw [evaluate_apply plain] at fails
  split at fails
  next registered => exact .begun (.call plain registered) (map_eq_error fails)
  next unregistered =>
    have new : s.functions.has name = false := by simpa using unregistered
    rcases bind_eq_error fails with fails | ⟨value, u, run, fails⟩
    · obtain ⟨unbound, -, rfl, rfl⟩ := evaluateWord_eq_error fails
      exact .refused (.operator plain unbound new)
    · rw [evaluateWord_apply, if_neg unregistered] at run
      split at run
      next p bound =>
        cases run
        exact .begun (.operation plain new bound) (map_eq_error fails)
      next c bound =>
        cases run
        obtain ⟨rfl, rfl⟩ := refuse_eq_error fails
        exact .refused (.notApplicable plain new bound)
      next => cases run

theorem FailsAs.evaluate (fails : evaluate e env s = .error d t) : FailsAs e env s t d := by
  cases e with
  | number place digits =>
    rw [Compiler.evaluate] at fails
    exact absurd fails pure_ne_error
  | string place content =>
    rw [Compiler.evaluate] at fails
    exact absurd fails pure_ne_error
  | word place name =>
    rw [Compiler.evaluate] at fails
    obtain ⟨unbound, new, rfl, rfl⟩ := evaluateWord_eq_error fails
    exact .refused (.word unbound new)
  | apply place name args =>
    cases form : SpecialForm.ofName? name with
    | none => exact .call form fails
    | some special =>
      rw [evaluate_form form] at fails
      cases special with
      | «if» => exact .lowerIf form fails
      | «while» => exact .lowerWhile form fails
      | «do» => exact .begun (.do form) (lowerDo_eq_error (map_eq_error fails))
      | define => exact .lowerDefine form fails
      | set => exact .lowerSet form fails
      | «fun» => exact .lowerFun form fails
  | closure operator args =>
    rw [Compiler.evaluate] at fails
    refine .begun .closure ?_
    rcases bind_eq_error fails with fails | ⟨value, u, run, fails⟩
    · exact lowerAll_of_error fails args
    · exact lowerAll_of_ok run (map_eq_error fails)

/-! ## From the program to the refusal -/

theorem Begins.mem_children (h : Begins e env s parts inner u) (mem : n ∈ parts) :
    n ∈ e.children := by
  cases h <;> simp only [Expr.children, List.mem_cons, List.mem_append] at mem ⊢ <;> tauto

/-- A lowering that fails comes to an expression at which it is refused. -/
theorem exists_refusal {e : Expr} {env : Nat} {s : State} (fails : evaluate e env s = .error d t) :
    ∃ n inner u fault place, Visits e env s n inner u ∧ Refuses n inner u t fault place
      ∧ d = .ofFault fault place := by
  rcases FailsAs.evaluate fails with ⟨fault, place, refused, rfl⟩ | ⟨parts, inner, u, begins, fails⟩
  · exact ⟨e, env, s, fault, place, .here, refused, rfl⟩
  · obtain ⟨before, next, after, codes, v, rfl, run, fails⟩ := lowerAll_eq_error fails
    have smaller : sizeOf next < sizeOf e := Expr.sizeOf_child_lt (begins.mem_children (by simp))
    obtain ⟨n, deep, w, fault, place, visits, refused, rfl⟩ := exists_refusal fails
    exact ⟨n, deep, w, fault, place, .part begins run visits, refused, rfl⟩
termination_by sizeOf e

/-- Every expression that a lowering comes to is one of the program. -/
theorem Visits.nodes_subset (h : Visits e env s n inner u) : n.nodes ⊆ e.nodes := by
  induction h with
  | here => exact List.Subset.refl _
  | part begins _ _ ih =>
    exact List.Subset.trans ih (Expr.nodes_child_subset (begins.mem_children (by simp)))

/-- A refusal is reported at the expression that is refused or at one of its arguments. -/
theorem Refuses.mem_nodes (h : Refuses e env s t fault place) : ∃ n ∈ e.nodes, n.place = place := by
  have itself : e.place = place → ∃ n ∈ e.nodes, n.place = place := fun h => ⟨e, e.mem_nodes, h⟩
  have child (n : Expr) (mem : n ∈ e.children) : ∃ m ∈ e.nodes, m.place = n.place :=
    ⟨n, Expr.nodes_child_subset mem n.mem_nodes, rfl⟩
  cases h
  case targetNotName => exact child _ (by simp [Expr.children])
  case parameterNotWord => exact child _ (by simp [Expr.children])
  all_goals exact itself rfl

end Compiler

end EggLang
