import EggLang.Proofs.Compiler.Traversal

/-!
# The registry grows by what a program declares

A function is registered by `define(name, fun(…))` and by nothing else, wherever in a program the
form stands, as long as it is compiled: all parts of a program are, but for the arguments of `set`
after its second. So which names a compilation registers can be read off the program. A
compilation that fails has registered some of them.
-/

namespace EggLang

namespace SpecialForm

theorem ofName?_name (form : SpecialForm) : ofName? form.name = some form := by
  cases form <;> decide

theorem name_of_ofName? {name : Bytes} {form : SpecialForm} (h : ofName? name = some form) :
    name = form.name := by
  have found := List.find?_some h
  exact (of_decide_eq_true found).symm

end SpecialForm

namespace Expr

/-- How many of its arguments an application compiles. -/
def compiledArity (operator : Bytes) (args : List Expr) : Nat :=
  if operator = SpecialForm.set.name then 2 else args.length

mutual

/-- The expression and its parts, as far as they are compiled with it. -/
def compiledParts : Expr → List Expr
  | number place digits => [number place digits]
  | string place content => [string place content]
  | word place name => [word place name]
  | apply place name args =>
    apply place name args :: compiledPartsOf (compiledArity name args) args
  | closure operator args =>
    closure operator args :: (operator.compiledParts ++ compiledPartsOf args.length args)

/-- The compiled parts of the first expressions of a list. -/
def compiledPartsOf (count : Nat) : List Expr → List Expr
  | [] => []
  | e :: rest =>
    match count with
    | 0 => []
    | count + 1 => e.compiledParts ++ compiledPartsOf count rest

end

/-- The name that a form `define(name, fun(…))` declares. -/
def declaredFunction? : Expr → Option Bytes
  | apply _ name [target, value] =>
    if name = SpecialForm.define.name ∧ value.isCallOf SpecialForm.fun.name then target.word?
    else none
  | _ => none

/-- The functions that a program declares. -/
def declaredFunctions (e : Expr) : List Bytes := e.compiledParts.filterMap declaredFunction?

/-- The functions that some expressions declare. -/
def declaredAll (args : List Expr) : List Bytes := args.flatMap declaredFunctions

variable {args : List Expr} {name : Bytes} {place : Place}

@[simp] theorem declaredAll_nil : declaredAll [] = [] := rfl

@[simp] theorem declaredAll_cons (e : Expr) (rest : List Expr) :
    declaredAll (e :: rest) = e.declaredFunctions ++ declaredAll rest := rfl

theorem compiledPartsOf_eq (count : Nat) :
    compiledPartsOf count args = (args.take count).flatMap compiledParts := by
  induction args generalizing count with
  | nil => simp [compiledPartsOf]
  | cons e rest ih =>
    cases count with
    | zero => rfl
    | succ count => rw [compiledPartsOf, ih, List.take_succ_cons, List.flatMap_cons]

theorem filterMap_compiledPartsOf (count : Nat) :
    (compiledPartsOf count args).filterMap declaredFunction? = declaredAll (args.take count) := by
  rw [compiledPartsOf_eq, List.filterMap_flatMap]
  rfl

/-- A word declares nothing, be it a target or a parameter. -/
theorem declaredFunctions_of_word? {e : Expr} (h : e.word? = some name) :
    e.declaredFunctions = [] := by
  cases e <;> first | rfl | cases h

theorem declaredFunctions_apply :
    (apply place name args).declaredFunctions
      = (declaredFunction? (apply place name args)).toList
        ++ declaredAll (args.take (compiledArity name args)) := by
  rw [declaredFunctions, compiledParts, List.filterMap_cons, filterMap_compiledPartsOf]
  cases declaredFunction? (apply place name args) <;> rfl

theorem declaredFunctions_closure (operator : Expr) :
    (closure operator args).declaredFunctions
      = operator.declaredFunctions ++ declaredAll args := by
  rw [declaredFunctions, compiledParts, List.filterMap_cons_none rfl, List.filterMap_append,
    filterMap_compiledPartsOf, List.take_length]
  rfl

theorem declaredFunction?_of_ne (not_define : name ≠ SpecialForm.define.name) :
    declaredFunction? (apply place name args) = none := by
  unfold declaredFunction?
  split
  next same =>
    cases same
    exact if_neg fun h => not_define h.1
  next => rfl

theorem declaredFunctions_set :
    (apply place SpecialForm.set.name args).declaredFunctions = declaredAll (args.take 2) := by
  rw [declaredFunctions_apply, declaredFunction?_of_ne (by decide), compiledArity, if_pos rfl]
  rfl

/-- An application of anything but `define` and `set` declares what its arguments declare. -/
theorem declaredFunctions_plain (not_define : SpecialForm.ofName? name ≠ some .define)
    (not_set : SpecialForm.ofName? name ≠ some .set) :
    (apply place name args).declaredFunctions = declaredAll args := by
  have other (form : SpecialForm) (h : SpecialForm.ofName? name ≠ some form) :
      name ≠ form.name := fun same => h (same ▸ form.ofName?_name)
  rw [declaredFunctions_apply, declaredFunction?_of_ne (other .define not_define), compiledArity,
    if_neg (other .set not_set), List.take_length]
  rfl

end Expr

namespace Compiler

/-- A lowering that loses no registered name and registers names of `D` only, all of them if it
succeeds. -/
structure Registers {α : Type} (D : List Bytes) (m : Lowering α) : Prop where
  kept : ∀ s n, s.functions.has n = true → (final (m s)).functions.has n = true
  only : ∀ s n, (final (m s)).functions.has n = true → s.functions.has n = true ∨ n ∈ D
  all : ∀ s a t, m s = .ok a t → ∀ n ∈ D, t.functions.has n = true

namespace Registers

variable {α β : Type} {D D' : List Bytes}

/-- A lowering that leaves the registry as it is. -/
theorem unchanged {m : Lowering α} (same : ∀ s, (final (m s)).functions = s.functions) :
    Registers [] m where
  kept s n h := by rwa [same]
  only s n h := by
    rw [same] at h
    exact .inl h
  all s a t _ n mem := by cases mem

protected theorem pure (a : α) : Registers [] (pure a : Lowering α) := unchanged fun _ => rfl

theorem refuse (fault : Fault) (place : Place) :
    Registers D (refuse fault place : Lowering α) where
  kept s n h := h
  only s n h := .inl h
  all s a t ok := by cases ok

protected theorem bind {m : Lowering α} {f : α → Lowering β} (first : Registers D m)
    (next : ∀ a, Registers D' (f a)) : Registers (D ++ D') (m >>= f) where
  kept s n h := by
    have before := first.kept s n h
    rcases final_bind m f s with ⟨a, t, run, same⟩ | same
    · rw [run] at before
      exact same ▸ (next a).kept t n before
    · exact same ▸ before
  only s n h := by
    have before := first.only s n
    rw [List.mem_append, ← or_assoc]
    rcases final_bind m f s with ⟨a, t, run, same⟩ | same
    · rw [run] at before
      exact ((next a).only t n (same ▸ h)).imp_left before
    · exact .inl (before (same ▸ h))
  all s b u ok n mem := by
    obtain ⟨a, t, run, rest⟩ := bind_eq_ok ok
    rcases List.mem_append.1 mem with mem | mem
    · have kept := (next a).kept t n (first.all s a t run n mem)
      rwa [rest] at kept
    · exact (next a).all t b u rest n mem

theorem congr {m : Lowering α} (h : Registers D m) (same : ∀ n, n ∈ D ↔ n ∈ D') :
    Registers D' m where
  kept := h.kept
  only s n registered := (h.only s n registered).imp_right (same n).1
  all s a t ok n mem := h.all s a t ok n ((same n).2 mem)

/-- What is done with a value registers nothing. -/
theorem bind_pure {m : Lowering α} (h : Registers D m) (f : α → β) :
    Registers D (m >>= fun a => pure (f a)) := by
  have bound := h.bind fun a => Registers.pure (f a)
  rwa [List.append_nil] at bound

theorem get_bind {f : State → Lowering α} (next : ∀ s, Registers D (f s)) :
    Registers D (get >>= f) where
  kept s := (next s).kept s
  only s := (next s).only s
  all s := (next s).all s

theorem registerName (name : Bytes) : Registers [name] (registerName name) where
  kept s n h := by
    change (s.functions.add name).has n = true
    simp [h]
  only s n h := by
    change (s.functions.add name).has n = true at h
    simpa [or_comm] using h
  all s a t ok n mem := by
    cases ok
    simp [List.mem_singleton.1 mem]

theorem bindName (env : Nat) (name : Bytes) (value : Binding) :
    Registers [] (bindName env name value) := unchanged fun _ => rfl

theorem rebind (env : Nat) (name : Bytes) (value : Binding) :
    Registers [] (rebind env name value) := by
  refine unchanged fun s => ?_
  rw [rebind_apply]
  cases s.targetOf? env name <;> rfl

theorem evaluateWord (place : Place) (name : Bytes) (env : Nat) :
    Registers [] (evaluateWord place name env) := by
  unfold Compiler.evaluateWord
  refine get_bind fun s => ?_
  split
  · exact .pure _
  · exact .pure _
  · split
    · exact .pure _
    · exact .refuse _ _

theorem bindParams (params : List Bytes) (env : Nat) :
    Registers [] (params.forM fun p => Compiler.bindName env p (.code (.ident p))) := by
  induction params with
  | nil => exact .pure _
  | cons p rest ih => exact (bindName env p _).bind fun _ => ih

theorem openFunction_bind (params : List Bytes) (env : Nat) {f : Nat → Lowering α}
    (next : ∀ inner, Registers D (f inner)) : Registers D (openFunction params env >>= f) := by
  have body (s : State) := (bindParams params s.frames.size).bind fun _ => next s.frames.size
  constructor
  · intro s
    rw [openFunction_bind_apply]
    exact (body s).kept { s with frames := (s.frames.function env).2 }
  · intro s
    rw [openFunction_bind_apply]
    exact (body s).only { s with frames := (s.frames.function env).2 }
  · intro s
    rw [openFunction_bind_apply]
    exact (body s).all { s with frames := (s.frames.function env).2 }

end Registers

/-- The lowering of an expression registers the functions that the expression declares. -/
def Declares (e : Expr) : Prop := ∀ env, Registers e.declaredFunctions (evaluate e env)

section Forms

variable {args : List Expr} {env : Nat}

theorem Registers.lowerAll (declare : ∀ arg ∈ args, Declares arg) :
    Registers (Expr.declaredAll args) (lowerAll args env) := by
  induction args with
  | nil =>
    rw [Compiler.lowerAll]
    exact .pure _
  | cons e rest ih =>
    rw [Compiler.lowerAll]
    obtain ⟨first, others⟩ := List.forall_mem_cons.1 declare
    exact (first env).bind fun _ => (ih others).bind_pure _

theorem Registers.lowerIf (place : Place) (declare : ∀ arg ∈ args, Declares arg) :
    Registers (Expr.declaredAll args) (lowerIf place args env) := by
  unfold Compiler.lowerIf
  split
  next cond yes no =>
    have run (arg : Expr) (h : arg ∈ [cond, yes, no]) := declare arg h env
    have branches := (run yes (by simp)).bind fun yes' => (run no (by simp)).bind fun no' =>
      (run cond (by simp)).bind_pure fun cond' =>
        Binding.code (.if cond'.toCode yes'.toCode.returning no'.toCode.returning)
    -- the branches come first, so the names come in another order
    refine branches.congr fun n => ?_
    simp only [Expr.declaredAll_cons, Expr.declaredAll_nil, List.append_nil, List.mem_append]
    rw [← or_assoc, or_comm]
  next => exact .refuse _ _

theorem Registers.lowerWhile (place : Place) (declare : ∀ arg ∈ args, Declares arg) :
    Registers (Expr.declaredAll args) (lowerWhile place args env) := by
  unfold Compiler.lowerWhile
  split
  next cond body =>
    have run (arg : Expr) (h : arg ∈ [cond, body]) := declare arg h env
    rw [Expr.declaredAll_cons, Expr.declaredAll_cons, Expr.declaredAll_nil, List.append_nil]
    exact (run cond (by simp)).bind fun _ => (run body (by simp)).bind_pure _
  next => exact .refuse _ _

theorem Registers.lowerDo (declare : ∀ arg ∈ args, Declares arg) :
    Registers (Expr.declaredAll args) (lowerDo args env) := by
  induction args with
  | nil =>
    rw [Compiler.lowerDo]
    exact .pure _
  | cons arg rest ih =>
    obtain ⟨first, others⟩ := List.forall_mem_cons.1 declare
    cases rest with
    | nil =>
      rw [Compiler.lowerDo]
      exact (first env).bind fun _ => .get_bind fun _ => .pure _
    | cons next later =>
      rw [Compiler.lowerDo]
      · exact (first env).bind fun _ => (ih others).bind_pure _
      · simp

theorem Registers.lowerDefine (place : Place) (declare : ∀ arg ∈ args, Declares arg) :
    Registers (Expr.apply place SpecialForm.define.name args).declaredFunctions
      (lowerDefine place args env) := by
  have not_set : SpecialForm.define.name ≠ SpecialForm.set.name := by decide
  unfold Compiler.lowerDefine
  split
  next target value =>
    have run := declare value (by simp) env
    split
    next => exact .refuse _ _
    next name word =>
      rw [Expr.declaredFunctions_apply, Expr.compiledArity, if_neg not_set, List.take_length,
        Expr.declaredAll_cons, Expr.declaredFunctions_of_word? word, List.nil_append,
        Expr.declaredAll_cons, Expr.declaredAll_nil, List.append_nil, Expr.declaredFunction?, word]
      cases isFunction : value.isCallOf SpecialForm.fun.name with
      | true => exact (registerName name).bind fun _ => run.bind_pure _
      | false =>
        rw [if_neg (by simp), if_neg (by simp)]
        refine .get_bind fun s => ?_
        split
        next => exact run.bind_pure _
        next =>
          have bound := run.bind fun value' => (bindName env name value').bind_pure fun _ =>
            Binding.code (.var name value'.toCode)
          exact bound.congr (by simp)
  next => exact .refuse _ _

theorem Registers.lowerSet (place : Place) (declare : ∀ arg ∈ args, Declares arg) :
    Registers (Expr.apply place SpecialForm.set.name args).declaredFunctions
      (lowerSet place args env) := by
  rw [Expr.declaredFunctions_set]
  unfold Compiler.lowerSet
  split
  next => exact .refuse _ _
  next => exact .refuse _ _
  next target value rest =>
    split
    next => exact .refuse _ _
    next =>
      have run := declare value (by simp) env
      -- a target that is no word is refused after the value is lowered
      refine Registers.congr (D := value.declaredFunctions ++ target.declaredFunctions)
        (run.bind fun value' => ?_) fun n => ?_
      · split
        next => exact .refuse _ _
        next name word =>
          rw [Expr.declaredFunctions_of_word? word]
          refine (rebind env name value').bind fun found => ?_
          split
          next => exact .pure _
          next => exact .refuse _ _
      · simp [or_comm]

theorem Registers.lowerFun (place : Place) (params : List Bytes)
    (declare : ∀ arg ∈ args, Declares arg) :
    Registers (Expr.declaredAll args) (lowerFun place params args env) := by
  induction args generalizing params with
  | nil =>
    rw [Compiler.lowerFun]
    exact .refuse _ _
  | cons arg rest ih =>
    obtain ⟨first, others⟩ := List.forall_mem_cons.1 declare
    cases rest with
    | nil =>
      rw [Compiler.lowerFun, Expr.declaredAll_cons, Expr.declaredAll_nil, List.append_nil]
      exact openFunction_bind params env fun inner => (first inner).bind_pure _
    | cons next later =>
      rw [Compiler.lowerFun]
      · split
        next => exact .refuse _ _
        next name word =>
          rw [Expr.declaredAll_cons, Expr.declaredFunctions_of_word? word, List.nil_append]
          exact ih (params ++ [name]) others
      · simp

end Forms

/-- The lowering of every expression registers the functions that the expression declares. -/
theorem Declares.of (e : Expr) : Declares e := by
  intro env
  have smaller (args : List Expr) (less : sizeOf args < sizeOf e) : ∀ arg ∈ args, Declares arg :=
    fun arg mem =>
      have := List.sizeOf_lt_of_mem mem
      Declares.of arg
  unfold evaluate
  split
  next => exact .pure _
  next => exact .pure _
  next place name => exact .evaluateWord place name env
  next place name args =>
    have declare := smaller args (by rw [Expr.apply.sizeOf_spec]; omega)
    have plain (not_define : SpecialForm.ofName? name ≠ some .define)
        (not_set : SpecialForm.ofName? name ≠ some .set) :
        (Expr.apply place name args).declaredFunctions = Expr.declaredAll args :=
      Expr.declaredFunctions_plain not_define not_set
    split
    next form =>
      rw [plain (by simp [form]) (by simp [form])]
      exact .lowerIf place declare
    next form =>
      rw [plain (by simp [form]) (by simp [form])]
      exact .lowerWhile place declare
    next form =>
      rw [plain (by simp [form]) (by simp [form])]
      exact (Registers.lowerDo declare).bind_pure _
    next form =>
      rw [SpecialForm.name_of_ofName? form]
      exact .lowerDefine place declare
    next form =>
      rw [SpecialForm.name_of_ofName? form]
      exact .lowerSet place declare
    next form =>
      rw [plain (by simp [form]) (by simp [form])]
      exact .lowerFun place [] declare
    next form =>
      rw [plain (by simp [form]) (by simp [form])]
      refine .get_bind fun s => ?_
      split
      next => exact (Registers.lowerAll declare).bind_pure _
      next =>
        refine (Registers.evaluateWord place name env).bind fun value => ?_
        split
        next => exact .refuse _ _
        next => exact (Registers.lowerAll declare).bind_pure _
  next operator args =>
    have declare := smaller args (by rw [Expr.closure.sizeOf_spec]; omega)
    rw [Expr.declaredFunctions_closure]
    exact (Declares.of operator env).bind fun _ => (Registers.lowerAll declare).bind_pure _
termination_by sizeOf e

/-- The functions that a source declares; a text that is no program declares none. -/
def declaredBy (source : Bytes) : List Bytes :=
  match parse source with
  | .ok e => e.declaredFunctions
  | .error _ => []

/-- What compiling a source does to the registry. -/
structure RegistersDeclared (t : Compiler) (source : Bytes) : Prop where
  kept : ∀ n, t.functions.has n = true → (t.compile source).2.functions.has n = true
  /-- A new name is declared in the source. -/
  declared : ∀ n, (t.compile source).2.functions.has n = true →
    t.functions.has n = true ∨ n ∈ declaredBy source
  /-- When there is code, all that the source declares is registered. -/
  complete : ∀ text, (t.compile source).1 = .ok text → ∀ n,
    (t.compile source).2.functions.has n = true ↔ t.functions.has n = true ∨ n ∈ declaredBy source
  noProgram : ∀ d, parse source = .error d → (t.compile source).2.functions = t.functions

theorem RegistersDeclared.of (t : Compiler) (source : Bytes) : RegistersDeclared t source := by
  cases parses : parse source with
  | error d =>
    have unchanged : t.compile source = (.error d, t) := by rw [compile, parses]
    refine ⟨fun n h => ?_, fun n h => ?_, fun text ok => ?_, fun _ _ => ?_⟩
    · rwa [unchanged]
    · rw [unchanged] at h
      exact .inl h
    · rw [unchanged] at ok
      cases ok
    · rw [unchanged]
  | ok e =>
    have run := Declares.of e 1
    have declares : declaredBy source = e.declaredFunctions := by rw [declaredBy, parses]
    have kept (n : Bytes) : t.functions.has n = true →
        (t.compile source).2.functions.has n = true := by
      rw [compile_eq t parses]
      exact run.kept t.start n
    have declared (n : Bytes) : (t.compile source).2.functions.has n = true →
        t.functions.has n = true ∨ n ∈ declaredBy source := by
      rw [compile_eq t parses, declares]
      exact run.only t.start n
    refine ⟨kept, declared, fun text ok n => ⟨declared n, ?_⟩, fun d other => ?_⟩
    · rintro (old | mem)
      · exact kept n old
      · rw [compile_eq t parses] at ok ⊢
        rw [declares] at mem
        cases done : evaluate e 1 t.start with
        | ok value s => exact run.all t.start value s done n mem
        | error d s =>
          rw [done] at ok
          cases ok
    · rw [parses] at other
      cases other

/-- The compiler after some sources have been compiled one after another. -/
def compileAll (t : Compiler) (sources : List Bytes) : Compiler :=
  sources.foldl (fun t source => (t.compile source).2) t

theorem has_compileAll_of_has {t : Compiler} {n : Bytes} (h : t.functions.has n = true)
    (sources : List Bytes) : (t.compileAll sources).functions.has n = true := by
  induction sources generalizing t with
  | nil => exact h
  | cons source rest ih => exact ih ((RegistersDeclared.of t source).kept n h)

theorem declared_of_has_compileAll {t : Compiler} {n : Bytes} {sources : List Bytes}
    (h : (t.compileAll sources).functions.has n = true) :
    t.functions.has n = true ∨ ∃ source ∈ sources, n ∈ declaredBy source := by
  induction sources generalizing t with
  | nil => exact .inl h
  | cons source rest ih =>
    rcases ih h with earlier | ⟨later, mem, declares⟩
    · rcases (RegistersDeclared.of t source).declared n earlier with old | declares
      · exact .inl old
      · exact .inr ⟨source, List.mem_cons_self .., declares⟩
    · exact .inr ⟨later, List.mem_cons_of_mem _ mem, declares⟩

/-- Compiling a source adds to the registry what its program declares, all of it if there is code
and some of it otherwise. Over any calls in a row no name is lost, and a name that appears is
declared by one of the sources. -/
theorem compile_registers (t : Compiler) :
    (∀ source, RegistersDeclared t source)
      ∧ ∀ sources n, (t.functions.has n = true → (t.compileAll sources).functions.has n = true)
          ∧ ((t.compileAll sources).functions.has n = true →
              t.functions.has n = true ∨ ∃ source ∈ sources, n ∈ declaredBy source) :=
  ⟨RegistersDeclared.of t, fun sources _ =>
    ⟨fun h => has_compileAll_of_has h sources, declared_of_has_compileAll⟩⟩

/-- A program that declares `f` and `h` and fails between the two, and one that compiles although
`set` does not look at its third argument: of their three functions `f` alone is registered. -/
theorem compile_registers_failing :
    let failing := utf8 "do(define(f,fun(1)),g,define(h,fun(2)))"
    let ignoring := utf8 "do(define(x,0),set(x,1,define(g,fun(1))))"
    let t := Compiler.new (utf8 "  ")
    declaredBy failing = [utf8 "f", utf8 "h"] ∧ declaredBy ignoring = []
      ∧ (t.compile failing).1.isOk = false ∧ (t.compile ignoring).1.isOk = true
      ∧ (t.compileAll [failing, ignoring]).functions.names = [utf8 "f"]
      ∧ (t.compileAll [failing, ignoring]).functions.has (utf8 "f") = true
      ∧ ∃ source ∈ [failing, ignoring], utf8 "f" ∈ declaredBy source := by
  intro failing ignoring t
  have registered : (t.compileAll [failing, ignoring]).functions.has (utf8 "f") = true := by
    decide +kernel
  have unregistered : t.functions.has (utf8 "f") = false := by decide +kernel
  have declares := ((compile_registers t).2 [failing, ignoring] (utf8 "f")).2 registered
  rw [unregistered] at declares
  exact ⟨by decide +kernel, by decide +kernel, by decide +kernel, by decide +kernel,
    by decide +kernel, registered, declares.resolve_left Bool.false_ne_true⟩

end Compiler

end EggLang
