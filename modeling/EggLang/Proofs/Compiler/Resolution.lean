import EggLang.Proofs.Code.Scoping
import EggLang.Proofs.Compiler.Traversal

/-!
# Lowering with the frames of names

A lowering looks names up in scope frames and leaves only the names in the code. `resolve` takes
the same steps and keeps in a tree which frame owned each name; the code is read off the tree.
-/

namespace EggLang

namespace Frames

variable {α : Type}

/-- The frame that owns a name, looked up from a frame outward. -/
def owner? (fs : Frames α) (env : Nat) (name : Bytes) : Option Nat :=
  if fs.owns env name then some env
  else
    match fs.outer? env with
    | some outer => if outer < env then owner? fs outer name else none
    | none => none
termination_by env

theorem owner?_of_owns {fs : Frames α} {env : Nat} {name : Bytes}
    (owned : fs.owns env name = true) :
    fs.owner? env name = some env := by
  rw [owner?, if_pos owned]

theorem owns_of_owner? {fs : Frames α} {env f : Nat} {name : Bytes}
    (found : fs.owner? env name = some f) : fs.owns f name = true := by
  induction env using Nat.strongRecOn with
  | ind env ih =>
    rw [owner?] at found
    split at found
    next owned =>
      cases found
      exact owned
    next =>
      split at found
      next outer _ =>
        split at found
        next inside => exact ih outer inside found
        next => cases found
      next => cases found

/-- A name is bound to what its owner binds it to. -/
theorem get?_eq_owner (fs : Frames α) (env : Nat) (name : Bytes) :
    fs.get? env name = (fs.owner? env name).bind fun f => fs.own? f name := by
  induction env using Nat.strongRecOn with
  | ind env ih =>
    rw [get?, owner?]
    cases own : fs.own? env name with
    | some value =>
      rw [if_pos (by rw [owns, own]; rfl), Option.bind_some, own]
    | none =>
      rw [if_neg (by rw [owns, own]; simp)]
      cases fs.outer? env with
      | none => rfl
      | some outer =>
        by_cases inside : outer < env
        · simp only [if_pos inside, ih outer inside]
        · simp only [if_neg inside, Option.bind_none]

end Frames

/-- An expression with its names resolved. -/
inductive Resolved where
  /-- Text that is used as it is and in which no name of a frame is looked up. -/
  | text (t : Bytes)
  /-- A name that a frame binds to code. -/
  | word (name : Bytes) (owner : Nat)
  | primitive (p : Primitive)
  | call (name : Bytes) (args : List Resolved)
  | operation (p : Primitive) (args : List Resolved)
  | closure (callee : Resolved) (args : List Resolved)
  | if (cond yes no : Resolved)
  | while (cond body : Resolved)
  | do (statements : List Resolved)
  | declare (name : Bytes) (value : Resolved)
  | assign (name : Bytes) (owner : Nat) (value : Resolved)
  /-- A function, with the frame of its body. -/
  | function (frame : Nat) (params : List Bytes) (body : Resolved)
  | returned (value : Resolved)

namespace Resolved

mutual

/-- The generated code. -/
def code : Resolved → Code
  | text t => .raw t
  | word name _ => .ident name
  | primitive p => .ident p.name
  | call name args => .call (.ident name) (codeAll args)
  | operation p args => p.expand (codeAll args)
  | closure callee args => .call callee.code (codeAll args)
  | .if cond yes no => .if cond.code yes.code.returning no.code.returning
  | .while cond body => .while cond.code body.code
  | .do statements => .block (codeAll statements)
  | declare name value => .var name value.code
  | assign name _ value => .assign name value.code
  | function _ params body => .function params body.code.returning
  | returned value => value.code.returning

/-- The code of a list. -/
def codeAll : List Resolved → List Code
  | [] => []
  | r :: rest => r.code :: codeAll rest

end

/-- Whether it is a function as such. -/
def isFunction : Resolved → Bool
  | function .. => true
  | _ => false

/-- What lowering the expression gives. -/
def binding : Resolved → Binding
  | primitive p => .primitive p
  | r => .code r.code

theorem toCode_binding (r : Resolved) : r.binding.toCode = r.code := by
  cases r <;> rfl

theorem codeAll_eq (rs : List Resolved) : codeAll rs = rs.map code := by
  induction rs with
  | nil => rfl
  | cons r rest ih => rw [codeAll, ih, List.map_cons]

end Resolved

namespace Compiler

/-- The last argument of a `do` in a function body. -/
def State.closingResolved (s : State) (arg : Expr) (r : Resolved) : List Resolved :=
  let returned := arg.word?.isSome || (arg.operator?.map s.returnsValue).getD false
  if returned then [.returned r]
  else if arg.isCallOf SpecialForm.do.name then [r, .returned (.text (utf8 "false"))]
  else [r]

theorem State.closing_eq (s : State) (arg : Expr) (r : Resolved) :
    s.closing arg r.code = Resolved.codeAll (s.closingResolved arg r) := by
  rw [closing, closingResolved]
  split
  next => rfl
  next => split <;> rfl

/-- Resolves a word. -/
def resolveWord (place : Place) (name : Bytes) (env : Nat) : Lowering Resolved := do
  let s ← get
  match s.frames.owner? env name with
  | some owner =>
    match s.frames.own? owner name with
    | some (.primitive p) => return .primitive p
    | _ => return .word name owner
  | none =>
    if s.functions.has name then return .text name
    else refuse (.undefinedBinding name) place

mutual

/-- Resolves an expression in a frame. -/
def resolve (e : Expr) (env : Nat) : Lowering Resolved :=
  match e with
  | .number _ digits => return .text (Code.numberText (Expr.numberValue digits))
  | .string _ content => return .text content
  | .word place name => resolveWord place name env
  | .apply place name args =>
    match SpecialForm.ofName? name with
    | some .if => resolveIf place args env
    | some .while => resolveWhile place args env
    | some .do => return .do (← resolveDo args env)
    | some .define => resolveDefine place args env
    | some .set => resolveSet place args env
    | some .fun => resolveFun place [] args env
    | none => do
      if (← get).functions.has name then return .call name (← resolveAll args env)
      else
        match ← resolveWord place name env with
        | .primitive p => return .operation p (← resolveAll args env)
        | _ => refuse (.notApplicable name) place
  | .closure operator args => do
    let callee ← resolve operator env
    return .closure callee (← resolveAll args env)

/-- Resolves a list of expressions from left to right. -/
def resolveAll (es : List Expr) (env : Nat) : Lowering (List Resolved) :=
  match es with
  | [] => return []
  | e :: rest => do
    let first ← resolve e env
    return first :: (← resolveAll rest env)

/-- Resolves the arguments of an `if`. -/
def resolveIf (place : Place) (args : List Expr) (env : Nat) : Lowering Resolved :=
  match args with
  | [cond, yes, no] => do
    let yes ← resolve yes env
    let no ← resolve no env
    let cond ← resolve cond env
    return .if cond yes no
  | _ => refuse (.ifArity args.length) place

/-- Resolves the arguments of a `while`. -/
def resolveWhile (place : Place) (args : List Expr) (env : Nat) : Lowering Resolved :=
  match args with
  | [cond, body] => do
    let cond ← resolve cond env
    let body ← resolve body env
    return .while cond body
  | _ => refuse (.whileArity args.length) place

/-- Resolves the arguments of a `do`. -/
def resolveDo (args : List Expr) (env : Nat) : Lowering (List Resolved) :=
  match args with
  | [] => return []
  | [last] => do
    let r ← resolve last env
    let s ← get
    return if s.frames.isFunction env then s.closingResolved last r else [r]
  | arg :: rest => do
    let first ← resolve arg env
    return first :: (← resolveDo rest env)

/-- Resolves the arguments of a `define`. -/
def resolveDefine (place : Place) (args : List Expr) (env : Nat) : Lowering Resolved :=
  match args with
  | [target, value] =>
    match target.word? with
    | none => refuse .malformedDefine place
    | some name => do
      if value.isCallOf SpecialForm.fun.name then
        registerName name
        let value ← resolve value env
        return .declare name value
      else if (← get).frames.owns env name then
        let value ← resolve value env
        return .assign name env value
      else
        let value ← resolve value env
        bindName env name value.binding
        return .declare name value
  | _ => refuse .malformedDefine place

/-- Resolves the arguments of a `set`. -/
def resolveSet (place : Place) (args : List Expr) (env : Nat) : Lowering Resolved :=
  match args with
  | [] => refuse .malformedSet place
  | [target] =>
    refuse (if target.word?.isSome then .setWithoutValue else .malformedSet) place
  | target :: value :: rest =>
    if !rest.isEmpty && target.word?.isNone then refuse .malformedSet place
    else do
      let value ← resolve value env
      match target.word? with
      | none => refuse .targetNotName target.place
      | some name =>
        match (← get).targetOf? env name with
        | none => refuse (.unresolvedTarget name) place
        | some target =>
          let _ ← rebind env name value.binding
          return .assign name target value

/-- Resolves the arguments of a `fun`. -/
def resolveFun (place : Place) (params : List Bytes) (args : List Expr) (env : Nat) :
    Lowering Resolved :=
  match args with
  | [] => refuse .functionWithoutBody place
  | [body] => do
    let inner ← openFunction params env
    let body ← resolve body inner
    return .function inner params body
  | param :: rest =>
    match param.word? with
    | none => refuse .parameterNotWord param.place
    | some name => resolveFun place (params ++ [name]) rest env

end

/-- A lowering that does what another one does and gives what is read off its result. -/
def ReadOff {α β : Type} (read : β → α) (m : Lowering α) (m' : Lowering β) : Prop :=
  m = read <$> m'

namespace ReadOff

variable {α β γ δ : Type} {read : β → α} {read' : δ → γ}

protected theorem pure {a : α} {b : β} (same : a = read b) :
    ReadOff read (pure a) (pure b) := by
  rw [ReadOff, map_pure, same]

theorem refuse (fault : Fault) (place : Place) :
    ReadOff read (refuse fault place) (refuse fault place) := rfl

protected theorem bind {m : Lowering α} {m' : Lowering β} {f : α → Lowering γ}
    {f' : β → Lowering δ} (first : ReadOff read m m')
    (next : ∀ b, ReadOff read' (f (read b)) (f' b)) : ReadOff read' (m >>= f) (m' >>= f') := by
  rw [ReadOff, first, map_bind, bind_map_left]
  congr 1
  funext b
  exact next b

theorem same_bind {m : Lowering β} {f : β → Lowering γ} {f' : β → Lowering δ}
    (next : ∀ b, ReadOff read' (f b) (f' b)) : ReadOff read' (m >>= f) (m >>= f') := by
  rw [ReadOff, map_bind]
  congr 1
  funext b
  exact next b

theorem evaluateWord (place : Place) (name : Bytes) (env : Nat) :
    ReadOff Resolved.binding (evaluateWord place name env) (resolveWord place name env) := by
  unfold Compiler.evaluateWord resolveWord
  refine same_bind fun s => ?_
  rw [Frames.get?_eq_owner]
  cases found : s.frames.owner? env name with
  | none =>
    by_cases registered : s.functions.has name = true
    · simp only [Option.bind_none, if_pos registered]
      exact .pure rfl
    · simp only [Option.bind_none, if_neg registered]
      exact .refuse _ _
  | some owner =>
    have owned := Frames.owns_of_owner? found
    obtain ⟨value, own⟩ := Option.isSome_iff_exists.1 owned
    simp only [Option.bind_some, own]
    cases value with
    | code c => exact .pure rfl
    | primitive p => exact .pure rfl

end ReadOff

/-- The lowering of an expression is read off its resolution. -/
def Erases (e : Expr) : Prop :=
  ∀ env, ReadOff Resolved.binding (evaluate e env) (resolve e env)

section Forms

variable {args : List Expr} {env : Nat}

theorem ReadOff.lowerAll (erase : ∀ arg ∈ args, Erases arg) :
    ReadOff Resolved.codeAll (lowerAll args env) (resolveAll args env) := by
  induction args with
  | nil =>
    rw [Compiler.lowerAll, resolveAll]
    exact .pure rfl
  | cons e rest ih =>
    obtain ⟨first, others⟩ := List.forall_mem_cons.1 erase
    rw [Compiler.lowerAll, resolveAll]
    refine (first env).bind fun r => (ih others).bind fun rs => .pure ?_
    rw [Resolved.toCode_binding, Resolved.codeAll]

theorem ReadOff.lowerIf (place : Place) (erase : ∀ arg ∈ args, Erases arg) :
    ReadOff Resolved.binding (lowerIf place args env) (resolveIf place args env) := by
  unfold Compiler.lowerIf resolveIf
  rcases args with _ | ⟨cond, _ | ⟨yes, _ | ⟨no, _ | ⟨more, rest⟩⟩⟩⟩
  case cons.cons.cons.nil =>
    have run (arg : Expr) (h : arg ∈ [cond, yes, no]) := erase arg h env
    refine (run yes (by simp)).bind fun yes' => (run no (by simp)).bind fun no' => ?_
    refine (run cond (by simp)).bind fun cond' => .pure ?_
    rw [Resolved.toCode_binding, Resolved.toCode_binding, Resolved.toCode_binding]
    rfl
  all_goals exact .refuse _ _

theorem ReadOff.lowerWhile (place : Place) (erase : ∀ arg ∈ args, Erases arg) :
    ReadOff Resolved.binding (lowerWhile place args env) (resolveWhile place args env) := by
  unfold Compiler.lowerWhile resolveWhile
  rcases args with _ | ⟨cond, _ | ⟨body, _ | ⟨more, rest⟩⟩⟩
  case cons.cons.nil =>
    have run (arg : Expr) (h : arg ∈ [cond, body]) := erase arg h env
    refine (run cond (by simp)).bind fun cond' => (run body (by simp)).bind fun body' => .pure ?_
    rw [Resolved.toCode_binding, Resolved.toCode_binding]
    rfl
  all_goals exact .refuse _ _

theorem ReadOff.lowerDo (erase : ∀ arg ∈ args, Erases arg) :
    ReadOff Resolved.codeAll (lowerDo args env) (resolveDo args env) := by
  induction args with
  | nil =>
    rw [Compiler.lowerDo, resolveDo]
    exact .pure rfl
  | cons arg rest ih =>
    obtain ⟨first, others⟩ := List.forall_mem_cons.1 erase
    cases rest with
    | nil =>
      rw [Compiler.lowerDo, resolveDo]
      refine (first env).bind fun r => .same_bind fun s => .pure ?_
      rw [Resolved.toCode_binding, State.closing_eq]
      split <;> rfl
    | cons next later =>
      rw [Compiler.lowerDo, resolveDo]
      · refine (first env).bind fun r => (ih others).bind fun rs => .pure ?_
        rw [Resolved.toCode_binding, Resolved.codeAll]
      · simp
      · simp

theorem ReadOff.lowerDefine (place : Place) (erase : ∀ arg ∈ args, Erases arg) :
    ReadOff Resolved.binding (lowerDefine place args env) (resolveDefine place args env) := by
  unfold Compiler.lowerDefine resolveDefine
  rcases args with _ | ⟨target, _ | ⟨value, _ | ⟨more, rest⟩⟩⟩
  case cons.cons.nil =>
    have run := erase value (by simp) env
    dsimp only
    cases target.word? with
    | none => exact .refuse _ _
    | some name =>
      dsimp only
      by_cases isFunction : value.isCallOf SpecialForm.fun.name = true
      · rw [if_pos isFunction, if_pos isFunction]
        refine .same_bind fun _ => run.bind fun r => .pure ?_
        rw [Resolved.toCode_binding]
        rfl
      · rw [if_neg isFunction, if_neg isFunction]
        refine .same_bind fun s => ?_
        by_cases owned : s.frames.owns env name = true
        · rw [if_pos owned, if_pos owned]
          refine run.bind fun r => .pure ?_
          rw [Resolved.toCode_binding]
          rfl
        · rw [if_neg owned, if_neg owned]
          refine run.bind fun r => .same_bind fun _ => .pure ?_
          rw [Resolved.toCode_binding]
          rfl
  all_goals exact .refuse _ _

/-- A `set` that finds a frame to rebind the name in. -/
theorem rebind_bind (env : Nat) (name : Bytes) (value : Binding) (f : Bool → Lowering Binding) :
    (rebind env name value >>= f) = get >>= fun s => match s.targetOf? env name with
      | none => f false
      | some _ => rebind env name value >>= fun _ => f true := by
  funext s
  change (rebind env name value >>= f) s = (match s.targetOf? env name with
    | none => f false
    | some _ => rebind env name value >>= fun _ => f true) s
  cases found : s.targetOf? env name with
  | none => simp only [bind, EStateM.bind, rebind_apply, found]
  | some target => simp only [bind, EStateM.bind, rebind_apply, found]

theorem ReadOff.lowerSet (place : Place) (erase : ∀ arg ∈ args, Erases arg) :
    ReadOff Resolved.binding (lowerSet place args env) (resolveSet place args env) := by
  unfold Compiler.lowerSet resolveSet
  rcases args with _ | ⟨target, _ | ⟨value, rest⟩⟩
  case cons.cons =>
    have run := erase value (by simp) env
    dsimp only
    split
    next => exact .refuse _ _
    next =>
      refine run.bind fun r => ?_
      cases target.word? with
      | none => exact .refuse _ _
      | some name =>
        dsimp only
        rw [rebind_bind]
        refine .same_bind fun s => ?_
        cases s.targetOf? env name with
        | none => exact .refuse _ _
        | some target =>
          refine .same_bind fun _ => .pure ?_
          rw [Resolved.toCode_binding]
          rfl
  all_goals exact .refuse _ _

theorem ReadOff.lowerFun (place : Place) (params : List Bytes)
    (erase : ∀ arg ∈ args, Erases arg) :
    ReadOff Resolved.binding (lowerFun place params args env)
      (resolveFun place params args env) := by
  induction args generalizing params with
  | nil =>
    rw [Compiler.lowerFun, resolveFun]
    exact .refuse _ _
  | cons arg rest ih =>
    obtain ⟨first, others⟩ := List.forall_mem_cons.1 erase
    cases rest with
    | nil =>
      rw [Compiler.lowerFun, resolveFun]
      refine .same_bind fun inner => (first inner).bind fun r => .pure ?_
      rw [Resolved.toCode_binding]
      rfl
    | cons next later =>
      rw [Compiler.lowerFun, resolveFun]
      · cases arg.word? with
        | none => exact .refuse _ _
        | some name => exact ih (params ++ [name]) others
      · simp
      · simp

end Forms

/-- The lowering of every expression is read off its resolution. -/
theorem Erases.of (e : Expr) : Erases e := by
  intro env
  have smaller (args : List Expr) (less : sizeOf args < sizeOf e) : ∀ arg ∈ args, Erases arg :=
    fun arg mem =>
      have := List.sizeOf_lt_of_mem mem
      Erases.of arg
  cases e with
  | number | string =>
    rw [evaluate, resolve]
    exact .pure rfl
  | word place name =>
    rw [evaluate, resolve]
    exact .evaluateWord place name env
  | apply place name args =>
    have erase := smaller args (by rw [Expr.apply.sizeOf_spec]; omega)
    rw [evaluate, resolve]
    cases form : SpecialForm.ofName? name with
    | none =>
      refine .same_bind fun s => ?_
      by_cases registered : s.functions.has name = true
      · rw [if_pos registered, if_pos registered]
        exact (ReadOff.lowerAll erase).bind fun rs => .pure rfl
      · rw [if_neg registered, if_neg registered]
        refine (ReadOff.evaluateWord place name env).bind fun r => ?_
        cases r with
        | primitive p => exact (ReadOff.lowerAll erase).bind fun rs => .pure rfl
        | _ => exact .refuse _ _
    | some kind =>
      cases kind with
      | «if» => exact .lowerIf place erase
      | «while» => exact .lowerWhile place erase
      | «do» => exact (ReadOff.lowerDo erase).bind fun rs => .pure rfl
      | define => exact .lowerDefine place erase
      | set => exact .lowerSet place erase
      | «fun» => exact .lowerFun place [] erase
  | closure operator args =>
    have erase := smaller args (by rw [Expr.closure.sizeOf_spec]; omega)
    rw [evaluate, resolve]
    refine (Erases.of operator env).bind fun r => (ReadOff.lowerAll erase).bind fun rs => .pure ?_
    rw [Resolved.toCode_binding]
    rfl
termination_by sizeOf e

end Compiler

end EggLang
