import EggLang.Code.Printer
import EggLang.Expr.Outline
import EggLang.Expr.Parser
import EggLang.Scope.Frames
import EggLang.Scope.Registry
import EggLang.Compiler.Primitive

/-!
# Compiling programs to code

A compiler holds what outlives a program: the registry of function names, the bindings of the
root frame and the number of times a root binding was replaced. A program is lowered to code in
a fresh frame below the root. What a failed lowering did to the registry and to the root stays.
-/

namespace EggLang

/-- What a name is bound to, and what lowering an expression gives. -/
inductive Binding where
  | code (c : Code)
  | primitive (p : Primitive)
  deriving Repr

namespace Binding

/-- A binding as code; a primitive used as a value is referred to by its name. -/
def toCode : Binding → Code
  | code c => c
  | primitive p => .ident p.name

def isPrimitive : Binding → Bool
  | primitive _ => true
  | code _ => false

end Binding

/-- The operators whose arguments are not evaluated before they are applied. -/
inductive SpecialForm where
  | if
  | while
  | do
  | define
  | set
  | fun
  deriving DecidableEq, Repr

namespace SpecialForm

def name : SpecialForm → Bytes
  | .if => utf8 "if"
  | .while => utf8 "while"
  | .do => utf8 "do"
  | define => utf8 "define"
  | set => utf8 "set"
  | .fun => utf8 "fun"

def all : List SpecialForm := [.if, .while, .do, define, set, .fun]

def ofName? (name : Bytes) : Option SpecialForm := all.find? fun f => f.name = name

end SpecialForm

/-- What a compiler keeps from one program to the next. -/
structure Compiler where
  /-- The indentation unit of generated code. -/
  indent : Bytes := utf8 "  "
  functions : Registry := .empty
  root : Bindings Binding
  /-- How often a `set` has rebound a name of the root frame. -/
  rootChanges : Nat := 0
  deriving Repr

namespace Compiler

/-- The bindings of a new root frame: the two truth values and the given primitives. -/
def rootBindings (library : List Primitive) : Bindings Binding :=
  let truth (b : Bindings Binding) (name : Bytes) := b.set name (.code (.ident name))
  let base := truth (truth .empty (utf8 "true")) (utf8 "false")
  library.foldl (fun b p => b.set p.name (.primitive p)) base

/-- A compiler that has seen no program. -/
def new (indent : Bytes) (library : List Primitive := Primitive.all) : Compiler :=
  { indent, root := rootBindings library }

/-- What a running lowering changes. -/
structure State where
  functions : Registry
  frames : Frames Binding
  rootChanges : Nat

/-- A step of a lowering; what it did to the state stays when it fails. -/
abbrev Lowering := EStateM Diagnostic State

def refuse {α : Type} (fault : Fault) (place : Place) : Lowering α :=
  throw (.ofFault fault place)

/-- Whether a function body returns the value of a call of this name: the name is registered, or
the root frame binds it to a primitive other than `print`. -/
def State.returnsValue (s : State) (name : Bytes) : Bool :=
  s.functions.has name
    || ((match s.frames.own? 0 name with
        | some b => b.isPrimitive
        | none => false) && name != Primitive.print.name)

/-- The last argument of a `do` in a function body, given its code: a word or a call that returns
a value is returned, a nested `do` is followed by `return false`, and all else is left alone. -/
def State.closing (s : State) (arg : Expr) (code : Code) : List Code :=
  let returned := arg.word?.isSome || (arg.operator?.map s.returnsValue).getD false
  if returned then [code.returning]
  else if arg.isCallOf SpecialForm.do.name then [code, .return .false]
  else [code]

def bindName (env : Nat) (name : Bytes) (value : Binding) : Lowering Unit :=
  modify fun s => { s with frames := s.frames.set env name value }

def registerName (name : Bytes) : Lowering Unit :=
  modify fun s => { s with functions := s.functions.add name }

/-- Rebinds a name in the first of the frames `env` and its outer one that owns it, and tells
whether one does. -/
def rebind (env : Nat) (name : Bytes) (value : Binding) : Lowering Bool := do
  let s ← get
  let candidates := env :: (s.frames.outer? env).toList
  match candidates.find? fun f => s.frames.owns f name with
  | none => return false
  | some target =>
    bindName target name value
    if target = 0 then modify fun s => { s with rootChanges := s.rootChanges + 1 }
    return true

/-- What a word stands for: the primitive it is bound to, or else the name itself. -/
def evaluateWord (place : Place) (name : Bytes) (env : Nat) : Lowering Binding := do
  let s ← get
  match s.frames.get? env name with
  | some (.primitive p) => return .primitive p
  | some (.code _) => return .code (.ident name)
  | none =>
    if s.functions.has name then return .code (.ident name)
    else refuse (.undefinedBinding name) place

/-- Opens the frame of a function body with its parameters bound to themselves. -/
def openFunction (params : List Bytes) (env : Nat) : Lowering Nat := do
  let s ← get
  let (inner, frames) := s.frames.function env
  set { s with frames }
  params.forM fun p => bindName inner p (.code (.ident p))
  return inner

mutual

def evaluate (e : Expr) (env : Nat) : Lowering Binding :=
  match e with
  | .number _ digits => return .code (.number (Expr.numberValue digits))
  | .string _ content => return .code (.raw content)
  | .word place name => evaluateWord place name env
  | .apply place name args =>
    match SpecialForm.ofName? name with
    | some .if => lowerIf place args env
    | some .while => lowerWhile place args env
    | some .do => return .code (.block (← lowerDo args env))
    | some .define => lowerDefine place args env
    | some .set => lowerSet place args env
    | some .fun => lowerFun place [] args env
    | none => do
      if (← get).functions.has name then
        return .code (.call (.ident name) (← lowerAll args env))
      else
        match ← evaluateWord place name env with
        | .code _ => refuse (.notApplicable name) place
        | .primitive p => return .code (p.expand (← lowerAll args env))
  | .closure operator args => do
    let callee ← evaluate operator env
    return .code (.call callee.toCode (← lowerAll args env))

/-- Lowers a list of expressions from left to right. -/
def lowerAll (es : List Expr) (env : Nat) : Lowering (List Code) :=
  match es with
  | [] => return []
  | e :: rest => do
    let first ← evaluate e env
    return first.toCode :: (← lowerAll rest env)

/-- Lowers `if(cond, then, else)`; the branches come before the condition. -/
def lowerIf (place : Place) (args : List Expr) (env : Nat) : Lowering Binding :=
  match args with
  | [cond, yes, no] => do
    let yes ← evaluate yes env
    let no ← evaluate no env
    let cond ← evaluate cond env
    return .code (.if cond.toCode yes.toCode.returning no.toCode.returning)
  | _ => refuse (.ifArity args.length) place

/-- Lowers `while(cond, body)`. -/
def lowerWhile (place : Place) (args : List Expr) (env : Nat) : Lowering Binding :=
  match args with
  | [cond, body] => do
    let cond ← evaluate cond env
    let body ← evaluate body env
    return .code (.while cond.toCode body.toCode)
  | _ => refuse (.whileArity args.length) place

/-- Lowers the arguments of a `do` from left to right. -/
def lowerDo (args : List Expr) (env : Nat) : Lowering (List Code) :=
  match args with
  | [] => return []
  | [last] => do
    let code := (← evaluate last env).toCode
    let s ← get
    return if s.frames.isFunction env then s.closing last code else [code]
  | arg :: rest => do
    let first ← evaluate arg env
    return first.toCode :: (← lowerDo rest env)

/-- Lowers `define(name, value)`. A function is registered before its body is lowered, so
that it can call itself, and its name is not bound; a name that the frame owns is assigned to and
keeps its binding. -/
def lowerDefine (place : Place) (args : List Expr) (env : Nat) : Lowering Binding :=
  match args with
  | [target, value] =>
    match target.word? with
    | none => refuse .malformedDefine place
    | some name => do
      if value.isCallOf SpecialForm.fun.name then
        registerName name
        let value ← evaluate value env
        return .code (.var name value.toCode)
      else if (← get).frames.owns env name then
        let value ← evaluate value env
        return .code (.assign name value.toCode)
      else
        let value ← evaluate value env
        bindName env name value
        return .code (.var name value.toCode)
  | _ => refuse .malformedDefine place

/-- Lowers `set(name, value)`. The name has to be owned by the current frame or by the one
around it; arguments after the second are ignored when the first is a word. -/
def lowerSet (place : Place) (args : List Expr) (env : Nat) : Lowering Binding :=
  match args with
  | [] => refuse .malformedSet place
  | [target] =>
    refuse (if target.word?.isSome then .setWithoutValue else .malformedSet) place
  | target :: value :: rest =>
    if !rest.isEmpty && target.word?.isNone then refuse .malformedSet place
    else do
      let value ← evaluate value env
      match target.word? with
      | none => refuse .targetNotName target.place
      | some name =>
        if ← rebind env name value then return .code (.assign name value.toCode)
        else refuse (.unresolvedTarget name) place

/-- Lowers `fun(param, …, body)`, the parameters before `args` being already read. -/
def lowerFun (place : Place) (params : List Bytes) (args : List Expr) (env : Nat) :
    Lowering Binding :=
  match args with
  | [] => refuse .functionWithoutBody place
  | [body] => do
    let inner ← openFunction params env
    let body ← evaluate body inner
    return .code (.function params body.toCode.returning)
  | param :: rest =>
    match param.word? with
    | none => refuse .parameterNotWord param.place
    | some name => lowerFun place (params ++ [name]) rest env

end

/-- Lowers a program in a fresh frame below the root. -/
def lower (t : Compiler) (e : Expr) : Except Diagnostic Code × Compiler :=
  let (env, frames) := (Frames.ofRoot t.root).enclosed 0
  let kept (s : State) : Compiler :=
    { t with functions := s.functions, root := s.frames.root, rootChanges := s.rootChanges }
  match evaluate e env ⟨t.functions, frames, t.rootChanges⟩ with
  | .ok value s => (.ok value.toCode, kept s)
  | .error d s => (.error d, kept s)

/-- The text of code, with the compiler's indentation. -/
def print (t : Compiler) (c : Code) : Bytes := c.print t.indent

/-- Compiles a source text to the text of its code. -/
def compile (t : Compiler) (source : Bytes) : Except Diagnostic Bytes × Compiler :=
  match parse source with
  | .error d => (.error d, t)
  | .ok e =>
    match t.lower e with
    | (.error d, t') => (.error d, t')
    | (.ok c, t') => (.ok (t'.print c), t')

end Compiler

end EggLang
