import EggLang.Proofs.Script.Entry

/-!
# Calls of functions that check their arguments

A call of a function whose body begins with the check goes on to what stands behind the check if
the number of arguments is that of the parameters, and else throws a `TypeError`. This needs the
two names that the check uses: `arguments` must stand for the arguments of the call, and
`TypeError` for the constructor of such errors.
-/

namespace EggLang.Script

variable {s t : Store} {m n i scope ref ctor : Nat} {ctx : Context} {otherwise : Stmt}

/-! ## The check -/

theorem eval_countDiffers (small : n < Nat.pow 2 53)
    (count : (Action.eval ctx argumentCount).Yields t (.number (.ofNat m)) t) :
    (Action.eval ctx (countDiffers n)).Yields t (.bool !decide (m = n)) t := by
  intro k h
  simp only [countDiffers, Action.eval, Action.bind_run]
  refine (count _ _).trans ?_
  rw [← Numeric.eq_ofNat small]
  rfl

theorem exec_check_same (small : n < Nat.pow 2 53)
    (count : (Action.eval ctx argumentCount).Yields t (.number (.ofNat n)) t)
    (k : Completion → Store → Run) (h : Value → Store → Run) :
    Action.exec ctx [] (arityCheck n otherwise) k h t = Action.exec ctx [] otherwise k h t := by
  simp only [arityCheck, Action.exec, Action.bind_run]
  refine (eval_countDiffers small count _ _).trans ?_
  simp [Value.isTruthy]

theorem exec_check_differs (small : n < Nat.pow 2 53) (differs : m ≠ n)
    (count : (Action.eval ctx argumentCount).Yields t (.number (.ofNat m)) t)
    (k : Completion → Store → Run) (h : Value → Store → Run) :
    Action.exec ctx [] (arityCheck n otherwise) k h t = Action.eval ctx arityError h h t := by
  have throws : Action.exec ctx [] (.block [.throw arityError])
      = Action.execAll ctx [.throw arityError] none := by rw [Action.exec]; rfl
  rw [arityCheck, Action.exec, throws, Action.bind_run]
  refine (eval_countDiffers small count _ _).trans ?_
  rw [if_pos (by simpa [Value.isTruthy] using differs)]
  simp only [Action.execAll, Action.exec, Action.bind_run, Action.raise]

/-! ## The error -/

/-- The error of a call with the wrong number of arguments. -/
def arityErrorObject : Object where
  kind := .error
  proto := some Intrinsic.typeErrorPrototype.ref
  members := #[(messageKey, .hidden (.string arityMessage))]

/-- In a scope the name `TypeError` stands for the constructor of these errors. -/
structure Store.HasTypeErrors (s : Store) (scope ctor : Nat) : Prop where
  named : s.Finds scope "TypeError" (.object ctor)
  kind : (s.object ctor).kind = .native (.construct (.error .typeError))
  proto : s.Holds ctor prototypeKey (.object Intrinsic.typeErrorPrototype.ref)

theorem eval_arityError (has : t.HasTypeErrors i ctor) (k h : Value → Store → Run) :
    Action.eval (.within i) arityError k h t
      = .call ctor .undefined [.string arityMessage] (some ctor) k h t := by
  have can : Action.constructs t ctor = true := by
    have self : t.boundTarget ctor = ctor := by
      rw [Store.boundTarget]
      cases t.objects.size <;> simp [Store.targetOf, has.kind]
    simp [Action.constructs, self, has.kind]
  simp only [arityError, Action.eval, Action.evalArgs, Action.bind_run, Context.within]
  refine (has.named.lookup _ _).trans ?_
  simp only [Action.construct, Action.expectObject, Action.bind_run, Action.pure_run, Action.read,
    can, if_true]
  rfl

theorem construct_arityError (has : t.HasTypeErrors i ctor) (k h : Value → Store → Run) :
    (Run.call ctor .undefined [.string arityMessage] (some ctor) k h t).step
      = k (.object t.objects.size) (t.alloc arityErrorObject).2 := by
  have proto : (Library.prototypeFor (some ctor) .typeErrorPrototype).Yields t
      Intrinsic.typeErrorPrototype.ref t := by
    intro k h
    exact has.proto.get _ _
  simp only [Run.step, Action.callObject, Action.bind_run, Action.read, has.kind, Library.call,
    Library.constructor, Library.constructError]
  exact proto _ _

theorem Store.HasTypeErrors.extends (has : s.HasTypeErrors scope ctor)
    (more : Store.Extends n s t) (below : scope < n) : t.HasTypeErrors scope ctor :=
  ⟨has.named.extends (by decide) more below, by rw [more.object has.proto.lt_size, has.kind],
    has.proto.extends (by decide) more⟩

/-- The name stands for the same constructor in a call that does not declare it. -/
theorem Store.HasTypeErrors.entered {f : Function} (has : s.HasTypeErrors scope ctor)
    (free : "TypeError" ∉ f.declared) (entered : Entered s f scope m t) :
    t.HasTypeErrors s.scopes.size ctor := by
  obtain ⟨sc, at_inner, outer, undeclared⟩ := entered.inner
  have named := has.named.inner (by decide) entered.more at_inner outer (undeclared _ free)
    (by decide)
  exact ⟨named, by rw [entered.more.object has.proto.lt_size, has.kind],
    has.proto.extends (by decide) entered.more⟩

/-! ## Calls -/

theorem seenReceiver_yields (self : Value) (s : Store) :
    ∃ v t, (Action.seenReceiver self).Yields s v t ∧ Store.Extends s.scopes.size s t
      ∧ t.scopes = s.scopes := by
  cases self with
  | undefined | null | object =>
    exact ⟨_, s, Action.yields_pure _ s, .refl _ s, rfl⟩
  | bool | number | string | symbol =>
    exact ⟨_, _, fun _ _ => rfl, Store.extends_alloc _ s _, rfl⟩

theorem Entered.before {u : Store} {f : Function} (entered : Entered u f scope m t)
    (more : Store.Extends s.scopes.size s u) (same : u.scopes = s.scopes) :
    Entered s f scope m t := by
  have size : u.scopes.size = s.scopes.size := congrArg Array.size same
  exact ⟨more.trans (size ▸ entered.more), size ▸ entered.inner, size ▸ entered.count⟩

/-- What a call gives after its body. -/
def Completion.result : Completion → Value
  | .returned v => v
  | _ => .undefined

/-- A call goes on to execute statements in a scope of its own, in a store to which nothing has
happened except that objects and scopes have been made. -/
def Store.Proceeds (s : Store) (ref : Nat) (self : Value) (args : List Value) (body : List Stmt) :
    Prop :=
  ∃ t inner keepers, Store.Extends s.scopes.size s t ∧ ∀ k h,
    (Run.call ref self args none k h s).step
      = Action.execAll (.within inner) body none
          (fun c u => k c.result (u.closeScope inner keepers)) h t

/-- A call throws the error of a wrong number of arguments, and nothing else has happened. -/
def Store.Rejects (s : Store) (ref : Nat) (self : Value) (args : List Value) : Prop :=
  ∃ error t, Store.Extends s.scopes.size s t ∧ t.object error = arityErrorObject ∧ ∀ k h,
    (Run.call ref self args none k h s).step.step = h (.object error) t

/-- The names that the check of a function uses stand for what they should. -/
structure Store.Supports (s : Store) (f : Function) (scope ctor : Nat) : Prop where
  count : "arguments" ∉ f.info.parameters ++ f.blockNames
  error : "TypeError" ∉ f.declared
  errors : s.HasTypeErrors scope ctor
  iterator : "arguments" ∈ f.info.variables_ →
    ∃ v, s.Holds Intrinsic.arrayPrototype.ref WellKnown.iterator.key v

theorem callClosure_normal {f : Function} (normal : f.info.kind = .normal) (self : Value)
    (args : List Value) :
    Action.callClosure ref f scope self args none = (do
      let v ← Action.seenReceiver self
      let c ← Action.enter ref f scope v args none
      return c.result) := by
  simp only [Action.callClosure, normal, reduceCtorEq, if_false]
  congr
  funext v
  congr
  funext c
  cases c <;> rfl

theorem call_run {f : Function} (closure : (s.object ref).kind = .closure f scope)
    (normal : f.info.kind = .normal) (self : Value) (args : List Value)
    (k h : Value → Store → Run) :
    (Run.call ref self args none k h s).step
      = Action.seenReceiver self (fun v t => Action.enter ref f scope v args none
          (fun c u => k c.result u) h t) h s := by
  rw [Run.step, Action.callObject, Action.bind_run, Action.read, closure]
  change Action.callClosure ref f scope self args none k h s = _
  rw [callClosure_normal normal]
  rfl

/-- A called function gets to its body. -/
theorem call_reaches {f : Function} (closure : (s.object ref).kind = .closure f scope)
    (normal : f.info.kind = .normal) (simple : f.info.isSimple = true)
    (free : "arguments" ∉ f.info.parameters ++ f.blockNames)
    (iterator : "arguments" ∈ f.info.variables_ →
      ∃ v, s.Holds Intrinsic.arrayPrototype.ref WellKnown.iterator.key v)
    (self : Value) (args : List Value) :
    ∃ t keepers, Entered s f scope args.length t ∧ ∀ k h,
      (Run.call ref self args none k h s).step
        = Action.execAll (.within s.scopes.size) f.body none
            (fun c u => k c.result (u.closeScope s.scopes.size keepers)) h t := by
  -- A primitive receiver is made an object first, so the scope is opened in another store.
  obtain ⟨v, u, seen, more, same⟩ := seenReceiver_yields self s
  have held (declares : "arguments" ∈ f.info.variables_) :
      ∃ v, u.Holds Intrinsic.arrayPrototype.ref WellKnown.iterator.key v := by
    obtain ⟨v, held⟩ := iterator declares
    exact ⟨v, held.extends (by decide) more⟩
  obtain ⟨t, entered, run⟩ := enter_reaches normal simple free held ref scope v args
  refine ⟨t, u.keepers, entered.before more same, fun k h => ?_⟩
  rw [← same, call_run closure normal, seen]
  exact run _ h

/-- Each time a function literal without a name is evaluated, a function is made that can be
called. -/
theorem eval_function {f : Function} (nameless : f.info.name = none) (ctx : Context) (s : Store) :
    ∃ ref t, (Action.eval ctx (.function f)).Yields s (.object ref) t
      ∧ Store.Extends s.scopes.size s t ∧ (t.object ref).kind = .closure f ctx.scope := by
  obtain ⟨o, kind, made⟩ := closure_yields f ctx.scope [] s
  refine ⟨s.objects.size, (s.keepScope.alloc o).2, fun k h => ?_,
    (Store.extends_keepScope _ s).trans (Store.extends_alloc _ _ o), ?_⟩
  · simp only [Action.eval, Action.functionValue, nameless]
    exact made _ h
  · rw [← kind]
    simp [Store.object, Store.alloc, Store.keepScope]

/-- A call of a function that checks the number of its arguments goes on behind the check exactly
if that is the number of its parameters. -/
theorem call_checks {f : Function} {names : List String} {rest : List Stmt}
    (checks : f.Checks names otherwise rest) (few : names.length < Nat.pow 2 53)
    (closure : (s.object ref).kind = .closure f scope) (supports : s.Supports f scope ctor)
    (self : Value) (args : List Value) :
    if args.length = names.length then s.Proceeds ref self args (otherwise :: rest)
    else s.Rejects ref self args := by
  obtain ⟨t, keepers, entered, run⟩ :=
    call_reaches closure checks.kind checks.simple supports.count supports.iterator self args
  split_ifs with same
  · refine ⟨t, s.scopes.size, keepers, entered.more, fun k h => ?_⟩
    rw [run, checks.body, Action.execAll, Action.execAll, Action.bind_run, Action.bind_run,
      exec_check_same few (same ▸ entered.count)]
  · have has := supports.errors.entered supports.error entered
    refine ⟨t.objects.size, (t.alloc arityErrorObject).2,
      entered.more.trans (Store.extends_alloc _ t _), ?_, fun k h => ?_⟩
    · simp [Store.object, Store.alloc]
    · rw [run, checks.body, Action.execAll, Action.bind_run,
        exec_check_differs few same entered.count, eval_arityError has, construct_arityError has]

end EggLang.Script
