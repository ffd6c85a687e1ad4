import EggLang.Proofs.Compiler.Traversal
import EggLang.Proofs.Expr.RoundTrip

/-!
# Places go into diagnostics only

A lowering reads the words, numbers and strings of its expression and the shape of it, and hands
places on to diagnostics. So the lowering of an expression without its places is the lowering of
the expression, but for the place in the diagnostic of a failure, and a program and its canonical
source are compiled alike.
-/

namespace EggLang

/-- A diagnostic with its place replaced by the unknown one. -/
def Diagnostic.forgetPlace (d : Diagnostic) : Diagnostic := { d with line := 0, column := 0 }

namespace Expr

theorem word?_forgetPlaces (e : Expr) : e.forgetPlaces.word? = e.word? := by
  cases e <;> rfl

theorem operator?_forgetPlaces (e : Expr) : e.forgetPlaces.operator? = e.operator? := by
  cases e <;> rfl

theorem isCallOf_forgetPlaces (e : Expr) (name : Bytes) :
    e.forgetPlaces.isCallOf name = e.isCallOf name := by
  rw [isCallOf, isCallOf, operator?_forgetPlaces]

theorem length_forgetAllPlaces (args : List Expr) :
    (forgetAllPlaces args).length = args.length := by
  induction args with
  | nil => rfl
  | cons arg rest ih => rw [forgetAllPlaces, List.length_cons, List.length_cons, ih]

theorem place_forgetPlaces (e : Expr) : e.forgetPlaces.place = ⟨0, 0, 0⟩ := by
  match e with
  | number _ _ => rfl
  | string _ _ => rfl
  | word _ _ => rfl
  | apply _ _ _ => rfl
  | closure operator _ => exact operator.place_forgetPlaces

end Expr

namespace Compiler

open EggLang.Expr

variable {α β : Type}

/-! ## Forgetting the place of a failure -/

/-- A lowering that does not tell where it failed. -/
def forgetPlace (m : Lowering α) : Lowering α := fun s =>
  match m s with
  | .ok a t => .ok a t
  | .error d t => .error d.forgetPlace t

theorem forgetPlace_bind (m : Lowering α) (f : α → Lowering β) :
    forgetPlace (m >>= f) = forgetPlace m >>= fun a => forgetPlace (f a) := by
  funext s
  simp only [forgetPlace, bind, EStateM.bind]
  cases m s <;> rfl

theorem forgetPlace_pure (a : α) : forgetPlace (pure a : Lowering α) = pure a := rfl

theorem forgetPlace_get : forgetPlace (get : Lowering State) = get := rfl

theorem forgetPlace_refuse (fault : Fault) (place : Place) :
    forgetPlace (refuse fault place : Lowering α) = refuse fault ⟨0, 0, 0⟩ := rfl

theorem forgetPlace_registerName (name : Bytes) :
    forgetPlace (registerName name) = registerName name := rfl

theorem forgetPlace_bindName (env : Nat) (name : Bytes) (value : Binding) :
    forgetPlace (bindName env name value) = bindName env name value := rfl

theorem forgetPlace_rebind (env : Nat) (name : Bytes) (value : Binding) :
    forgetPlace (rebind env name value) = rebind env name value := by
  unfold rebind
  rw [forgetPlace_bind, forgetPlace_get]
  refine congrArg _ (funext fun s => ?_)
  dsimp only
  split
  · rfl
  · rw [forgetPlace_bind, forgetPlace_bindName]
    refine congrArg _ (funext fun _ => ?_)
    split <;> rfl

theorem forgetPlace_forM_bindName (inner : Nat) (params : List Bytes) :
    forgetPlace (params.forM fun p => bindName inner p (.code (.ident p))) =
      params.forM fun p => bindName inner p (.code (.ident p)) := by
  induction params with
  | nil => rfl
  | cons p params ih =>
    show forgetPlace (bindName inner p _ >>= fun _ => params.forM _) =
      bindName inner p _ >>= fun _ => params.forM _
    rw [forgetPlace_bind, forgetPlace_bindName, ih]

theorem forgetPlace_openFunction (params : List Bytes) (env : Nat) :
    forgetPlace (openFunction params env) = openFunction params env := by
  unfold openFunction
  rw [forgetPlace_bind, forgetPlace_get]
  refine congrArg _ (funext fun s => ?_)
  rw [forgetPlace_bind]
  refine congrArg _ (funext fun _ => ?_)
  rw [forgetPlace_bind, forgetPlace_forM_bindName]
  rfl

theorem forgetPlace_evaluateWord (place : Place) (name : Bytes) (env : Nat) :
    forgetPlace (evaluateWord place name env) = evaluateWord ⟨0, 0, 0⟩ name env := by
  unfold evaluateWord
  rw [forgetPlace_bind, forgetPlace_get]
  refine congrArg _ (funext fun s => ?_)
  split
  · rfl
  · rfl
  · split <;> rfl

/-! ## The forms -/

/-- Without its places the expression is lowered in the same way, but for the place of a
failure. -/
def Unplaced (e : Expr) : Prop :=
  ∀ env, evaluate e.forgetPlaces env = forgetPlace (evaluate e env)

variable {args : List Expr} {place : Place} {env : Nat}

theorem lowerAll_forgetPlaces (each : ∀ arg ∈ args, Unplaced arg) :
    lowerAll (forgetAllPlaces args) env = forgetPlace (lowerAll args env) := by
  induction args with
  | nil => rfl
  | cons arg rest ih =>
    obtain ⟨first, others⟩ := List.forall_mem_cons.1 each
    simp only [forgetAllPlaces, lowerAll, forgetPlace_bind, forgetPlace_pure, first env, ih others]

theorem lowerIf_forgetPlaces (each : ∀ arg ∈ args, Unplaced arg) :
    lowerIf ⟨0, 0, 0⟩ (forgetAllPlaces args) env = forgetPlace (lowerIf place args env) := by
  have length := length_forgetAllPlaces args
  match args with
  | [] => rfl
  | [_] => rfl
  | [_, _] => rfl
  | [cond, yes, no] =>
    simp only [forgetAllPlaces, lowerIf, forgetPlace_bind, forgetPlace_pure,
      each cond (by simp) env, each yes (by simp) env, each no (by simp) env]
  | _ :: _ :: _ :: _ :: _ =>
    simp only [forgetAllPlaces, lowerIf, forgetPlace_refuse] at length ⊢
    rw [length]

theorem lowerWhile_forgetPlaces (each : ∀ arg ∈ args, Unplaced arg) :
    lowerWhile ⟨0, 0, 0⟩ (forgetAllPlaces args) env = forgetPlace (lowerWhile place args env) := by
  have length := length_forgetAllPlaces args
  match args with
  | [] => rfl
  | [_] => rfl
  | [cond, body] =>
    simp only [forgetAllPlaces, lowerWhile, forgetPlace_bind, forgetPlace_pure,
      each cond (by simp) env, each body (by simp) env]
  | _ :: _ :: _ :: _ =>
    simp only [forgetAllPlaces, lowerWhile, forgetPlace_refuse] at length ⊢
    rw [length]

theorem closing_forgetPlaces (s : State) (arg : Expr) (code : Code) :
    s.closing arg.forgetPlaces code = s.closing arg code := by
  simp only [State.closing, word?_forgetPlaces, operator?_forgetPlaces, isCallOf_forgetPlaces]

theorem lowerDo_forgetPlaces (each : ∀ arg ∈ args, Unplaced arg) :
    lowerDo (forgetAllPlaces args) env = forgetPlace (lowerDo args env) := by
  induction args with
  | nil => rfl
  | cons arg rest ih =>
    obtain ⟨first, others⟩ := List.forall_mem_cons.1 each
    cases rest with
    | nil =>
      simp only [forgetAllPlaces, lowerDo, forgetPlace_bind, forgetPlace_get, forgetPlace_pure,
        first env, closing_forgetPlaces]
    | cons next later =>
      rw [forgetAllPlaces, lowerDo_cons _ (by simp [forgetAllPlaces]), lowerDo_cons _ (by simp),
        ih others]
      simp only [forgetPlace_bind, forgetPlace_pure, first env]

theorem lowerDefine_forgetPlaces (each : ∀ arg ∈ args, Unplaced arg) :
    lowerDefine ⟨0, 0, 0⟩ (forgetAllPlaces args) env =
      forgetPlace (lowerDefine place args env) := by
  match args with
  | [] => rfl
  | [_] => rfl
  | _ :: _ :: _ :: _ => rfl
  | [target, value] =>
    have run := each value (by simp) env
    simp only [forgetAllPlaces, lowerDefine, word?_forgetPlaces, isCallOf_forgetPlaces]
    split
    · rfl
    · split
      · simp only [forgetPlace_bind, forgetPlace_registerName, forgetPlace_pure, run]
      · rw [forgetPlace_bind, forgetPlace_get]
        refine congrArg _ (funext fun s => ?_)
        split <;> simp only [forgetPlace_bind, forgetPlace_bindName, forgetPlace_pure, run]

theorem lowerSet_forgetPlaces (each : ∀ arg ∈ args, Unplaced arg) :
    lowerSet ⟨0, 0, 0⟩ (forgetAllPlaces args) env = forgetPlace (lowerSet place args env) := by
  match args with
  | [] => rfl
  | [target] => simp only [forgetAllPlaces, lowerSet, word?_forgetPlaces, forgetPlace_refuse]
  | target :: value :: rest =>
    have run := each value (by simp) env
    have empty : (forgetAllPlaces rest).isEmpty = rest.isEmpty := by
      cases rest <;> rfl
    simp only [forgetAllPlaces, lowerSet, word?_forgetPlaces, place_forgetPlaces, empty]
    split
    · rfl
    · rw [forgetPlace_bind, run]
      refine congrArg _ (funext fun value => ?_)
      split
      · rfl
      · rw [forgetPlace_bind, forgetPlace_rebind]
        refine congrArg _ (funext fun found => ?_)
        split <;> rfl

theorem lowerFun_forgetPlaces (params : List Bytes) (each : ∀ arg ∈ args, Unplaced arg) :
    lowerFun ⟨0, 0, 0⟩ params (forgetAllPlaces args) env =
      forgetPlace (lowerFun place params args env) := by
  induction args generalizing params with
  | nil => rfl
  | cons arg rest ih =>
    obtain ⟨first, others⟩ := List.forall_mem_cons.1 each
    cases rest with
    | nil =>
      simp only [forgetAllPlaces, lowerFun, forgetPlace_bind, forgetPlace_openFunction,
        forgetPlace_pure, first _]
    | cons next later =>
      have tail := fun params => ih params others
      simp only [forgetAllPlaces] at tail ⊢
      rw [lowerFun, lowerFun]
      · rw [word?_forgetPlaces, place_forgetPlaces]
        split
        · rfl
        · exact tail _
      · simp
      · simp

/-- The lowering of every expression uses places for diagnostics only. -/
theorem unplaced (e : Expr) : Unplaced e := by
  intro env
  have smaller (args : List Expr) (less : sizeOf args < sizeOf e) :
      ∀ arg ∈ args, Unplaced arg := fun arg mem =>
    have := List.sizeOf_lt_of_mem mem
    unplaced arg
  match e with
  | .number _ _ => rfl
  | .string _ _ => rfl
  | .word place name => exact (forgetPlace_evaluateWord place name env).symm
  | .apply place name args =>
    have each := smaller args (by rw [Expr.apply.sizeOf_spec]; omega)
    -- one case for each form, and a call of a function or of an operation at the end
    rw [forgetPlaces, evaluate, evaluate]
    split
    · exact lowerIf_forgetPlaces each
    · exact lowerWhile_forgetPlaces each
    · rw [lowerDo_forgetPlaces each, forgetPlace_bind]
      rfl
    · exact lowerDefine_forgetPlaces each
    · exact lowerSet_forgetPlaces each
    · exact lowerFun_forgetPlaces [] each
    · rw [forgetPlace_bind, forgetPlace_get]
      refine congrArg _ (funext fun s => ?_)
      split
      · rw [lowerAll_forgetPlaces each, forgetPlace_bind]
        rfl
      · rw [forgetPlace_bind, forgetPlace_evaluateWord]
        refine congrArg _ (funext fun value => ?_)
        split
        · rfl
        · rw [lowerAll_forgetPlaces each, forgetPlace_bind]
          rfl
  | .closure operator args =>
    have each := smaller args (by rw [Expr.closure.sizeOf_spec]; omega)
    have callee := unplaced operator env
    simp only [forgetPlaces, evaluate, forgetPlace_bind, forgetPlace_pure, callee,
      lowerAll_forgetPlaces each]
termination_by sizeOf e

/-- Two programs that are one up to places are compiled alike. -/
theorem compile_congr (t : Compiler) {source source' : Bytes} {e e' : Expr}
    (parses : parse source = .ok e) (parses' : parse source' = .ok e')
    (same : e'.forgetPlaces = e.forgetPlaces) :
    (t.compile source').1.mapError Diagnostic.forgetPlace =
        (t.compile source).1.mapError Diagnostic.forgetPlace ∧
      (t.compile source').2 = (t.compile source).2 := by
  have run : forgetPlace (evaluate e' 1) t.start = forgetPlace (evaluate e 1) t.start := by
    rw [← unplaced e' 1, ← unplaced e 1, same]
  -- a lowering ends where it ends, and answers what it answers, whether its place is kept or not
  have answered (e : Expr) (f : Binding → Bytes) :
      ((answer (evaluate e 1 t.start)).map f).mapError Diagnostic.forgetPlace =
        (answer (forgetPlace (evaluate e 1) t.start)).map f := by
    rw [forgetPlace]
    cases evaluate e 1 t.start <;> rfl
  have ended (e : Expr) :
      final (evaluate e 1 t.start) = final (forgetPlace (evaluate e 1) t.start) := by
    rw [forgetPlace]
    cases evaluate e 1 t.start <;> rfl
  rw [compile_eq t parses, compile_eq t parses']
  refine ⟨?_, ?_⟩
  · simp only [answered, run]
  · simp only [ended, run]

end Compiler

/-- The canonical text of a derivation is read as the tree of its tidy phrase. -/
theorem Grammar.Phrase.Derives.parse_tidy {p : Phrase} {cs : List Char}
    (h : p.Derives (Text.ofChars cs) []) (stays : ∀ c ∈ cs, Stripped.Stays c) :
    parse p.tidy.written = .ok (p.tidy.tree (Stripped.ofSource p.tidy.written).place 0) := by
  have nothing : Delimited [] := by simp [Delimited]
  have derives := h.tidy nothing nothing
  obtain ⟨ds, dropped, fewer⟩ := dropClosingCommas_ofChars false cs
  have written : p.tidy.written = Text.ofChars ds := by
    rw [← dropped, h.text_eq, h.dropClosingCommas]
    exact (List.append_nil _).symm
  have stripped : strip p.tidy.written = p.tidy.written := by
    rw [written]
    exact Stripped.strip_of_stays fun c mem => stays c (fewer c mem)
  rw [List.append_nil, ← stripped] at derives
  exact (parse_eq_ok_iff _ _).mpr ((Stripped.parse_eq_ok_iff _ _).mpr ⟨_, derives, rfl⟩)

/-- A program and its canonical source are compiled alike: to the same text, or with failures
that differ at most in their places, and with the same effect on the compiler. -/
theorem Compiler.compile_print (t : Compiler) (source : String) (tree : Expr)
    (h : parse (utf8 source) = .ok tree) :
    (t.compile tree.print).1.mapError Diagnostic.forgetPlace =
        (t.compile (utf8 source)).1.mapError Diagnostic.forgetPlace ∧
      (t.compile tree.print).2 = (t.compile (utf8 source)).2 := by
  obtain ⟨p, derives, rfl⟩ := (Stripped.parse_eq_ok_iff _ _).mp ((parse_eq_ok_iff _ _).mp h)
  obtain ⟨kept, stripped, stays⟩ := Stripped.strip_ofChars source.toList
  have derived : p.Derives (Text.ofChars kept) [] := by
    rw [← stripped]
    exact derives
  have again := derived.parse_tidy stays
  rw [← p.print_tree (Stripped.ofSource (utf8 source)).place 0] at again
  exact t.compile_congr h again (p.forgetPlaces_tidy _ _ 0 0)

set_option maxRecDepth 4000 in
/-- A program that registers `f`, rebinds `<` in the root and then fails at `g`, on its second
line, for a compiler that has seen a program that defined `h`. -/
theorem Compiler.compile_print_failing :
    let source := "do(define(f, fun(1)), set(<, 2),\n g ,)"
    let tree := Expr.apply ⟨0, 1, 1⟩ (utf8 "do")
      [.apply ⟨3, 1, 4⟩ (utf8 "define")
        [.word ⟨10, 1, 11⟩ (utf8 "f"),
          .apply ⟨13, 1, 14⟩ (utf8 "fun") [.number ⟨17, 1, 18⟩ (utf8 "1")]],
        .apply ⟨22, 1, 23⟩ (utf8 "set")
          [.word ⟨26, 1, 27⟩ (utf8 "<"), .number ⟨29, 1, 30⟩ (utf8 "2")],
        .word ⟨34, 2, 2⟩ (utf8 "g")]
    let t : Compiler := { Compiler.new (utf8 "  ") with functions := ⟨[utf8 "h"]⟩ }
    parse (utf8 source) = .ok tree ∧
      (t.compile tree.print).1.mapError Diagnostic.forgetPlace =
        (t.compile (utf8 source)).1.mapError Diagnostic.forgetPlace ∧
      (t.compile tree.print).2 = (t.compile (utf8 source)).2 := by
  intro source tree t
  have h : parse (utf8 source) = .ok tree := by
    dsimp only [source]
    with_unfolding_all rfl
  exact ⟨h, t.compile_print source tree h⟩

end EggLang
