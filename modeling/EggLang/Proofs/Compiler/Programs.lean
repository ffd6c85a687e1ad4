import EggLang.Proofs.Compiler.Environment
import EggLang.Proofs.Compiler.Traversal

/-!
# Programs that compile to scripts

Every program in which variables and functions are defined before they are used compiles. The text
of its code is a script just if no statement begins with an array without elements where the line
before it can go on.
-/

namespace EggLang.Compiler

open Code (Role)

variable {functions vars : List Bytes} {env : Nat} {s t u : State}

/-! ## Expressions -/

/-- The code as it stands in its role. -/
def complete : Role → Code → Code
  | .value, c => c
  | .body, c => c.returning

/-- What the code of an expression is. -/
structure Lowered (role : Role) (e : Expr) (c : Code) : Prop where
  generated : Code.Generated role (complete role c)
  kind : role = .value → c.lineKind = e.lineShape

/-- Wherever the variables and functions are defined, an expression has the code. -/
def LowersTo (functions vars : List Bytes) (e : Expr) (c : Code) : Prop :=
  ∀ env s, Knows functions vars env s → ∃ t, evaluate e env s = .ok (.code c) t ∧ Extends s t

/-- An expression is lowered to code that can stand in its role. -/
def Lowers (functions : List Bytes) (role : Role) (vars : List Bytes) (e : Expr) : Prop :=
  ∃ c, Lowered role e c ∧ LowersTo functions vars e c

/-- Wherever the variables and functions are defined, expressions have the codes. -/
def LowerTo (functions vars : List Bytes) (es : List Expr) (cs : List Code) : Prop :=
  ∀ env s, Knows functions vars env s → ∃ t, lowerAll es env s = .ok cs t ∧ Extends s t

theorem LowerTo.cons {e : Expr} {es : List Expr} {c : Code} {cs : List Code}
    (first : LowersTo functions vars e c) (others : LowerTo functions vars es cs) :
    LowerTo functions vars (e :: es) (c :: cs) := by
  intro env s h
  obtain ⟨t, ok, extended⟩ := first env s h
  obtain ⟨u, all_ok, more⟩ := others env t (h.extends extended)
  refine ⟨u, ?_, extended.trans more⟩
  rw [lowerAll, bind_ok ok, bind_ok all_ok]
  rfl

theorem LowerTo.nil : LowerTo functions vars [] [] :=
  fun _ s _ => ⟨s, by rw [lowerAll]; rfl, .refl s⟩

theorem lowerAll_lowers {args : List Expr} (each : ∀ a ∈ args, Lowers functions .value vars a) :
    ∃ cs, List.Forall₂ (Lowered .value) args cs ∧ LowerTo functions vars args cs := by
  induction args with
  | nil => exact ⟨[], .nil, .nil⟩
  | cons a rest ih =>
    obtain ⟨c, lowered, lowers⟩ := each a List.mem_cons_self
    obtain ⟨cs, all_lowered, lower⟩ := ih fun b mem => each b (List.mem_cons_of_mem a mem)
    exact ⟨c :: cs, .cons lowered all_lowered, .cons lowers lower⟩

theorem evaluate_primitive (h : Knows functions vars env s) (place : Place) (p : Primitive)
    (args : List Expr) :
    evaluate (.apply place p.name args) env s
      = (lowerAll args env >>= fun cs => pure (.code (p.expand cs))) s := by
  have form : SpecialForm.ofName? p.name = none := by cases p <;> rfl
  have word : evaluateWord place p.name env s = .ok (.primitive p) s := by
    simp only [evaluateWord, get_bind_apply, h.primitive p]
    rfl
  have fresh := h.unregistered p
  rw [evaluate, form]
  simp only [get_bind_apply, fresh, bind_ok word, Bool.false_eq_true, if_false]

theorem LowerTo.primitive {args : List Expr} {cs : List Code}
    (lower : LowerTo functions vars args cs) (place : Place) (p : Primitive) :
    LowersTo functions vars (.apply place p.name args) (p.expand cs) := by
  intro env s h
  obtain ⟨t, ok, extended⟩ := lower env s h
  exact ⟨t, by rw [evaluate_primitive h, bind_ok ok]; rfl, extended⟩

theorem evaluate_call (h : Knows functions vars env s) (place : Place) {f : Bytes}
    (mem : f ∈ functions) (args : List Expr) :
    evaluate (.apply place f args) env s
      = (lowerAll args env >>= fun cs => pure (.code (.call (.ident f) cs))) s := by
  have form := (h.functionNames f mem).form
  have known := h.registered f mem
  rw [evaluate, form]
  simp only [get_bind_apply, known, if_true]

theorem evaluate_word {name : Bytes} {c : Code} (bound : s.frames.get? env name = some (.code c))
    (place : Place) : evaluate (.word place name) env s = .ok (.code (.ident name)) s := by
  simp only [evaluate, evaluateWord, get_bind_apply, bound]
  rfl

theorem evaluate_function (place param : Place) (q : Bytes) (body : Expr) :
    evaluate (.apply place SpecialForm.fun.name [.word param q, body]) env s
      = (evaluate body s.frames.size >>= fun value =>
          pure (.code (.function [q] value.toCode.returning))) (s.entered env q) := by
  have form : SpecialForm.ofName? SpecialForm.fun.name = some .fun := rfl
  rw [evaluate, form]
  simp only [lowerFun, Expr.word?, List.nil_append]
  rw [openFunction_bind_apply]
  rfl

theorem evaluate_if (place : Place) (cond yes no : Expr) :
    evaluate (.apply place SpecialForm.if.name [cond, yes, no]) env
      = (do
        let yes ← evaluate yes env
        let no ← evaluate no env
        let cond ← evaluate cond env
        return .code (.if cond.toCode yes.toCode.returning no.toCode.returning)) := by
  have form : SpecialForm.ofName? SpecialForm.if.name = some .if := rfl
  rw [evaluate, form]
  simp only [lowerIf]

theorem generated_of_forall₂ {args : List Expr} {cs : List Code}
    (lowered : List.Forall₂ (Lowered .value) args cs) : ∀ c ∈ cs, Code.Generated .value c := by
  induction lowered with
  | nil => simp
  | cons first _ ih => exact List.forall_mem_cons.2 ⟨first.generated, ih⟩

theorem operator_name {p : Primitive} (mem : p ∈ Expr.arithmetic ++ Expr.comparisons) :
    ∃ m ∈ Code.operators, p.name = utf8 m := by
  simp only [Expr.arithmetic, Expr.comparisons, List.cons_append, List.nil_append, List.mem_cons,
    List.not_mem_nil, or_false] at mem
  rcases mem with rfl | rfl | rfl | rfl | rfl | rfl | rfl
  · exact ⟨"+", by decide, rfl⟩
  · exact ⟨"-", by decide, rfl⟩
  · exact ⟨"*", by decide, rfl⟩
  · exact ⟨"/", by decide, rfl⟩
  · exact ⟨"==", by decide, rfl⟩
  · exact ⟨"<", by decide, rfl⟩
  · exact ⟨">", by decide, rfl⟩

/-- A call of an operator that begins as its first argument does. -/
theorem lineShape_leading {name : Bytes} (mem : name ∈ Expr.leading) (place : Place)
    (first : Expr) (rest : List Expr) :
    (Expr.apply place name (first :: rest)).lineShape = first.lineShape := by
  have other : ∀ name ∈ Expr.leading, Expr.braced.contains name = false
      ∧ name ≠ Primitive.array.name := by decide
  obtain ⟨plain, no_array⟩ := other name mem
  have known : Expr.leading.contains name = true := List.contains_iff_mem.2 mem
  rw [Expr.lineShape, plain, if_neg no_array, known]
  rfl

theorem leading_of_operator {p : Primitive} (mem : p ∈ Expr.arithmetic ++ Expr.comparisons) :
    p.name ∈ Expr.leading := List.mem_map_of_mem (List.mem_append_left _ mem)

/-- A call of a name that a program may give. -/
theorem lineShape_own {f : Bytes} (own : Expr.IsOwn f) (place : Place) (first : Expr)
    (rest : List Expr) : (Expr.apply place f (first :: rest)).lineShape = .fresh := by
  have other (p : Primitive) : p.name ≠ f := ne_primitive own.primitive p
  have plain : Expr.braced.contains f = false := by
    have form : ∀ name ∈ Expr.braced, SpecialForm.ofName? name ≠ none := by decide
    rw [← Bool.not_eq_true, List.contains_iff_mem]
    exact fun mem => form f mem own.form
  have unknown : Expr.leading.contains f = false := by
    rw [← Bool.not_eq_true, List.contains_iff_mem]
    intro mem
    obtain ⟨p, -, same⟩ := List.mem_map.1 mem
    exact other p same
  rw [Expr.lineShape, plain, if_neg (Ne.symm (other .array)), unknown]
  rfl

theorem Lowered.operation {place : Place} {p : Primitive} {first : Expr} {rest : List Expr}
    {c : Code} {cs : List Code} (mem : p ∈ Expr.arithmetic ++ Expr.comparisons)
    (head : Lowered .value first c) (each : ∀ d ∈ cs, Code.Generated .value d) :
    Lowered .value (.apply place p.name (first :: rest)) (.operation p.name (c :: cs)) := by
  obtain ⟨m, operator, name⟩ := operator_name mem
  refine ⟨?_, fun _ => ?_⟩
  · rw [name]
    exact .operation operator head.generated each
  · rw [Code.lineKind, lineShape_leading (leading_of_operator mem)]
    exact head.kind rfl

theorem array_lowers {args : List Expr} (each : ∀ a ∈ args, Lowers functions .value vars a)
    (place : Place) :
    ∃ cs, LowersTo functions vars (.apply place Primitive.array.name args) (.array cs)
      ∧ (∀ c ∈ cs, Code.Generated .value c)
      ∧ (Code.array cs).lineKind = (Expr.apply place Primitive.array.name args).lineShape := by
  obtain ⟨cs, lowered, lower⟩ := lowerAll_lowers each
  refine ⟨cs, lower.primitive place .array, generated_of_forall₂ lowered, ?_⟩
  cases lowered <;> rfl

theorem returning_value {c : Code} (h : Code.Generated .value c) : c.returning = .return c := by
  cases h <;> rfl

theorem if_lowers {cond yes no : Expr} (test : Lowers functions .value vars cond)
    (first : Lowers functions .value vars yes) (second : Lowers functions .value vars no)
    (place : Place) :
    ∃ c y n, LowersTo functions vars (.apply place SpecialForm.if.name [cond, yes, no])
        (.if c (.return y) (.return n))
      ∧ Code.Generated .value c ∧ Code.Generated .value y ∧ Code.Generated .value n := by
  obtain ⟨c, c_lowered, c_lowers⟩ := test
  obtain ⟨y, y_lowered, y_lowers⟩ := first
  obtain ⟨n, n_lowered, n_lowers⟩ := second
  have yes_value : y.returning = .return y := returning_value y_lowered.generated
  have no_value : n.returning = .return n := returning_value n_lowered.generated
  refine ⟨c, y, n, fun env s h => ?_, c_lowered.generated, y_lowered.generated,
    n_lowered.generated⟩
  obtain ⟨t₁, yes_ok, ext₁⟩ := y_lowers env s h
  obtain ⟨t₂, no_ok, ext₂⟩ := n_lowers env t₁ (h.extends ext₁)
  obtain ⟨t, cond_ok, ext⟩ := c_lowers env t₂ (h.extends (ext₁.trans ext₂))
  refine ⟨t, ?_, (ext₁.trans ext₂).trans ext⟩
  rw [evaluate_if, bind_ok yes_ok, bind_ok no_ok, bind_ok cond_ok]
  simp only [Binding.toCode, yes_value, no_value]
  rfl

theorem function_lowers {q : Bytes} {body : Expr}
    (closing : Lowers functions .body (q :: vars) body) (own : Expr.IsOwn q)
    (place param : Place) :
    ∃ c, LowersTo functions vars (.apply place SpecialForm.fun.name [.word param q, body])
        (.function [q] c)
      ∧ Code.Generated .body c := by
  obtain ⟨c, lowered, lowers⟩ := closing
  refine ⟨c.returning, fun env s h => ?_, lowered.generated⟩
  obtain ⟨t, ok, extended⟩ := lowers _ _ (h.entered own)
  refine ⟨t, ?_, (extends_entered s env q).trans extended⟩
  rw [evaluate_function, bind_ok ok]
  rfl

/-- Every expression of a program, and every function body, is lowered. -/
theorem lowers_of_scoped {role : Role} {e : Expr} (h : Expr.Scoped functions role vars e)
    (own : ∀ f ∈ functions, Expr.IsOwn f) (names : ∀ v ∈ vars, Expr.IsOwn v) :
    Lowers functions role vars e := by
  induction h with
  | number place digits =>
    exact ⟨_, ⟨.number _, fun _ => rfl⟩, fun env s _ => ⟨s, by rw [evaluate]; rfl, .refl s⟩⟩
  | truth place b =>
    refine ⟨_, ⟨.truth b, fun _ => rfl⟩, fun env s h => ?_⟩
    obtain ⟨c, bound⟩ := h.truth b
    exact ⟨s, evaluate_word bound place, .refl s⟩
  | name place mem =>
    refine ⟨_, ⟨.name (names _ mem).variable, fun _ => rfl⟩, fun env s h => ?_⟩
    obtain ⟨c, bound⟩ := h.bound _ mem
    exact ⟨s, evaluate_word bound place, .refl s⟩
  | @arithmetic vars place p first rest mem _ _ ih ihs =>
    obtain ⟨cs, lowered, lower⟩ := lowerAll_lowers
      (List.forall_mem_cons.2 ⟨ih names, fun a inside => ihs a inside names⟩)
    cases lowered with
    | @cons _ c _ ds head others =>
      have joined : p.expand (c :: ds) = Primitive.joinAll p.name (c :: ds) := by
        simp only [Expr.arithmetic, List.mem_cons, List.not_mem_nil, or_false] at mem
        rcases mem with rfl | rfl | rfl | rfl <;> rfl
      refine ⟨_, ?_, lower.primitive place p⟩
      rw [joined]
      have known := List.mem_append_left Expr.comparisons mem
      cases others with
      | nil =>
        refine ⟨head.generated, fun _ => ?_⟩
        rw [lineShape_leading (leading_of_operator known)]
        exact head.kind rfl
      | cons second more =>
        exact .operation known head (generated_of_forall₂ (.cons second more))
  | @comparison vars place p a b mem _ _ iha ihb =>
    obtain ⟨c, head, head_lowers⟩ := iha names
    obtain ⟨d, second, second_lowers⟩ := ihb names
    have pair : p.expand [c, d] = .operation p.name [c, d] := by
      simp only [Expr.comparisons, List.mem_cons, List.not_mem_nil, or_false] at mem
      rcases mem with rfl | rfl | rfl <;> rfl
    refine ⟨_, ?_, (LowerTo.cons head_lowers (.cons second_lowers .nil)).primitive place p⟩
    rw [pair]
    exact .operation (List.mem_append_right Expr.arithmetic mem) head
      (generated_of_forall₂ (.cons second .nil))
  | array place _ ih =>
    obtain ⟨cs, lowers, generated, kind⟩ := array_lowers (fun a mem => ih a mem names) place
    exact ⟨_, ⟨.array generated, fun _ => kind⟩, lowers⟩
  | @length vars place inner args _ ih =>
    obtain ⟨cs, lowers, generated, kind⟩ := array_lowers (fun a mem => ih a mem names) inner
    exact ⟨.member (.array cs) (utf8 "length"),
      ⟨.length generated, fun _ => kind.trans (lineShape_leading (by decide) _ _ _).symm⟩,
      (LowerTo.cons lowers .nil).primitive place .length⟩
  | @element vars place inner args i _ _ ih ihi =>
    obtain ⟨cs, lowers, generated, kind⟩ := array_lowers (fun a mem => ih a mem names) inner
    obtain ⟨d, index, index_lowers⟩ := ihi names
    exact ⟨.index (.array cs) d,
      ⟨.element generated index.generated,
        fun _ => kind.trans (lineShape_leading (by decide) _ _ _).symm⟩,
      (LowerTo.cons lowers (.cons index_lowers .nil)).primitive place .element⟩
  | @call vars place f a mem _ ih =>
    obtain ⟨c, lowered, lowers⟩ := ih names
    refine ⟨.call (.ident f) [c], ⟨.call (own _ mem).variable lowered.generated,
      fun _ => (lineShape_own (own _ mem) _ _ _).symm⟩, fun env s h => ?_⟩
    obtain ⟨t, ok, extended⟩ := (LowerTo.cons lowers .nil) env s h
    exact ⟨t, by rw [evaluate_call h place mem, bind_ok ok]; rfl, extended⟩
  | @applied vars place param q body a own_param _ _ ih iha =>
    obtain ⟨c, lowers, generated⟩ := function_lowers
      (ih (List.forall_mem_cons.2 ⟨own_param, names⟩)) own_param place param
    obtain ⟨d, arg, arg_lowers⟩ := iha names
    refine ⟨.call (.function [q] c) [d],
      ⟨.applied own_param.variable generated arg.generated, fun _ => rfl⟩, fun env s h => ?_⟩
    obtain ⟨t, ok, extended⟩ := lowers env s h
    obtain ⟨u, arg_ok, more⟩ := (LowerTo.cons arg_lowers .nil) env t (h.extends extended)
    refine ⟨u, ?_, extended.trans more⟩
    rw [evaluate, bind_ok ok, bind_ok arg_ok]
    rfl
  | result _ ih =>
    obtain ⟨c, lowered, lowers⟩ := ih names
    have value : Code.Generated .value c := lowered.generated
    refine ⟨c, ⟨?_, by simp⟩, lowers⟩
    rw [complete, returning_value value]
    exact .returned value
  | branch place _ _ _ ihc ihy ihn =>
    obtain ⟨c, y, n, lowers, cond, yes, no⟩ := if_lowers (ihc names) (ihy names) (ihn names) place
    exact ⟨.if c (.return y) (.return n), ⟨.branch cond yes no, by simp⟩, lowers⟩

/-! ## Statements -/

/-- What the code of a statement is. -/
structure LineOf (e : Expr) (c : Code) : Prop where
  generated : c.GeneratedLine
  kind : c.lineKind = e.lineShape

/-- An expression is no special form. -/
theorem not_form {e : Expr} (h : Expr.Scoped functions .value vars e)
    (own : ∀ f ∈ functions, Expr.IsOwn f) (form : SpecialForm) : e.isCallOf form.name = false := by
  have other : ∀ {name : Bytes}, SpecialForm.ofName? name = none → name ≠ form.name := by
    rintro _ none rfl
    revert none
    cases form <;> decide
  have primitive : ∀ p : Primitive, p.name ≠ form.name := fun p =>
    other (by cases p <;> rfl)
  cases h with
  | number | truth | name | applied => all_goals rfl
  | arithmetic | comparison | array | length | element =>
    all_goals simp [Expr.isCallOf, Expr.operator?, primitive]
  | call place mem => simp [Expr.isCallOf, Expr.operator?, other (own _ mem).form]

theorem evaluate_define (place target : Place) (v : Bytes) (e : Expr) :
    evaluate (.apply place SpecialForm.define.name [.word target v, e]) env
      = lowerDefine place [.word target v, e] env := by
  have form : SpecialForm.ofName? SpecialForm.define.name = some .define := rfl
  rw [evaluate, form]

theorem evaluate_set (place target : Place) (v : Bytes) (e : Expr) :
    evaluate (.apply place SpecialForm.set.name [.word target v, e]) env
      = lowerSet place [.word target v, e] env := by
  have form : SpecialForm.ofName? SpecialForm.set.name = some .set := rfl
  rw [evaluate, form]

theorem evaluate_while (place : Place) (cond body : Expr) :
    evaluate (.apply place SpecialForm.while.name [cond, body]) env
      = (do
        let cond ← evaluate cond env
        let body ← evaluate body env
        return .code (.while cond.toCode body.toCode)) := by
  have form : SpecialForm.ofName? SpecialForm.while.name = some .while := rfl
  rw [evaluate, form]
  simp only [lowerWhile]

/-- Whether a statement defines a variable that its frame has. -/
def State.redefines (s : State) (env : Nat) (e : Expr) : Bool :=
  e.declared?.any fun v => s.frames.owns env v

/-- Where the variables and functions are defined, a statement has one code if its variable is new
to the frame and another one if it is not, and no other name is new to the frame. -/
def LowersAs (vars functions : List Bytes) (e : Expr) (code : Bool → Code)
    (vars' functions' : List Bytes) : Prop :=
  ∀ env s, Stands functions vars env s → ∃ t,
    evaluate e env s = .ok (.code (code (s.redefines env e))) t
      ∧ Stands functions' vars' env t
      ∧ ∀ v, t.frames.owns env v = true ↔ s.frames.owns env v = true ∨ e.declared? = some v

theorem LowersTo.lowersAs {e : Expr} {c : Code} (lowers : LowersTo functions vars e c)
    (nothing : e.declared? = none) : LowersAs vars functions e (fun _ => c) vars functions := by
  intro env s h
  obtain ⟨t, ok, extended⟩ := lowers env s h.toKnows
  exact ⟨t, ok, h.extends extended, fun v => by simp [extended.owns h.inside, nothing]⟩

theorem declared?_other {name : Bytes} (no_define : name ≠ SpecialForm.define.name)
    (no_loop : name ≠ SpecialForm.while.name) (place : Place) (args : List Expr) :
    (Expr.apply place name args).declared? = none := by
  match args with
  | [] | [_] | _ :: _ :: _ :: _ => rfl
  | [_, _] => rw [Expr.declared?, if_neg no_define, if_neg no_loop]

theorem declared?_value {e : Expr} (value : Expr.Scoped functions .value vars e)
    (own : ∀ f ∈ functions, Expr.IsOwn f) : e.declared? = none := by
  cases e with
  | number | string | word | closure => all_goals rfl
  | apply place name args =>
    have other (form : SpecialForm) : name ≠ form.name := by
      simpa [Expr.isCallOf, Expr.operator?] using not_form value own form
    exact declared?_other (other .define) (other .while) place args

/-- A definition of a variable. -/
theorem define_lowers {v : Bytes} {e : Expr} {c : Code} (lowers : LowersTo functions vars e c)
    (no_function : e.isCallOf SpecialForm.fun.name = false) (own : Expr.IsOwn v)
    (place target : Place) :
    LowersAs vars functions (.apply place SpecialForm.define.name [.word target v, e])
      (fun again => bif again then .assign v c else .var v c) (v :: vars) functions := by
  intro env s h
  obtain ⟨t, ok, extended⟩ := lowers env s h.toKnows
  have after := h.extends extended
  have declares :
      (Expr.apply place SpecialForm.define.name [.word target v, e]).declared? = some v := by
    simp [Expr.declared?, no_function, Expr.word?]
  have same := extended.owns h.inside
  rw [State.redefines, declares, evaluate_define]
  simp only [lowerDefine, Expr.word?, no_function, Bool.false_eq_true, if_false, Option.any_some]
  change ∃ t, (if s.frames.owns env v = true then _ else _ : Lowering Binding) s = _ ∧ _
  cases owned : s.frames.owns env v with
  | true =>
    refine ⟨t, ?_, after.rename own ((same v).trans owned), fun w => ?_⟩
    · rw [if_pos rfl, bind_ok ok]
      rfl
    · rw [same, Option.some_inj, iff_self_or]
      rintro rfl
      exact owned
  | false =>
    refine ⟨_, ?_, after.bind own c, fun w => ?_⟩
    · rw [if_neg Bool.false_ne_true, bind_ok ok]
      rfl
    · rw [owns_set after.inside, same, Option.some_inj]

/-- A definition of a function. -/
theorem defineFunction_lowers {f q : Bytes} {body : Expr} {c : Code} {inner param : Place}
    (lowers : LowersTo functions vars (.apply inner SpecialForm.fun.name [.word param q, body]) c)
    (own : Expr.IsOwn f) (place target : Place) :
    LowersAs vars functions (.apply place SpecialForm.define.name
        [.word target f, .apply inner SpecialForm.fun.name [.word param q, body]])
      (fun _ => .var f c) vars (f :: functions) := by
  intro env s h
  have registered := h.register own
  obtain ⟨t, ok, extended⟩ := lowers env { s with functions := s.functions.add f }
    (registered.toKnows.mono (List.subset_cons_self f functions) (List.Subset.refl vars))
  have is_function : (Expr.apply inner SpecialForm.fun.name [.word param q, body]).isCallOf
      SpecialForm.fun.name = true := by simp [Expr.isCallOf, Expr.operator?]
  have nothing : (Expr.apply place SpecialForm.define.name
      [.word target f, .apply inner SpecialForm.fun.name [.word param q, body]]).declared?
        = none := by
    rw [Expr.declared?, if_pos rfl, if_pos is_function]
  refine ⟨t, ?_, registered.extends extended, fun v => ?_⟩
  · rw [evaluate_define]
    simp only [lowerDefine, Expr.word?, is_function, if_true]
    change (evaluate (.apply inner SpecialForm.fun.name [.word param q, body]) env >>= _)
      { s with functions := s.functions.add f } = _
    rw [bind_ok ok]
    rfl
  · simp [extended.owns h.inside, nothing]

/-- A new value of a variable. -/
theorem set_lowers {v : Bytes} {e : Expr} {c : Code} (lowers : LowersTo functions vars e c)
    (mem : v ∈ vars) (place target : Place) :
    LowersAs vars functions (.apply place SpecialForm.set.name [.word target v, e])
      (fun _ => .assign v c) vars functions := by
  intro env s h
  obtain ⟨t, ok, extended⟩ := lowers env s h.toKnows
  have after := h.extends extended
  have found : t.targetOf? env v = some env := by
    simp [State.targetOf?, after.owned v mem]
  have rebound := rebind_apply env v (.code c) t
  rw [found] at rebound
  have bound := (after.bind (h.names v mem) c).mono (List.Subset.refl _)
    (List.subset_cons_self v vars)
  have nothing : (Expr.apply place SpecialForm.set.name [.word target v, e]).declared? = none :=
    declared?_other (by decide) (by decide) _ _
  refine ⟨{ t with
      frames := t.frames.set env v (.code c),
      rootChanges := if env = 0 then t.rootChanges + 1 else t.rootChanges }, ?_,
    bound.extends ⟨rfl, Nat.le_refl _, fun _ _ => rfl⟩, fun w => ?_⟩
  · rw [evaluate_set]
    simp only [lowerSet, Expr.word?, List.isEmpty_nil, Bool.not_true, Bool.false_and,
      Bool.false_eq_true, if_false]
    rw [bind_ok ok, bind_ok rebound]
    rfl
  · rw [owns_set after.inside, extended.owns h.inside, nothing]
    simp only [reduceCtorEq, or_false, or_iff_left_iff_imp]
    rintro rfl
    exact h.owned v mem

/-- A statement that a loop never executes. -/
theorem loop_lowers {vars' functions' : List Bytes} {e : Expr} {code : Bool → Code}
    (lowers : LowersAs vars functions e code vars' functions') (place inner : Place) :
    LowersAs vars functions
      (.apply place SpecialForm.while.name [.word inner (utf8 (toString false)), e])
      (fun again => .while (.ident (utf8 (toString false))) (code again)) vars' functions' := by
  intro env s h
  obtain ⟨b, bound⟩ := h.truth false
  obtain ⟨t, ok, after, owned⟩ := lowers env s h
  have declares : (Expr.apply place SpecialForm.while.name
      [.word inner (utf8 (toString false)), e]).declared? = e.declared? := by
    rw [Expr.declared?, if_neg (by decide), if_pos rfl]
  refine ⟨t, ?_, after, fun v => declares ▸ owned v⟩
  rw [State.redefines, declares, evaluate_while, bind_ok (evaluate_word bound inner), bind_ok ok]
  rfl

/-- Every statement of a program is lowered to a line. -/
theorem statement_lowers {vars' functions' : List Bytes} {e : Expr}
    (statement : Expr.Statement vars functions e vars' functions')
    (own : ∀ f ∈ functions, Expr.IsOwn f) (names : ∀ v ∈ vars, Expr.IsOwn v) :
    ∃ code, (∀ again, LineOf e (code again)) ∧ LowersAs vars functions e code vars' functions' := by
  induction statement with
  | value value =>
    obtain ⟨c, lowered, lowers⟩ := lowers_of_scoped value own names
    exact ⟨_, fun _ => ⟨.value lowered.generated, lowered.kind rfl⟩,
      lowers.lowersAs (declared?_value value own)⟩
  | branch place cond yes no =>
    obtain ⟨c, y, n, lowers, cond, yes, no⟩ := if_lowers (lowers_of_scoped cond own names)
      (lowers_of_scoped yes own names) (lowers_of_scoped no own names) place
    exact ⟨_, fun _ => ⟨.branch cond yes no, rfl⟩,
      lowers.lowersAs (declared?_other (by decide) (by decide) _ _)⟩
  | printed place value =>
    obtain ⟨c, lowered, lowers⟩ := lowers_of_scoped value own names
    exact ⟨_, fun _ => ⟨.printed lowered.generated, rfl⟩,
      ((LowerTo.cons lowers .nil).primitive place .print).lowersAs
        (declared?_other (by decide) (by decide) _ _)⟩
  | declared place target own_name value =>
    obtain ⟨c, lowered, lowers⟩ := lowers_of_scoped value own names
    refine ⟨_, fun again => ?_,
      define_lowers lowers (not_form value own .fun) own_name place target⟩
    cases again with
    | true => exact ⟨.assigned own_name.variable lowered.generated, rfl⟩
    | false => exact ⟨.declared own_name.variable lowered.generated, rfl⟩
  | defined place target inner param own_name param_own body =>
    obtain ⟨c, lowers, generated⟩ := function_lowers
      (lowers_of_scoped body own (List.forall_mem_cons.2 ⟨param_own, names⟩)) param_own inner param
    exact ⟨_, fun _ => ⟨.defined own_name.variable param_own.variable generated, rfl⟩,
      defineFunction_lowers lowers own_name place target⟩
  | assigned place target mem value =>
    obtain ⟨c, lowered, lowers⟩ := lowers_of_scoped value own names
    exact ⟨_, fun _ => ⟨.assigned (names _ mem).variable lowered.generated, rfl⟩,
      set_lowers lowers mem place target⟩
  | loop place inner _ ih =>
    obtain ⟨code, lines, lowers⟩ := ih
    exact ⟨_, fun again => ⟨.loop (lines again).generated, rfl⟩, loop_lowers lowers place inner⟩

/-! ## Programs -/

/-- Outside a function the arguments of a `do` are lowered in turn. -/
theorem lowerDo_plain {e : Expr} {rest : List Expr} {c : Code} {cs : List Code}
    (ok : evaluate e env s = .ok (.code c) t) (plain : t.frames.isFunction env = false)
    (all_ok : lowerDo rest env t = .ok cs u) : lowerDo (e :: rest) env s = .ok (c :: cs) u := by
  cases rest with
  | nil =>
    have none : lowerDo [] env t = .ok [] t := by
      rw [lowerDo]
      rfl
    obtain ⟨rfl, rfl⟩ := EStateM.Result.ok.inj (none.symm.trans all_ok)
    rw [lowerDo, bind_ok ok]
    change EStateM.Result.ok (if t.frames.isFunction env = true then t.closing e c else [c]) t = _
    rw [plain]
    rfl
  | cons next later =>
    rw [lowerDo, bind_ok ok, bind_ok all_ok]
    · rfl
    · simp

theorem lowerDo_lowers {args : List Expr} (statements : Expr.Statements vars functions args) :
    ∀ s, Stands functions vars env s →
      ∃ cs t, lowerDo args env s = .ok cs t ∧ List.Forall₂ LineOf args cs := by
  induction statements with
  | nil => exact fun s _ => ⟨[], s, by rw [lowerDo]; rfl, .nil⟩
  | cons statement _ ih =>
    intro s h
    obtain ⟨code, lines, lowers⟩ := statement_lowers statement h.functionNames h.names
    obtain ⟨t, ok, after, -⟩ := lowers env s h
    obtain ⟨cs, u, all_ok, others⟩ := ih t after
    exact ⟨_, u, lowerDo_plain ok after.plain all_ok, .cons (lines _) others⟩

theorem start_get? (indent name : Bytes) :
    (Compiler.new indent).start.frames.get? 1 name = (rootBindings Primitive.all).get? name := by
  have own : (Compiler.new indent).start.frames.own? 1 name = none := rfl
  have outer : (Compiler.new indent).start.frames.outer? 1 = some 0 := rfl
  have root : (Compiler.new indent).start.frames.own? 0 name
      = (rootBindings Primitive.all).get? name := rfl
  have outermost : (Compiler.new indent).start.frames.outer? 0 = none := rfl
  rw [Frames.get?, own, outer]
  simp only [Nat.zero_lt_one, if_true]
  rw [Frames.get?, root, outermost]
  cases (rootBindings Primitive.all).get? name <;> rfl

theorem start_stands (indent : Bytes) : Stands [] [] 1 (Compiler.new indent).start where
  inside := Nat.lt_succ_self 1
  bound := by simp
  truth b := by
    rw [start_get?]
    cases b <;> exact ⟨_, rfl⟩
  registered := by simp
  primitive p := by
    rw [start_get?]
    cases p <;> rfl
  unregistered _ := rfl
  names := by simp
  functionNames := by simp
  plain := rfl
  owned := by simp
  codes v b found := by cases found

theorem kinds_of_lines {args : List Expr} {cs : List Code} (lines : List.Forall₂ LineOf args cs) :
    cs.map Code.lineKind = args.map Expr.lineShape := by
  induction lines with
  | nil => rfl
  | cons first _ ih => rw [List.map_cons, List.map_cons, first.kind, ih]

theorem generated_of_lines {args : List Expr} {cs : List Code}
    (lines : List.Forall₂ LineOf args cs) : ∀ c ∈ cs, c.GeneratedLine := by
  induction lines with
  | nil => simp
  | cons first _ ih => exact List.forall_mem_cons.2 ⟨first.generated, ih⟩

theorem compile_do {source indent : Bytes} {place : Place} {args : List Expr} {cs : List Code}
    (read : parse source = .ok (.apply place SpecialForm.do.name args))
    (ok : lowerDo args 1 (Compiler.new indent).start = .ok cs t) :
    ((Compiler.new indent).compile source).1 = .ok (Code.print indent (.block cs)) := by
  have form : SpecialForm.ofName? SpecialForm.do.name = some .do := rfl
  have run : evaluate (.apply place SpecialForm.do.name args) 1 (Compiler.new indent).start
      = .ok (.code (.block cs)) t := by
    rw [evaluate, form]
    simp only
    rw [bind_ok ok]
    rfl
  rw [compile_eq _ read, run]
  rfl

/-- A program compiles. Its text, wrapped as an executor wraps it, is a script just if its
statements are apart. -/
theorem compile_parses_iff {source indent : Bytes} {place : Place} {args : List Expr}
    (read : parse source = .ok (.apply place SpecialForm.do.name args))
    (defined : Expr.Statements [] [] args) (blank : Code.IsIndent indent) :
    ∃ text script, ((Compiler.new indent).compile source).1 = .ok text
      ∧ Text.chars? (Executor.wrap text) = some script
      ∧ ((∃ statements, Script.parse? script = some statements) ↔ Expr.AreApart args) := by
  obtain ⟨cs, t, ok, lines⟩ := lowerDo_lowers defined _ (start_stands indent)
  obtain ⟨script, chars, parses⟩ := Code.wrap_parses_iff blank (generated_of_lines lines)
  exact ⟨_, script, compile_do read ok, chars, by rwa [kinds_of_lines lines] at parses⟩

/-- A conditional, which a brace ends, comes before an array without elements. -/
theorem compile_parses_branch :
    let source := utf8 "do(if(true,1,2),array())"
    let args : List Expr :=
      [.apply ⟨3, 1, 4⟩ SpecialForm.if.name [.word ⟨6, 1, 7⟩ (utf8 "true"),
          .number ⟨11, 1, 12⟩ (utf8 "1"), .number ⟨13, 1, 14⟩ (utf8 "2")],
        .apply ⟨16, 1, 17⟩ Primitive.array.name []]
    parse source = .ok (.apply ⟨0, 1, 1⟩ SpecialForm.do.name args) ∧ Expr.Statements [] [] args
      ∧ Expr.AreApart args
      ∧ ∃ text script, ((Compiler.new (utf8 "  ")).compile source).1 = .ok text
        ∧ Text.chars? (Executor.wrap text) = some script
        ∧ ((∃ statements, Script.parse? script = some statements) ↔ Expr.AreApart args) := by
  intro source args
  have read : parse source = .ok (.apply ⟨0, 1, 1⟩ SpecialForm.do.name args) := by
    with_unfolding_all rfl
  have defined : Expr.Statements [] [] args :=
    .cons (.branch _ (.truth _ true) (.number _ _) (.number _ _))
      (.cons (.value (.array _ (by simp))) .nil)
  have blank : Code.IsIndent (utf8 "  ") :=
    ⟨_, Script.Parser.isBlank_space.append Script.Parser.isBlank_space⟩
  exact ⟨read, defined, by decide, compile_parses_iff read defined blank⟩

/-- A definition comes before an array without elements, whose brackets go on the value that the
variable is given. -/
theorem empty_array_goes_on :
    let source := utf8 "do(define(v0,1),array())"
    let args : List Expr :=
      [.apply ⟨3, 1, 4⟩ SpecialForm.define.name
          [.word ⟨10, 1, 11⟩ (utf8 "v0"), .number ⟨13, 1, 14⟩ (utf8 "1")],
        .apply ⟨16, 1, 17⟩ Primitive.array.name []]
    let text := utf8 "var v0 = 1\n[]"
    parse source = .ok (.apply ⟨0, 1, 1⟩ SpecialForm.do.name args) ∧ Expr.Statements [] [] args
      ∧ ((Compiler.new (utf8 "  ")).compile source).1 = .ok text
      ∧ ∃ script, Text.chars? (Executor.wrap text) = some script
        ∧ Script.parse? script = none := by
  intro source args text
  have own : Expr.IsOwn (utf8 "v0") := ⟨⟨"v0", rfl, by decide⟩, rfl, rfl⟩
  refine ⟨by with_unfolding_all rfl, ?_, by decide +kernel,
    "(function() \x7b\nvar v0 = 1\n[]\n\x7d)()".toList, by decide +kernel, by decide +kernel⟩
  exact .cons (.declared _ _ own (.number _ _)) (.cons (.value (.array _ (by simp))) .nil)

end EggLang.Compiler
