import EggLang.Proofs.Compiler.Confinement

/-!
# Compilation is local in the names of the program

A compilation runs in a fresh frame below the root and is confined to the words of its program.
So compilers that agree on those words compile it alike and stay in agreement, and what a compiler
knows about any other name is neither used nor changed.
-/

namespace EggLang.Compiler

/-- The state in which the lowering of a program starts, in frame one. -/
def start (t : Compiler) : State :=
  ⟨t.functions, ((Frames.ofRoot t.root).enclosed 0).2, t.rootChanges⟩

/-- The compiler that a lowering leaves. -/
def after (t : Compiler) (s : State) : Compiler :=
  { t with functions := s.functions, root := s.frames.root, rootChanges := s.rootChanges }

theorem start_size_pos (t : Compiler) : 0 < t.start.frames.size := by
  simp [start, Frames.enclosed]

theorem lower_eq (t : Compiler) (e : Expr) :
    t.lower e = ((answer (evaluate e 1 t.start)).map Binding.toCode,
      t.after (final (evaluate e 1 t.start))) := by
  have opened : evaluate e ((Frames.ofRoot t.root).enclosed 0).1
      ⟨t.functions, ((Frames.ofRoot t.root).enclosed 0).2, t.rootChanges⟩
        = evaluate e 1 t.start := rfl
  simp only [lower, opened]
  cases evaluate e 1 t.start <;> rfl

theorem compile_eq (t : Compiler) {source : Bytes} {e : Expr} (parses : parse source = .ok e) :
    t.compile source
      = ((answer (evaluate e 1 t.start)).map fun value => value.toCode.print t.indent,
          t.after (final (evaluate e 1 t.start))) := by
  rw [compile, parses]
  simp only [lower_eq]
  cases answer (evaluate e 1 t.start) <;> rfl

/-- What lowering a program does to the state, as steps. -/
theorem lower_steps (t : Compiler) (e : Expr) :
    Steps e.names t.start (final (evaluate e 1 t.start)) :=
  (Confined.evaluate e (List.Subset.refl _) 1 (by omega)).steps t.start t.start_size_pos

/-- Two compilers know the same about the names that satisfy `P`. -/
structure AgreeOn (P : Bytes → Prop) (t u : Compiler) : Prop where
  functions : ∀ n, P n → t.functions.has n = u.functions.has n
  root : ∀ n, P n → t.root.get? n = u.root.get? n

theorem AgreeOn.start {N : List Bytes} {t u : Compiler} (h : AgreeOn (· ∈ N) t u) :
    Agree N t.start u.start where
  has := h.functions
  size := rfl
  outer env := by rcases env with _ | _ | env <;> rfl
  isFunction env := by rcases env with _ | _ | env <;> rfl
  own n mem env := by
    rcases env with _ | _ | env
    · exact h.root n mem
    · rfl
    · rfl

theorem Agree.after {N : List Bytes} {s s' : State} (h : Agree N s s') (t u : Compiler) :
    AgreeOn (· ∈ N) (t.after s) (u.after s') where
  functions := h.has
  root n mem := by
    simpa [Compiler.after, Frames.get?_root] using h.own n mem 0

/-- A compilation leaves what is known about names that are not in the program. -/
theorem Steps.agreeOn_outside {N : List Bytes} {t : Compiler} {s : State}
    (run : Steps N t.start s) : AgreeOn (· ∉ N) (t.after s) t where
  functions _ outside := run.has_outside outside
  root _ outside := run.root_outside t.start_size_pos outside

/-- Compilers with one indentation that agree on the words of a program give the same text or the
same error for it and still agree on those words. Neither compilation changes what is known about
any other name. -/
theorem compile_local (t u : Compiler) (source : Bytes) (e : Expr)
    (parses : parse source = .ok e) (indent : t.indent = u.indent)
    (agree : AgreeOn (· ∈ e.names) t u) :
    (t.compile source).1 = (u.compile source).1
      ∧ AgreeOn (· ∈ e.names) (t.compile source).2 (u.compile source).2
      ∧ AgreeOn (· ∉ e.names) (t.compile source).2 t
      ∧ AgreeOn (· ∉ e.names) (u.compile source).2 u := by
  have confined := Confined.evaluate e (List.Subset.refl _) 1 (by omega)
  obtain ⟨same, agree'⟩ := confined.same _ _ t.start_size_pos agree.start
  rw [compile_eq t parses, compile_eq u parses]
  refine ⟨?_, agree'.after t u, (lower_steps t e).agreeOn_outside,
    (lower_steps u e).agreeOn_outside⟩
  rw [same, indent]

/-- A program that registers `f`, rebinds `<` in the root and then fails, for a new compiler and
for one that has registered `h` and lost the primitive `+`. -/
theorem compile_local_failing :
    let source := utf8 "do(define(f,fun(1)),set(<,2),g)"
    let e := Expr.apply ⟨0, 1, 1⟩ (utf8 "do")
      [.apply ⟨3, 1, 4⟩ (utf8 "define")
        [.word ⟨10, 1, 11⟩ (utf8 "f"),
          .apply ⟨12, 1, 13⟩ (utf8 "fun") [.number ⟨16, 1, 17⟩ (utf8 "1")]],
        .apply ⟨20, 1, 21⟩ (utf8 "set")
          [.word ⟨24, 1, 25⟩ (utf8 "<"), .number ⟨26, 1, 27⟩ (utf8 "2")],
        .word ⟨29, 1, 30⟩ (utf8 "g")]
    let t := Compiler.new (utf8 "  ")
    let u : Compiler :=
      { t with
        functions := ⟨[utf8 "h"]⟩
        root := t.root.set (utf8 "+") (.code (.ident (utf8 "h")))
        rootChanges := 4 }
    parse source = .ok e ∧ AgreeOn (· ∈ e.names) t u
      ∧ (t.compile source).1 = (u.compile source).1
      ∧ AgreeOn (· ∈ e.names) (t.compile source).2 (u.compile source).2
      ∧ AgreeOn (· ∉ e.names) (t.compile source).2 t
      ∧ AgreeOn (· ∉ e.names) (u.compile source).2 u := by
  intro source e t u
  have parses : parse source = .ok e := by
    dsimp only [source, e]
    with_unfolding_all rfl
  have agree : AgreeOn (· ∈ e.names) t u := by
    have no_h : utf8 "h" ∉ e.names := by decide
    have no_plus : utf8 "+" ∉ e.names := by decide
    constructor
    · intro n mem
      have different : n ≠ utf8 "h" := fun same => no_h (same ▸ mem)
      simp [t, u, new, Registry.has, Registry.empty, different]
    · intro n mem
      have different : n ≠ utf8 "+" := fun same => no_plus (same ▸ mem)
      simp [u, different]
  exact ⟨parses, agree, compile_local t u source e parses rfl agree⟩

end EggLang.Compiler
