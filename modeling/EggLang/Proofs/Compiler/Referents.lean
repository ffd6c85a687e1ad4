import EggLang.Proofs.Compiler.Tracking

/-!
# What the names of generated code refer to

The scope of the frame that owns a name is around the name in the code, and none in between had the
name before. So the name refers to it unless a function literal in between declares the name as
well: a `var` holds for the whole function, and the frame learns of it later or, for a function,
never. It does not either if the definition that gave the frame the name is in an operand that the
code of a primitive leaves out.
-/

namespace EggLang.Compiler

theorem ready_start (t : Compiler) : Ready 1 t.start where
  formed i o around := by
    rcases i with _ | _ | i
    · cases around
    · cases around
      exact Nat.zero_lt_one
    · cases around
  made := Nat.lt_succ_self 1

/-- A program starts with no names of its own. -/
theorem owner?_start {t : Compiler} {name : Bytes} {f : Nat}
    (found : t.start.frames.owner? 1 name = some f) : f = 0 := by
  have le := Frames.owner?_le found
  have owned := Frames.owns_of_owner? found
  have own : f ≠ 1 := by
    rintro rfl
    cases owned
  omega

/-- A name of a program is looked up between the steps before it and those after it. -/
theorem Tracked.placed {t : Compiler} {r : Resolved} {s : State}
    (h : Tracked (.program r) [] r.trace t.start s) {before after : List NameStep} {m : Mention}
    (split : r.trace = before ++ .look m true :: after) : m.Placed r.code before after := by
  obtain ⟨inner, fits⟩ := h.fits before m true after split
  have above (x : Scope) (mem : x ∈ inner) : 1 < x.frame := fits.opened x mem
  refine .of_leadsTo split ?_ ?_ ?_
  · rw [fits.around]
    refine List.pairwise_append.2 ⟨fits.nested, List.pairwise_singleton _ _, ?_⟩
    intro x mem y last
    rw [List.mem_singleton.1 last]
    exact above x mem
  · rw [fits.around]
    intro x mem
    rcases List.mem_append.1 mem with mem | last
    · exact Nat.lt_of_succ_lt (above x mem)
    · rw [List.mem_singleton.1 last]
      exact Nat.zero_lt_one
  · rw [fits.around]
    refine fits.leads.append ?_
    rintro (⟨same, bound⟩ | ⟨found, unbound⟩)
    · exact .inl ⟨same.symm, .inr bound⟩
    · have root := owner?_start found
      have further : m.owner ≠ 1 := by omega
      exact .inr ⟨further.symm, List.not_mem_nil, unbound.resolve_left further, root⟩

/-- The names in the code of a source that frames own, in the order in which they are looked up;
none if it does not compile. -/
def mentioned (t : Compiler) (source : Bytes) : List Mention :=
  match parse source with
  | .ok e =>
    match resolve e 1 t.start with
    | .ok r _ =>
      r.trace.filterMap fun step =>
        match step with
        | .look m true => some m
        | _ => none
    | .error .. => []
  | .error _ => []

/-- The code of a program that compiles is that of its resolution. A name in it that a frame owns
refers to the scope of that frame just in case no function literal in between declares it and the
scope does; what these declare is told by the definitions before and after the name. -/
theorem compile_referents (t : Compiler) (source text : Bytes)
    (compiles : (t.compile source).1 = .ok text) :
    ∃ e r s, parse source = .ok e ∧ resolve e 1 t.start = .ok r s
      ∧ text = r.code.print t.indent
      ∧ ∀ before m after, r.trace = before ++ .look m true :: after →
          m.Placed r.code before after := by
  cases parses : parse source with
  | error d =>
    rw [compile, parses] at compiles
    cases compiles
  | ok e =>
    rw [compile_eq t parses, Erases.of e 1] at compiles
    cases run : resolve e 1 t.start with
    | error d s =>
      simp only [Functor.map, EStateM.map, run] at compiles
      cases compiles
    | ok r s =>
      simp only [Functor.map, EStateM.map, run] at compiles
      refine ⟨e, r, s, rfl, run, ?_, fun before m after split => ?_⟩
      · cases compiles
        rw [← Resolved.toCode_binding]
      · exact (Follows.of e (.program r) [] true _ _ _ t.ready_start run).placed split

/-- A function that sets the `x` of the program and its own parameter: every name in the code
refers to its owner. -/
theorem compile_referents_nested :
    let source := utf8 "do(define(x,1),define(f,fun(y,do(set(x,+(x,y)),set(y,x)))),f(2))"
    let t := Compiler.new (utf8 " ")
    let text := (t.compile source).1.toOption.getD []
    (t.compile source).1 = .ok text
      ∧ (t.mentioned source).map (fun m => (m.name, m.owner, m.referent))
          = [(utf8 "x", 1, 1), (utf8 "y", 2, 2), (utf8 "x", 1, 1), (utf8 "x", 1, 1),
            (utf8 "y", 2, 2)]
      ∧ ∃ e r s, parse source = .ok e ∧ resolve e 1 t.start = .ok r s
          ∧ text = r.code.print t.indent
          ∧ ∀ before m after, r.trace = before ++ .look m true :: after →
              m.Placed r.code before after := by
  intro source t text
  have compiled : (t.compile source).1.isOk = true := by decide +kernel
  have compiles : (t.compile source).1 = .ok text := by
    change (t.compile source).1 = .ok ((t.compile source).1.toOption.getD [])
    cases done : (t.compile source).1 with
    | error d =>
      rw [done] at compiled
      cases compiled
    | ok code => rfl
  exact ⟨compiles, by decide +kernel, compile_referents t source text compiles⟩

/-- A function prints the `x` of the program and then defines one of its own: what it prints in
the code is its own. -/
theorem late_define_captures :
    let source := utf8 "do(define(x,1),define(f,fun(do(print(x),define(x,2)))),f())"
    let t := Compiler.new (utf8 "  ")
    (t.compile source).1.isOk = true
      ∧ (t.mentioned source).map (fun m => (m.name, m.owner, m.referent)) = [(utf8 "x", 1, 2)]
      ∧ ¬ ∀ m ∈ t.mentioned source, m.referent = m.owner := by
  decide +kernel

end EggLang.Compiler
