import EggLang.Proofs.Compiler.Reachable

/-!
# What a failed compilation reports

A source that does not parse is reported where reading stopped. A program is reported where its
lowering was refused, with what the compiler knew of the name there. Nothing is taken back after a
refusal, so the compiler that the failure leaves knows as much.
-/

namespace EggLang

theorem Place.Names.pos {place : Place} {source : Bytes} {offset : Nat}
    (h : place.Names source offset) : 1 ≤ place.line ∧ 1 ≤ place.column := by
  obtain ⟨_, _, _, _, _, column⟩ := h.column_eq
  have line := h.line_eq
  omega

theorem Reading.fault_code_mem (r : Reading) (rest : Bytes) :
    (r.fault rest).code ∈ ["P001", "P002", "P003"] := by
  match r with
  | start | argument _ _ | after _ [] | after _ (_ :: _) => simp [fault, Fault.code]

/-- A source that is no program is reported under a code of the parser, at a place of the source. -/
theorem parse_eq_error {source : Bytes} {d : Diagnostic} (fails : parse source = .error d) :
    d.code ∈ ["P001", "P002", "P003"] ∧ 1 ≤ d.line ∧ 1 ≤ d.column := by
  rw [parse] at fails
  cases stopped : (Stripped.ofSource source).parse with
  | ok e => simp only [stopped, Except.mapError] at fails; cases fails
  | error stop =>
    simp only [stopped, Except.mapError] at fails
    obtain rfl := Except.error.inj fails
    refine ⟨?_, (Stripped.place_names source stop.index).pos⟩
    change stop.fault.code ∈ _
    obtain ⟨r, -, -, rfl⟩ | ⟨front, x, back, r, -, -, -, rfl⟩ := Reading.run_error stopped
    · exact r.fault_code_mem []
    · exact r.fault_code_mem _

/-- Every expression of a program has a place of its source. -/
theorem place_pos_of_parse {source : Bytes} {e n : Expr} (parses : parse source = .ok e)
    (mem : n ∈ e.nodes) : 1 ≤ n.place.line ∧ 1 ≤ n.place.column := by
  obtain ⟨i, b, -, -, place, -⟩ := (laid_of_parse parses).sits n mem
  rw [place]
  exact (Stripped.place_names source i).pos

namespace Compiler

variable {e n : Expr} {env : Nat} {s t : State} {place : Place} {fault : Fault}

/-! ## The report -/

theorem Refuses.code_mem (h : Refuses e env s t fault place) :
    fault.code ∈ ["F001", "C001", "C002", "C003"] := by
  cases h <;> simp [Fault.code]

/-- What the report `d` of a failure tells of the program `e` that the compiler `t` was given and
of the compiler `t'` that was left. -/
structure Reports (t : Compiler) (e : Expr) (d : Diagnostic) (t' : Compiler) : Prop where
  located : ∃ n ∈ e.nodes, d.line = n.place.line ∧ d.column = n.place.column
  /-- The name of an undefined binding is written at the place. No program can make use of it. -/
  undefinedBinding : d.code = "C001" → ∃ name, ∃ n ∈ e.nodes,
    (n.word? = some name ∨ n.operator? = some name)
      ∧ d = .ofFault (.undefinedBinding name) n.place
      ∧ t'.functions.has name = false ∧ t'.root.owns name = false
  /-- What cannot be applied is the operator of a call at the place. In the frame and the state in
  which the call came to be lowered, the name was bound to code, and the compiler kept that
  state. -/
  notApplicable : d.code = "C002" → ∃ place name args env s c,
    .apply place name args ∈ e.nodes ∧ d = .ofFault (.notApplicable name) place
      ∧ SpecialForm.ofName? name = none ∧ t'.functions.has name = false
      ∧ Visits e 1 t.start (.apply place name args) env s ∧ t' = t.after s
      ∧ s.frames.get? env name = some (.code c)

theorem Refuses.reports {t : Compiler} {u v : State} (visits : Visits e 1 t.start n env u)
    (h : Refuses n env u v fault place) : Reports t e (.ofFault fault place) (t.after v) where
  located := by
    obtain ⟨m, mem, rfl⟩ := h.mem_nodes
    exact ⟨m, visits.nodes_subset mem, rfl, rfl⟩
  undefinedBinding code := by
    have rooted := visits.rooted t.rooted_start
    change fault.code = "C001" at code
    cases h with
    | word unbound new =>
      have mem := visits.nodes_subset (Expr.mem_nodes _)
      exact ⟨_, _, mem, .inl rfl, rfl, new, rooted.not_owns_root unbound⟩
    | operator plain unbound new =>
      have mem := visits.nodes_subset (Expr.mem_nodes _)
      exact ⟨_, _, mem, .inr rfl, rfl, new, rooted.not_owns_root unbound⟩
    | _ => exact absurd code (by simp [Fault.code])
  notApplicable code := by
    change fault.code = "C002" at code
    cases h with
    | notApplicable plain new bound =>
      have mem := visits.nodes_subset (Expr.mem_nodes _)
      exact ⟨_, _, _, env, u, _, mem, rfl, plain, new, visits, rfl, bound⟩
    | _ => exact absurd code (by simp [Fault.code])

/-- A compilation that fails reports a fault of the parser or the compiler at a place of the
source. If the source is a program, the place is that of one of its expressions, and what is said
of a name holds of the state that the compilation left. -/
theorem compile_reports (t : Compiler) (source : Bytes) (d : Diagnostic)
    (fails : (t.compile source).1 = .error d) :
    d.code ∈ ["P001", "P002", "P003", "F001", "C001", "C002", "C003"]
      ∧ 1 ≤ d.line ∧ 1 ≤ d.column
      ∧ ∀ e, parse source = .ok e → Reports t e d (t.compile source).2 := by
  cases parses : parse source with
  | error stopped =>
    rw [compile, parses] at fails
    obtain rfl := Except.error.inj fails
    obtain ⟨code, line, column⟩ := parse_eq_error parses
    exact ⟨List.mem_append_left _ code, line, column, by rintro _ ⟨⟩⟩
  | ok e =>
    rw [compile_eq t parses] at fails ⊢
    cases run : evaluate e 1 t.start with
    | ok value u =>
      rw [run] at fails
      cases fails
    | error stopped u =>
      rw [run] at fails
      obtain rfl := Except.error.inj fails
      obtain ⟨n, env, s, fault, place, visits, refused, rfl⟩ := exists_refusal run
      have reports := refused.reports visits
      obtain ⟨m, mem, line, column⟩ := reports.located
      obtain ⟨line_pos, column_pos⟩ := place_pos_of_parse parses mem
      refine ⟨List.mem_append_right ["P001", "P002", "P003"] refused.code_mem, ?_, ?_, ?_⟩
      · rwa [line]
      · rwa [column]
      · rintro _ ⟨⟩
        exact reports

/-- A parameter that hides a primitive is called: the failure is that of the call in the body of
the function, which is registered by then. -/
theorem compile_reports_shadowed :
    let source := utf8 "do(define(f,fun(length,length(2))),f(1))"
    let t := Compiler.new (utf8 "  ")
    let d : Diagnostic := .ofFault (.notApplicable (utf8 "length")) ⟨23, 1, 24⟩
    (t.compile source).1 = .error d
      ∧ (t.compile source).2.functions.has (utf8 "f") = true
      ∧ d.code ∈ ["P001", "P002", "P003", "F001", "C001", "C002", "C003"]
      ∧ 1 ≤ d.line ∧ 1 ≤ d.column
      ∧ ∀ e, parse source = .ok e → Reports t e d (t.compile source).2 := by
  intro source t d
  have fails : (t.compile source).1 = .error d := by decide +kernel
  exact ⟨fails, by decide +kernel, compile_reports t source d fails⟩

end Compiler

end EggLang
