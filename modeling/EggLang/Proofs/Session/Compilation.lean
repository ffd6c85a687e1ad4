import EggLang.Session.Basic
import EggLang.Proofs.Compiler.Locality
import EggLang.Proofs.Expr.Names

/-!
# What a call leaves of a session

`compile` without a cache and `run` both take the compiler of a session to what compiling the
source leaves of it. A compiler that has seen programs only is *regular*: its registry is a sorted
list of words, and its root is that of a new compiler unless a change of it was counted. So a
regular compiler with no change counted is determined by its indentation and its registry.
-/

namespace EggLang

namespace Compiler

/-- What holds of a compiler whatever it has compiled. -/
structure Regular (t : Compiler) : Prop where
  sorted : t.functions.Sorted
  words : ∀ n ∈ t.functions.names, Grammar.IsWord n
  root : t.rootChanges = 0 → t.root = rootBindings Primitive.all

theorem Regular.new (indent : Bytes) : (new indent).Regular where
  sorted := Registry.sorted_empty
  words n mem := by cases mem
  root _ := rfl

/-- The compiler after a compilation: unchanged if the source is no program, and otherwise what
steps over the words of the program leave. -/
theorem compile_cases (t : Compiler) (source : Bytes) :
    (t.compile source).2 = t
      ∨ ∃ e s, parse source = .ok e ∧ Steps e.names t.start s
          ∧ (t.compile source).2 = t.after s := by
  cases parses : parse source with
  | error d => exact Or.inl (by rw [compile, parses])
  | ok e => exact Or.inr ⟨e, _, rfl, t.lower_steps e, by rw [compile_eq t parses]⟩

theorem Regular.compile {t : Compiler} (h : t.Regular) (source : Bytes) :
    (t.compile source).2.Regular := by
  rcases t.compile_cases source with same | ⟨e, s, parses, run, after⟩
  · rwa [same]
  · rw [after]
    refine ⟨run.sorted h.sorted, fun n mem => ?_, ?_⟩
    · by_cases inside : n ∈ e.names
      · exact isWord_of_parse parses n inside
      · have kept := run.has_outside inside
        exact h.words n (Registry.has_iff.1 (kept ▸ Registry.has_iff.2 mem))
    · exact run.root_of_rootChanges t.start_size_pos h.root

theorem mem_compile {t : Compiler} {n : Bytes} (h : n ∈ t.functions.names) (source : Bytes) :
    n ∈ (t.compile source).2.functions.names := by
  rcases t.compile_cases source with same | ⟨e, s, _, run, after⟩
  · rwa [same]
  · rw [after]
    exact Registry.has_iff.1 (run.has_of_has (Registry.has_iff.2 h))

theorem indent_compile (t : Compiler) (source : Bytes) :
    (t.compile source).2.indent = t.indent := by
  rcases t.compile_cases source with same | ⟨e, s, _, _, after⟩
  · rw [same]
  · rw [after]
    rfl

/-- Without counted changes of the root, a compiler is its indentation and its registry. -/
theorem Regular.ext {t u : Compiler} (ht : t.Regular) (hu : u.Regular)
    (clean : t.rootChanges = 0) (clean' : u.rootChanges = 0) (indent : t.indent = u.indent)
    (functions : t.functions = u.functions) : t = u := by
  have root : t.root = u.root := (ht.root clean).trans (hu.root clean').symm
  obtain ⟨i, f, r, c⟩ := t
  obtain ⟨i', f', r', c'⟩ := u
  simp only at indent functions root clean clean'
  rw [indent, functions, root, clean, clean']

/-- A compilation that leaves the root alone changes nothing but the registry. -/
theorem Regular.compile_eq {t : Compiler} (h : t.Regular) {source : Bytes}
    (clean : t.rootChanges = 0) (clean' : (t.compile source).2.rootChanges = 0) :
    (t.compile source).2 = { t with functions := (t.compile source).2.functions } := by
  have after := h.compile source
  have restored : Regular { t with functions := (t.compile source).2.functions } :=
    ⟨after.sorted, after.words, h.root⟩
  exact after.ext restored clean' clean (t.indent_compile source) rfl

end Compiler

/-- Reading and lowering leave the compiler as compiling does, whatever becomes of the code. -/
theorem Job.compiler_lower_read (j : Job) (fresh : j.hasFailed = false) (returns : Bool)
    (t : Compiler) : (j.read.lower returns t).2 = (t.compile j.source).2 := by
  have not_failed : ¬ j.hasFailed = true := by simp [fresh]
  rw [read, if_neg not_failed]
  cases parses : parse j.source with
  | error d => simp [lower, hasFailed, record, Compiler.compile, parses]
  | ok e =>
    have not_failed' : ¬ ({ j with tree := some e } : Job).hasFailed = true := not_failed
    simp only [lower, if_neg not_failed', Compiler.compile, parses]
    rcases t.lower e with ⟨_ | code, u⟩ <;> rfl

namespace Session

/-- Compiling without a cache is compiling, with the path of the source in a diagnostic. -/
theorem compileAfresh_eq (s : Session) (path source : Bytes) :
    s.compileAfresh path source
      = ((s.compiler.compile source).1.mapError fun d => .diagnostic (d.inFile path),
          { s with compiler := (s.compiler.compile source).2 }) := by
  let located (d : Diagnostic) : Failure := .diagnostic (d.inFile path)
  have mapped_ok (output : Bytes) : (Except.ok output).mapError located = .ok output := rfl
  have mapped_error (d : Diagnostic) :
      (Except.error d : Except Diagnostic Bytes).mapError located = .error (located d) := rfl
  cases parses : parse source with
  | error d =>
    simp [compileAfresh, Job.runStages, Job.advance, Job.read, Job.lower, Job.hasFailed,
      Job.record, Job.failure?, Compiler.compile, parses, mapped_error, located]
  | ok e =>
    rcases lowered : s.compiler.lower e with ⟨_ | code, t⟩ <;>
    simp [compileAfresh, Job.runStages, Job.advance, Job.read, Job.lower, Job.hasFailed,
      Job.record, Job.failure?, Job.shape, Compiler.compile, parses, lowered, mapped_ok,
      mapped_error, located]

theorem run_session (s : Session) (path source : Bytes) (cancelled : Bool) :
    (s.run path source cancelled).2 = { s with compiler := (s.compiler.compile source).2 } := by
  let job : Job := { source, path, allowance := s.allowance cancelled }
  have left : (job.runStages s.compiler [.read, .lower true, .execute s.executor]).2
      = (s.compiler.compile source).2 := job.compiler_lower_read rfl true s.compiler
  rw [← left]
  simp only [run]
  split <;> rfl

end Session

end EggLang
