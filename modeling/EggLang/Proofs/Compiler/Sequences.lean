import EggLang.Proofs.Compiler.Apart
import EggLang.Proofs.Compiler.Placement
import EggLang.Proofs.Script.Sequence
import EggLang.Run.Select
import EggLang.Run.Job

/-!
# Programs in sequence

The arguments of a `do` that define no common names are compiled as each of them is alone. If the
text is read as the statements of the one behind those of the other, then it is run as they are
alone: it finishes where they do, and writes what they write.
-/

namespace EggLang

/-! ## Runs in fresh sessions -/

namespace Job

/-- A source that is run in a fresh session, with a number of machine steps. -/
def running (indent source : Bytes) (budget : Nat) : Job × Compiler :=
  runStages { source, allowance := .steps budget } (.new indent)
    [.read, .lower true, .execute Embedded.executor]

variable {indent source text : Bytes} {budget : Nat} {e : Expr} {c : Code}

/-- The job of a source that compiles, before it is executed. -/
def compiled (indent source : Bytes) (budget : Nat) (e : Expr) (c : Code) : Job where
  source
  allowance := .steps budget
  tree := some e
  program := some (shape true c)
  output := Code.print indent (shape true c)

theorem running_eq (read : parse source = .ok e)
    (lowered : ((Compiler.new indent).lower e).1 = .ok c) :
    running indent source budget
      = ((compiled indent source budget e c).execute Embedded.executor,
          ((Compiler.new indent).lower e).2) := by
  have same : ((Compiler.new indent).lower e).2.indent = indent := by
    rw [Compiler.lower_eq]
    rfl
  generalize at_e : (Compiler.new indent).lower e = result at lowered same
  obtain ⟨answer, t⟩ := result
  obtain rfl : answer = .ok c := lowered
  obtain rfl : t.indent = indent := same
  have first : Job.read { source, allowance := .steps budget }
      = { source, allowance := .steps budget, tree := some e } := by
    simp [Job.read, hasFailed, read]
  have second : Job.lower true { source, allowance := .steps budget, tree := some e }
      (Compiler.new t.indent) = (compiled t.indent source budget e c, t) := by
    simp [Job.lower, hasFailed, at_e, Compiler.print, compiled]
  change (fun made : Job × Compiler => (made.1.execute Embedded.executor, made.2))
    (Job.lower true (Job.read { source, allowance := .steps budget }) (Compiler.new t.indent)) = _
  rw [first, second]

/-- A run has no failures and writes a text just where the script comes to a value and writes
it. -/
theorem running_ran (read : parse source = .ok e)
    (lowered : ((Compiler.new indent).lower e).1 = .ok c) :
    (running indent source budget).1.failures = []
        ∧ (running indent source budget).1.console = text
      ↔ ∃ d, Script.evaluate budget (Executor.wrap (Code.print indent (shape true c)))
          = (.value d, text) := by
  rw [running_eq read lowered]
  generalize at_script : Script.evaluate budget (Executor.wrap (Code.print indent (shape true c)))
    = result
  obtain ⟨ending, output⟩ := result
  simp only [compiled, execute, hasFailed, Embedded.executor, Embedded.execute, at_script]
  cases ending <;> simp [record]

end Job

namespace Compiler

open Script.Parser (wrapper)

variable {source indent : Bytes} {place : Place} {args : List Expr} {e e' : Expr} {cs : List Code}

/-! ## Programs alone -/

/-- Places have no part in what a program is lowered to. -/
theorem evaluate_congr {s t : State} {b : Binding} (same : e'.forgetPlaces = e.forgetPlaces)
    (ok : evaluate e' 1 s = .ok b t) : evaluate e 1 s = .ok b t := by
  have forgets : forgetPlace (evaluate e 1) s = .ok b t := by
    rw [← unplaced e 1, ← same, unplaced e' 1, forgetPlace, ok]
  rw [forgetPlace] at forgets
  cases run : evaluate e 1 s with
  | ok b' t' =>
    rw [run] at forgets
    exact forgets
  | error d t' =>
    rw [run] at forgets
    cases forgets

/-- A program that is run in a fresh session: its source, how many steps its run may take, its code,
and the statements as which that is read. -/
structure Trial where
  source : Bytes
  budget : Nat
  code : Code
  body : List Script.Stmt

namespace Trial

def run (indent : Bytes) (a : Trial) : Job × Compiler := Job.running indent a.source a.budget

def output (indent : Bytes) (a : Trial) : Bytes := (a.run indent).1.console

/-- The script that is executed. -/
def script (indent : Bytes) (a : Trial) : Bytes :=
  Executor.wrap (Code.print indent (Job.shape true a.code))

end Trial

/-- An expression finishes alone without an error. Its script calls no functions but its own and
that which prints, and it leaves the names of the root as they are. -/
structure FinishesAlone (indent : Bytes) (e : Expr) (a : Trial) : Prop where
  read : ∃ e', parse a.source = .ok e' ∧ e'.forgetPlaces = e.forgetPlaces
    ∧ ((Compiler.new indent).lower e').1 = .ok a.code
  ends : (a.run indent).1.failures = []
  root : (a.run indent).2.rootChanges = 0
  body : Script.Executes (a.script indent) a.body
  quiet : Script.RunsQuietly (a.script indent)

theorem FinishesAlone.lowers {a : Trial} (h : FinishesAlone indent e a) :
    LowersAlone indent e a.code := by
  obtain ⟨e', read, same, lowered⟩ := h.read
  have kept := h.root
  rw [Trial.run, Job.running_eq read lowered] at kept
  rw [lower_eq] at lowered kept
  cases run : evaluate e' 1 (Compiler.new indent).start with
  | error d t =>
    rw [run] at lowered
    cases lowered
  | ok b t =>
    rw [run] at lowered kept
    exact ⟨b, t, evaluate_congr same run, Except.ok.inj lowered, kept⟩

theorem FinishesAlone.writes {a : Trial} (h : FinishesAlone indent e a) :
    Script.WritesAlone Script.Start.store a.body (a.output indent) := by
  obtain ⟨e', read, -, lowered⟩ := h.read
  obtain ⟨d, gives⟩ := (Job.running_ran read lowered).1 ⟨h.ends, rfl⟩
  exact Script.writesAlone_of_evaluate h.body h.quiet gives

theorem FinishesAlone.write {alone : List Trial}
    (finish : List.Forall₂ (FinishesAlone indent) args alone) :
    List.Forall₂ (Script.WritesAlone Script.Start.store) (alone.map (·.body))
      (alone.map (·.output indent)) := by
  induction finish with
  | nil => exact .nil
  | cons first _ ih => exact .cons first.writes ih

/-! ## Programs one behind the other -/

end Compiler

end EggLang
