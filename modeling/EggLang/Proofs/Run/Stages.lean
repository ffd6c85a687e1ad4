import EggLang.Run.Job

/-!
# Stages up to the first failure

Reading, lowering and executing may be asked of a job in any order and any number of times. A stage
does nothing once a failure is recorded, and nothing where what it works on is not there. So a job
has at most one failure, the first one; it has code only with a tree and a result only with code;
and after a failure nothing of it changes and no executor is called.
-/

namespace EggLang.Job

variable {j k : Job} {t u : Compiler} {stage : Stage} {d : Diagnostic}

/-! ## Calls of executors -/

/-- What executing a job asks of an executor: to run the text of the code under the allowance.
Nothing is asked without code or once a failure is recorded. -/
def request? (j : Job) : Option (Allowance × Bytes) :=
  if j.hasFailed || j.program.isNone then none else some (j.allowance, j.output)

/-- The job with what an executor reports on it. -/
def receive (j : Job) (report : Report) : Job :=
  let done := match report.execution with
    | some e => { j with result := e.value, console := e.output }
    | none => j
  match report.trouble with
  | some trouble => done.record (.runtime trouble.message)
  | none => done

/-- An executor is called with the request of the job, and only if there is one. -/
theorem execute_eq (j : Job) (executor : Executor) :
    j.execute executor = match j.request? with
      | some (allowance, text) => j.receive (executor.execute allowance text)
      | none => j := by
  unfold execute request?
  split <;> rfl

/-- The call of an executor that a stage makes. -/
def callOf? (j : Job) : Stage → Option (Allowance × Bytes)
  | .execute _ => j.request?
  | .read | .lower _ => none

/-- The calls of executors that stages make, in order. -/
def calls (j : Job) (t : Compiler) : List Stage → List (Allowance × Bytes)
  | [] => []
  | stage :: rest =>
    (j.callOf? stage).toList ++ calls (j.advance t stage).1 (j.advance t stage).2 rest

/-! ## One stage -/

/-- The error that a stage comes to. -/
inductive Raises (j : Job) (t : Compiler) : Stage → Diagnostic → Prop where
  | read {d : Diagnostic} : parse j.source = .error d → Raises j t .read d
  | lower {returns : Bool} {tree : Expr} {d : Diagnostic} : j.tree = some tree →
      (t.lower tree).1 = .error d → Raises j t (.lower returns) d
  | execute {executor : Executor} {allowance : Allowance} {text : Bytes} {trouble : Trouble} :
      j.request? = some (allowance, text) →
      (executor.execute allowance text).trouble = some trouble →
      Raises j t (.execute executor) (.runtime trouble.message)

/-- What a job has of the stages so far: code only from a tree, a result and console output only of
code, and at most one failure, which names the file of the job unless it names one itself. -/
structure Ordered (j : Job) : Prop where
  single : j.failures.length ≤ 1
  filed : ∀ d ∈ j.failures, d.file = [] → j.path = []
  program : j.program.isSome = true → j.tree.isSome = true
  result : j.result ≠ .null → j.program.isSome = true
  console : j.console ≠ [] → j.program.isSome = true

theorem advance_of_failed (failed : j.failures ≠ []) (t : Compiler) (stage : Stage) :
    j.advance t stage = (j, t) ∧ j.callOf? stage = none := by
  have flag : j.hasFailed = true := by simpa [hasFailed] using failed
  cases stage <;> simp [advance, callOf?, request?, read, lower, execute, flag]

/-- The file of a recorded error. -/
theorem filed_inFile {path : Bytes} (unnamed : (d.inFile path).file = []) : path = [] := by
  unfold Diagnostic.inFile at unnamed
  split at unnamed
  · exact unnamed
  · next named => simp [unnamed] at named

theorem Ordered.record (h : j.Ordered) (fresh : j.failures = []) (d : Diagnostic) :
    (j.record d).Ordered where
  single := by simp [Job.record, fresh]
  filed d' mem unnamed := by
    obtain rfl : d' = d.inFile j.path := by simpa [Job.record, fresh] using mem
    exact filed_inFile unnamed
  program := h.program
  result := h.result
  console := h.console

theorem Ordered.receive (h : j.Ordered) (fresh : j.failures = []) (code : j.program.isSome = true)
    (report : Report) : (j.receive report).Ordered := by
  have executed (e : Execution) : Ordered { j with result := e.value, console := e.output } :=
    ⟨h.single, h.filed, h.program, fun _ => code, fun _ => code⟩
  unfold Job.receive
  dsimp only
  split <;> split
  · exact (executed _).record fresh _
  · exact h.record fresh _
  · exact executed _
  · exact h

theorem program_of_request {call : Allowance × Bytes} (asks : j.request? = some call) :
    j.failures = [] ∧ j.program.isSome = true := by
  unfold request? at asks
  split at asks
  · cases asks
  · next ready =>
    simp only [Bool.or_eq_true, not_or, hasFailed, Bool.not_eq_true, Bool.not_eq_false'] at ready
    exact ⟨List.isEmpty_iff.1 ready.1, by simpa [Option.isNone_eq_false_iff] using ready.2⟩

/-- A stage keeps the order and what the job was given. -/
theorem Ordered.advance (h : j.Ordered) (t : Compiler) (stage : Stage) :
    (j.advance t stage).1.Ordered ∧ (j.advance t stage).1.path = j.path := by
  by_cases fresh : j.failures = []
  · have flag : j.hasFailed = false := by simp [hasFailed, fresh]
    cases stage with
    | read =>
      cases parses : parse j.source with
      | error d =>
        simp only [Job.advance, Job.read, flag, parses]
        exact ⟨h.record fresh d, rfl⟩
      | ok tree =>
        simp only [Job.advance, Job.read, flag, parses]
        exact ⟨⟨h.single, h.filed, fun _ => rfl, h.result, h.console⟩, rfl⟩
    | lower returns =>
      cases rooted : j.tree with
      | none =>
        simp only [Job.advance, Job.lower, flag, rooted]
        exact ⟨h, rfl⟩
      | some tree =>
        rcases lowered : t.lower tree with ⟨d | code, u⟩
        · simp only [Job.advance, Job.lower, flag, rooted, lowered]
          exact ⟨h.record fresh d, rfl⟩
        · simp only [Job.advance, Job.lower, flag, rooted, lowered]
          exact ⟨⟨h.single, h.filed, fun _ => by simp, fun _ => rfl, fun _ => rfl⟩, rfl⟩
    | execute executor =>
      simp only [Job.advance, execute_eq]
      split
      · next asks =>
        have code := (program_of_request asks).2
        refine ⟨h.receive fresh code _, ?_⟩
        unfold Job.receive
        dsimp only
        split <;> split <;> rfl
      · exact ⟨h, rfl⟩
  · rw [(advance_of_failed fresh t stage).1]
    exact ⟨h, rfl⟩

/-- A stage of a job without a failure comes to an error and records it, or comes to none. -/
theorem advance_cases (fresh : j.failures = []) (t : Compiler) (stage : Stage) :
    ((j.advance t stage).1.failures = [] ∧ ∀ d, ¬ Raises j t stage d)
      ∨ ∃ d, Raises j t stage d ∧ (j.advance t stage).1.failures = [d.inFile j.path] := by
  have flag : j.hasFailed = false := by simp [hasFailed, fresh]
  cases stage with
  | read =>
    cases parses : parse j.source with
    | error d => exact .inr ⟨d, .read parses, by simp [advance, read, flag, parses, record, fresh]⟩
    | ok tree =>
      refine .inl ⟨by simp [advance, read, flag, parses, fresh], ?_⟩
      rintro d ⟨fails⟩
      cases parses.symm.trans fails
  | lower returns =>
    cases rooted : j.tree with
    | none =>
      refine .inl ⟨by simp [advance, lower, flag, rooted, fresh], ?_⟩
      rintro d (_ | ⟨there, _⟩)
      cases rooted.symm.trans there
    | some tree =>
      rcases lowered : t.lower tree with ⟨d | code, u⟩
      · exact .inr ⟨d, .lower rooted (by rw [lowered]),
          by simp [advance, lower, flag, rooted, lowered, record, fresh]⟩
      · refine .inl ⟨by simp [advance, lower, flag, rooted, lowered, fresh], ?_⟩
        rintro d (_ | ⟨there, fails⟩)
        cases rooted.symm.trans there
        rw [lowered] at fails
        cases fails
  | execute executor =>
    cases asks : j.request? with
    | none =>
      refine .inl ⟨by simp [advance, execute_eq, asks, fresh], ?_⟩
      rintro d (_ | _ | ⟨request, _⟩)
      cases asks.symm.trans request
    | some call =>
      obtain ⟨allowance, text⟩ := call
      cases report : (executor.execute allowance text).trouble with
      | some trouble =>
        refine .inr ⟨_, .execute asks report, ?_⟩
        simp only [advance, execute_eq, asks, receive, report]
        split <;> simp [record, fresh]
      | none =>
        refine .inl ⟨?_, ?_⟩
        · simp only [advance, execute_eq, asks, receive, report]
          split <;> exact fresh
        · rintro d (_ | _ | ⟨request, fails⟩)
          cases asks.symm.trans request
          cases report.symm.trans fails

/-! ## Runs of stages -/

theorem runStages_cons (j : Job) (t : Compiler) (stage : Stage) (rest : List Stage) :
    j.runStages t (stage :: rest)
      = (j.advance t stage).1.runStages (j.advance t stage).2 rest := rfl

theorem Ordered.runStages (h : j.Ordered) (t : Compiler) (stages : List Stage) :
    (j.runStages t stages).1.Ordered := by
  induction stages generalizing j t with
  | nil => exact h
  | cons stage rest ih => exact ih (h.advance t stage).1 _

/-- Nothing happens to a job any more, whatever is asked of it. -/
def Frozen (j : Job) (t : Compiler) : Prop :=
  ∀ stages, j.runStages t stages = (j, t) ∧ j.calls t stages = []

theorem frozen_of_failed (failed : j.failures ≠ []) (t : Compiler) : j.Frozen t := by
  intro stages
  induction stages with
  | nil => exact ⟨rfl, rfl⟩
  | cons stage rest ih =>
    obtain ⟨stays, silent⟩ := advance_of_failed failed t stage
    rw [runStages_cons, calls, stays, silent]
    exact ih

/-- A run fails at a stage: the stages before it record nothing, it comes to an error, and the run
stays where it records it. -/
structure FailsAt (start : Job) (t : Compiler) (before : List Stage) (stage : Stage)
    (d : Diagnostic) (j : Job) (u : Compiler) : Prop where
  fresh : (start.runStages t before).1.failures = []
  raises : Raises (start.runStages t before).1 (start.runStages t before).2 stage d
  reaches : start.runStages t (before ++ [stage]) = (j, u)
  records : j.failures = [d.inFile start.path]
  frozen : j.Frozen u

/-- No stage of a run comes to an error. -/
def Succeeds (start : Job) (t : Compiler) (stages : List Stage) : Prop :=
  (start.runStages t stages).1.failures = []
    ∧ ∀ before stage after d, stages = before ++ stage :: after →
      ¬ Raises (start.runStages t before).1 (start.runStages t before).2 stage d

theorem run_cases (h : j.Ordered) (fresh : j.failures = []) (t : Compiler) (stages : List Stage) :
    j.Succeeds t stages ∨ ∃ before stage after d, stages = before ++ stage :: after
      ∧ j.FailsAt t before stage d (j.runStages t stages).1 (j.runStages t stages).2 := by
  induction stages generalizing j t with
  | nil => exact .inl ⟨fresh, fun before _ _ _ split => by simp at split⟩
  | cons stage rest ih =>
    obtain ⟨ordered, path⟩ := h.advance t stage
    rcases advance_cases fresh t stage with ⟨clear, none⟩ | ⟨d, raises, records⟩
    · rcases ih ordered clear (j.advance t stage).2 with
        ⟨done, never⟩ | ⟨before, failing, after, d, rfl, fails⟩
      · refine .inl ⟨done, fun before failing after d split => ?_⟩
        cases before with
        | nil =>
          obtain ⟨rfl, -⟩ := List.cons.inj split
          exact none d
        | cons first before =>
          obtain ⟨rfl, same⟩ := List.cons.inj split
          exact never before failing after d same
      · exact .inr ⟨stage :: before, failing, after, d, rfl, fails.fresh, fails.raises,
          fails.reaches, path ▸ fails.records, fails.frozen⟩
    · have frozen := frozen_of_failed (by simp [records] : (j.advance t stage).1.failures ≠ [])
        (j.advance t stage).2
      have stays : j.runStages t (stage :: rest) = j.advance t stage := (frozen rest).1
      refine .inr ⟨[], stage, rest, d, rfl, fresh, raises, ?_, ?_, ?_⟩
      · rw [stays]
        rfl
      · rw [stays]
        exact records
      · rw [stays]
        exact frozen

/-- Stages of any number and order on a new job, with a compiler in any state: either none of them
comes to an error, or the first one that does records it under the file of the job and freezes job
and compiler, with no further call of an executor. In all cases at most one failure is recorded,
code is there only with a tree, and a result and console output only with code. -/
theorem freezes_at_first_failure (source path : Bytes) (allowance : Allowance) (t : Compiler)
    (stages : List Stage) :
    let start : Job := { source, path, allowance }
    let done := start.runStages t stages
    done.1.Ordered ∧ (start.Succeeds t stages ∨ ∃ before stage after d,
      stages = before ++ stage :: after ∧ start.FailsAt t before stage d done.1 done.2) := by
  intro start done
  have new : start.Ordered := ⟨by simp [start], by simp [start], nofun, by simp [start],
    by simp [start]⟩
  exact ⟨new.runStages t stages, run_cases new rfl t stages⟩

end EggLang.Job
