import EggLang.Proofs.Compiler.Closing
import EggLang.Proofs.Session.Root

/-!
# Running a source translates it as compiling it does

`compile` may take its answer from a cache and leaves the program as it is; `run` never asks the
cache and returns the value of the program. They fail with the same error, or the code that is run
is the compiled text, behind a `return` unless the program is a statement. What they leave of the
session is the same, and a run that gives no result gives an error.
-/

namespace EggLang

namespace Compiler

variable {args : List Expr} {env : Nat} {s t : State} {b : Binding} {place : Place}
  {codes : List Code} {form : SpecialForm}

/-- An operation of the library on code is code. -/
theorem expand_present (p : Primitive) (each : ∀ c ∈ codes, c ≠ .absent) :
    p.expand codes ≠ .absent := by
  have joined (operator : Bytes) : Primitive.joinAll operator codes ≠ .absent := by
    match codes, each with
    | [], _ => exact nofun
    | [c], each => exact each c List.mem_cons_self
    | _ :: _ :: _, _ => exact nofun
  cases p with
  | add | subtract | multiply | divide => exact joined _
  | equal | less | greater | print | array | length | element => exact nofun

theorem lowerFun_present {params : List Bytes}
    (run : lowerFun place params args env s = .ok b t) : b.toCode ≠ .absent := by
  induction args generalizing params with
  | nil => cases run
  | cons arg rest ih =>
    cases rest with
    | nil =>
      rw [lowerFun] at run
      obtain ⟨_, _, -, run⟩ := bind_eq_ok run
      obtain ⟨_, _, -, run⟩ := bind_eq_ok run
      cases run
      intro absent
      cases absent
    | cons next later =>
      rw [lowerFun] at run
      · cases word : arg.word? with
        | none =>
          simp only [word] at run
          cases run
        | some name =>
          simp only [word] at run
          exact ih run
      · simp

theorem lowerForm_present (run : lowerForm form place args env s = .ok b t) :
    b.toCode ≠ .absent := by
  cases form with
  | «if» =>
    change lowerIf place args env s = _ at run
    unfold lowerIf at run
    split at run
    next =>
      obtain ⟨_, _, -, run⟩ := bind_eq_ok run
      obtain ⟨_, _, -, run⟩ := bind_eq_ok run
      obtain ⟨_, _, -, run⟩ := bind_eq_ok run
      cases run
      exact nofun
    next => cases run
  | «while» =>
    change lowerWhile place args env s = _ at run
    unfold lowerWhile at run
    split at run
    next =>
      obtain ⟨_, _, -, run⟩ := bind_eq_ok run
      obtain ⟨_, _, -, run⟩ := bind_eq_ok run
      cases run
      exact nofun
    next => cases run
  | «do» =>
    obtain ⟨_, _, -, run⟩ := bind_eq_ok run
    cases run
    exact nofun
  | define =>
    obtain ⟨_, _, _, _, _, -, -, ⟨-, -, rfl, -⟩ | ⟨-, -, ⟨-, rfl, -⟩ | ⟨-, rfl, -⟩⟩⟩ :=
      lowerDefine_ok run
    all_goals exact nofun
  | set =>
    obtain ⟨_, _, _, _, _, _, _, -, -, -, -, rfl, -⟩ := lowerSet_ok run
    exact nofun
  | «fun» => exact lowerFun_present run

theorem lowerAll_present (run : lowerAll args env s = .ok codes t)
    (each : ∀ arg ∈ args, ∀ {s t : State} {b : Binding}, evaluate arg env s = .ok b t →
      b.toCode ≠ .absent) :
    ∀ c ∈ codes, c ≠ .absent := by
  induction args generalizing s codes with
  | nil =>
    rw [lowerAll] at run
    cases run
    intro c mem
    cases mem
  | cons e rest ih =>
    obtain ⟨value, u, others, first, more, rfl⟩ := lowerAll_cons_ok run
    obtain ⟨here, later⟩ := List.forall_mem_cons.1 each
    exact List.forall_mem_cons.2 ⟨here first, ih more later⟩

/-- What an expression is lowered to is never the absence of code. -/
theorem evaluate_present (e : Expr) {env : Nat} {s t : State} {b : Binding}
    (run : evaluate e env s = .ok b t) : b.toCode ≠ .absent := by
  have words {place : Place} {name : Bytes} {s t : State} {b : Binding}
      (run : evaluateWord place name env s = .ok b t) : b.toCode ≠ .absent := by
    intro absent
    have returned := returning_of_word run
    rw [absent] at returned
    cases returned
  match e with
  | .number _ _ =>
    rw [evaluate] at run
    cases run
    intro absent
    cases absent
  | .string _ _ =>
    rw [evaluate] at run
    cases run
    intro absent
    cases absent
  | .word place name => rw [evaluate] at run; exact words run
  | .closure operator args =>
    rw [evaluate] at run
    obtain ⟨_, _, -, run⟩ := bind_eq_ok run
    obtain ⟨_, _, -, run⟩ := bind_eq_ok run
    cases run
    intro absent
    cases absent
  | .apply place name args =>
    cases named : SpecialForm.ofName? name with
    | some form =>
      rw [evaluate_form named] at run
      exact lowerForm_present run
    | none =>
      rw [evaluate_apply named] at run
      split at run
      next =>
        obtain ⟨_, _, -, run⟩ := bind_eq_ok run
        cases run
        intro absent
        cases absent
      next =>
        obtain ⟨value, u, -, run⟩ := bind_eq_ok run
        cases value with
        | code => cases run
        | primitive p =>
          -- an operand of an operation may be all that it is lowered to
          obtain ⟨codes, v, operands, run⟩ := bind_eq_ok run
          cases run
          refine expand_present p (lowerAll_present operands fun arg mem _ _ _ run => ?_)
          have := List.sizeOf_lt_of_mem mem
          exact evaluate_present arg run
termination_by sizeOf e
decreasing_by simp_wf; omega

/-- The code of a program is not absent. -/
theorem lower_present {t u : Compiler} {e : Expr} {code : Code} (ok : t.lower e = (.ok code, u)) :
    code ≠ .absent := by
  rw [lower_eq] at ok
  cases run : evaluate e 1 t.start with
  | error d s =>
    rw [run] at ok
    cases ok
  | ok value s =>
    rw [run] at ok
    cases ok
    exact evaluate_present e run

end Compiler

/-- A statement is written as it is where its value is returned, and all other code behind the
keyword. -/
theorem Code.print_returning {code : Code} (present : code ≠ .absent) (indent : Bytes) :
    code.returning.print indent
      = if code.isStatement then code.print indent else utf8 "return " ++ code.print indent := by
  have behind (value : Code) (some : value.isAbsent = Bool.false) :
      (Code.return value).print indent = utf8 "return " ++ value.print indent := by
    rw [print, render, lines, some]
    rfl
  cases code with
  | absent => exact absurd rfl present
  | effect | «return» | «if» | «while» | var | assign | block => rfl
  | raw | operation | call | function | array | member | index => exact behind _ rfl

namespace Job

variable {j : Job} {t : Compiler}

/-- Executing adds to what a job has and changes nothing of its code. -/
theorem program_execute (j : Job) (executor : Executor) :
    (j.execute executor).program = j.program ∧ (j.execute executor).output = j.output := by
  unfold execute
  split
  · exact ⟨rfl, rfl⟩
  · dsimp only
    split <;> split <;> simp [record]

/-- Where reading and lowering end with an error, nothing is executed. -/
theorem execute_of_error {d : Diagnostic} (fresh : j.failures = [])
    (fails : (t.compile j.source).1 = .error d) (returns : Bool) (executor : Executor) :
    (((j.read.lower returns t).1).execute executor).program = j.program
      ∧ (((j.read.lower returns t).1).execute executor).failure? = some (d.inFile j.path) := by
  cases parses : parse j.source with
  | error d' =>
    obtain rfl : d' = d := by simpa [Compiler.compile, parses] using fails
    simp [read, lower, execute, record, failure?, parses, hasFailed, fresh]
  | ok e =>
    rcases lowered : t.lower e with ⟨_ | code, u⟩
    · simp only [Compiler.compile, parses, lowered, Except.error.injEq] at fails
      subst fails
      simp [read, lower, execute, record, failure?, parses, hasFailed, fresh, lowered]
    · simp [Compiler.compile, parses, lowered] at fails

end Job

namespace Session

variable {s : Session} {source text : Bytes}

/-- A run as its job leaves it. -/
theorem run_answer (s : Session) (path source : Bytes) (cancelled : Bool) :
    let job : Job := { source, path, allowance := s.allowance cancelled }
    let done := (job.read.lower true s.compiler).1.execute s.executor
    (s.run path source cancelled).1
      = (done.program.map fun _ => ⟨done.result, done.console, done.output⟩,
          done.failure?.map .diagnostic) := by
  intro job done
  have stages : job.runStages s.compiler [.read, .lower true, .execute s.executor]
      = (done, (job.read.lower true s.compiler).2) := rfl
  unfold run
  simp only [job] at stages
  simp only [stages]
  cases done.program <;> rfl

theorem run_of_error {d : Diagnostic} (fails : (s.compiler.compile source).1 = .error d)
    (path : Bytes) (cancelled : Bool) :
    (s.run path source cancelled).1 = (none, some (.diagnostic (d.inFile path))) := by
  let job : Job := { source, path, allowance := s.allowance cancelled }
  obtain ⟨program, failure⟩ :=
    job.execute_of_error (t := s.compiler) rfl fails true s.executor
  rw [run_answer, program, failure]
  rfl

/-- The code that is run is the code of the program, its value returned. -/
theorem run_of_ok {e : Expr} {code : Code} {u : Compiler} (parses : parse source = .ok e)
    (lowered : s.compiler.lower e = (.ok code, u)) (path : Bytes) (cancelled : Bool) :
    ∃ result failure, (s.run path source cancelled).1 = (some result, failure)
      ∧ result.code = u.print code.returning := by
  let job : Job := { source, path, allowance := s.allowance cancelled }
  have program : (job.read.lower true s.compiler).1.program = some code.returning
      ∧ (job.read.lower true s.compiler).1.output = u.print code.returning := by
    simp [Job.read, Job.lower, Job.hasFailed, Job.shape, parses, lowered, job]
  obtain ⟨same, text⟩ := (job.read.lower true s.compiler).1.program_execute s.executor
  rw [run_answer, same, program.1]
  exact ⟨_, _, rfl, text.trans program.2⟩

/-- What a call of `compile` with a source gives and what a call of `run` gives in the same state.
The error of a run that has a result is of its execution. -/
structure Agrees (s : Session) (source : Bytes) (compiled : Compiled)
    (ran : (Option RunResult × Option Failure) × Session) : Prop where
  /-- Compiler and all: the registered names and the bindings of the root are the same. -/
  session : compiled.session = ran.2
  fails : ∀ f, compiled.answer = .error f → ran.1 = (none, some f)
  translates : ∀ text, compiled.answer = .ok text → ∃ tree program result,
    parse source = .ok tree ∧ (s.compiler.lower tree).1 = .ok program ∧ ran.1.1 = some result
      ∧ result.code = if program.isStatement then text else utf8 "return " ++ text
  answers : ran.1 ≠ (none, none)

theorem compile_eq_ok {t : Compiler} (ok : (t.compile source).1 = .ok text) :
    ∃ tree program u, parse source = .ok tree ∧ t.lower tree = (.ok program, u)
      ∧ text = u.print program := by
  cases parses : parse source with
  | error d => simp [Compiler.compile, parses] at ok
  | ok tree =>
    rcases lowered : t.lower tree with ⟨_ | program, u⟩ <;>
      simp only [Compiler.compile, parses, lowered] at ok
    · cases ok
    · cases ok
      exact ⟨tree, program, u, rfl, lowered, rfl⟩

theorem agrees_afresh (s : Session) (path source : Bytes) (cancelled : Bool) {compiled : Compiled}
    (answer : compiled.answer = (s.compileAfresh path source).1)
    (session : compiled.session = (s.compileAfresh path source).2) :
    s.Agrees source compiled (s.run path source cancelled) := by
  have left : compiled.session = (s.run path source cancelled).2 := by
    rw [session, compileAfresh_eq, run_session]
  rw [compileAfresh_eq] at answer
  cases done : (s.compiler.compile source).1 with
  | error d =>
    have ran := run_of_error done path cancelled
    rw [done] at answer
    refine ⟨left, fun f failed => ?_, fun text ok => ?_, by rw [ran]; exact nofun⟩
    · rw [answer] at failed
      cases failed
      exact ran
    · rw [answer] at ok
      cases ok
  | ok output =>
    obtain ⟨tree, program, u, parses, lowered, rfl⟩ := compile_eq_ok done
    obtain ⟨result, failure, ran, code⟩ := run_of_ok parses lowered path cancelled
    rw [done] at answer
    refine ⟨left, fun f failed => ?_, fun text ok => ?_, by rw [ran]; exact nofun⟩
    · rw [answer] at failed
      cases failed
    · rw [answer] at ok
      cases ok
      refine ⟨tree, program, result, parses, by rw [lowered], by rw [ran], ?_⟩
      rw [code]
      exact Code.print_returning (Compiler.lower_present lowered) u.indent

end Session

namespace Pool

variable {ι : Type} [DecidableEq ι] {texts : List Bytes} {p q : Pool ι}

omit [DecidableEq ι] in
theorem mirrors_new (setup : ι → SessionSetup) {cache : Cache} (empty : cache.rows = []) :
    Mirrors texts (new setup cache) (new (fun i => { setup i with cached := false }) cache) where
  sessions := rfl
  uncached _ := rfl
  regular i := .new (setup i).indent
  sound key row found := by simp [new, empty] at found

/-- Pools stay alike over the calls of one list, if what a further call hashes is counted too. -/
theorem Mirrors.after (h : Mirrors texts p q) (free : Digest.CollisionFree texts)
    (calls more : List (Call ι)) (hashed : ∀ text ∈ p.hashed (calls ++ more), text ∈ texts) :
    Mirrors texts (p.after calls) (q.after calls)
      ∧ ∀ text ∈ (p.after calls).hashed more, text ∈ texts := by
  induction calls generalizing p q with
  | nil => exact ⟨h, hashed⟩
  | cons c calls ih =>
    obtain ⟨-, next⟩ := h.call free c fun text mem => hashed text (List.mem_append_left _ mem)
    exact ih next fun text mem => hashed text (List.mem_append_right _ mem)

/-- In every state of a session, what `run` executes is what `compile` gives, behind a `return`
unless the program is a statement, or both fail with the same error; they leave the same of the
session; and a run gives a result or an error. So it is without a cache, and also in every state
that some sessions come to which share a cache that is empty at first, unless two of the texts that
were hashed have the same digest. -/
theorem run_translates :
    (∀ (s : Session) (path source : Bytes) (cancelled : Bool),
        s.Agrees source (s.compile none path source) (s.run path source cancelled))
      ∧ ∀ (setup : ι → SessionSetup) (cache : Cache) (calls : List (Call ι)) (member : ι)
        (path source : Bytes) (cancelled : Bool),
        cache.rows = [] →
        Digest.CollisionFree
          ((new setup cache).hashed (calls ++ [.compile member path source])) →
        let p := (new setup cache).after calls
        let s := p.sessions member
        s.Agrees source (s.compile (p.cacheOf member) path source)
          (s.run path source cancelled) := by
  refine ⟨fun s path source cancelled => s.agrees_afresh path source cancelled rfl rfl, ?_⟩
  intro setup cache calls member path source cancelled empty free p s
  have start : Mirrors ((new setup cache).hashed (calls ++ [.compile member path source])) _ _ :=
    mirrors_new setup empty
  obtain ⟨mirrors, hashed⟩ := start.after free calls _ fun _ mem => mem
  have done := mirrors.transparent_compile free member path source fun text mem =>
    hashed text (List.mem_append_left _ mem)
  exact s.agrees_afresh path source cancelled done.answer done.session

/-- A session takes the answer from what another one stored, and runs the same source: the declared
function is a statement, so nothing is put before it. -/
theorem run_translates_stored :
    let setup : Bool → SessionSetup := fun _ => ⟨utf8 " ", ⟨utf8 "idle", fun _ _ => {}⟩, 0, true⟩
    let cache : Cache := { path := utf8 "egg.db" }
    let source := utf8 "define(f,fun(1))"
    let calls : List (Call Bool) := [.compile false [] source]
    let p := (new setup cache).after calls
    let s := p.sessions true
    cache.rows = []
      ∧ Digest.CollisionFree ((new setup cache).hashed (calls ++ [.compile true [] source]))
      ∧ (s.compile (p.cacheOf true) [] source).log = [Session.hitLine (s.key source)]
      ∧ s.Agrees source (s.compile (p.cacheOf true) [] source) (s.run [] source false) := by
  intro setup cache source calls p s
  have free : Digest.CollisionFree
      ((new setup cache).hashed (calls ++ [.compile true [] source])) := by decide +kernel
  have hit : (s.compile (p.cacheOf true) [] source).log = [Session.hitLine (s.key source)] := by
    decide +kernel
  exact ⟨rfl, free, hit, run_translates.2 setup cache calls true [] source false rfl free⟩

end Pool

end EggLang
