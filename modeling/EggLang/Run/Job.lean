import EggLang.Run.Executor
import EggLang.Compiler.Basic

/-!
# Jobs

A job carries one program through the stages of reading, lowering and executing. Each stage
does nothing once a failure is recorded, so the first failure is the one that is reported.
-/

namespace EggLang

structure Job where
  source : Bytes
  path : Bytes := []
  allowance : Allowance := .standard
  /-- The tree, once the source is read. -/
  tree : Option Expr := none
  /-- The code, once the tree is lowered. -/
  program : Option Code := none
  /-- The text of the code. -/
  output : Bytes := []
  /-- The value of the executed program. -/
  result : Data := .null
  console : Bytes := []
  /-- The failures in the order in which they were recorded. -/
  failures : List Diagnostic := []

namespace Job

def failure? (j : Job) : Option Diagnostic := j.failures.head?

def hasFailed (j : Job) : Bool := !j.failures.isEmpty

def record (j : Job) (d : Diagnostic) : Job :=
  { j with failures := j.failures ++ [d.inFile j.path] }

/-- Records a failure; one that holds no diagnostic counts as a failure of the generated code. -/
def fail (j : Job) (f : Failure) : Job :=
  match f.diagnostic? with
  | some d => j.record d
  | none => j.record (.runtime f.render)

def read (j : Job) : Job :=
  if j.hasFailed then j
  else
    match parse j.source with
    | .ok tree => { j with tree := some tree }
    | .error d => j.record d

/-- The program as it is printed: with its value made its result, or as it is. -/
def shape (returns : Bool) (code : Code) : Code := if returns then code.returning else code

/-- Lowers the tree to code. With `returns`, the value of the program becomes the result of the
code. -/
def lower (returns : Bool) (j : Job) (t : Compiler) : Job × Compiler :=
  if j.hasFailed then (j, t)
  else
    match j.tree with
    | none => (j, t)
    | some tree =>
      match t.lower tree with
      | (.error d, t) => (j.record d, t)
      | (.ok code, t) =>
        let code := shape returns code
        ({ j with program := some code, output := t.print code }, t)

def execute (executor : Executor) (j : Job) : Job :=
  if j.hasFailed || j.program.isNone then j
  else
    let report := executor.execute j.allowance j.output
    let j := match report.execution with
      | some e => { j with result := e.value, console := e.output }
      | none => j
    match report.trouble with
    | some trouble => j.record (.runtime trouble.message)
    | none => j

inductive Stage where
  | read
  | lower (returns : Bool)
  | execute (executor : Executor)

def advance (j : Job) (t : Compiler) : Stage → Job × Compiler
  | .read => (j.read, t)
  | .lower returns => j.lower returns t
  | .execute executor => (j.execute executor, t)

/-- Takes a job through stages in order. -/
def runStages (j : Job) (t : Compiler) (stages : List Stage) : Job × Compiler :=
  stages.foldl (fun (acc : Job × Compiler) stage => acc.1.advance acc.2 stage) (j, t)

end Job

end EggLang
