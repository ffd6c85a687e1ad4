import EggLang.Data.Basic

/-!
# Executors

An executor runs the statements of a generated program and reports what came of it. The report
may have a result, a trouble, both or neither: a program that throws still has its output.
-/

namespace EggLang

/-- What a program gave: its value and what it wrote to the console. -/
structure Execution where
  value : Data := .null
  output : Bytes := []
  deriving Repr, Inhabited

/-- Why there is no proper result. -/
inductive Trouble where
  /-- The program itself failed. -/
  | thrown (message : Bytes)
  /-- The executor could not do its work. -/
  | broken (message : Bytes)
  deriving DecidableEq, Repr

namespace Trouble

def message : Trouble → Bytes
  | thrown m | broken m => m

end Trouble

structure Report where
  execution : Option Execution := none
  trouble : Option Trouble := none
  deriving Repr, Inhabited

/-- How much a run may take. -/
inductive Allowance where
  /-- The caller has given up before the run starts. -/
  | cancelled
  /-- The time is over before the run starts. -/
  | expired
  /-- So many machine steps; enough for every run that a time limit is not meant to stop. -/
  | steps (budget : Nat)
  deriving DecidableEq, Repr

namespace Allowance

/-- The machine steps a run gets at most. -/
def standardBudget : Nat := 3000000

/-- The allowance of a run that nothing bounds. -/
def standard : Allowance := steps standardBudget

/-- The allowance under a time limit in nanoseconds: a step takes a hundred of them. Zero is no
limit, and less than a microsecond is over before a run starts. -/
def ofTimeout (nanoseconds : Int) : Allowance :=
  if nanoseconds ≤ 0 then standard
  else if nanoseconds < 1000 then expired
  else steps (min standardBudget (nanoseconds.toNat / 100))

/-- Why a run does not start, if it does not. -/
def refusal? : Allowance → Option Bytes
  | cancelled => some (utf8 "context canceled")
  | expired => some (utf8 "context deadline exceeded")
  | steps _ => none

end Allowance

structure Executor where
  name : Bytes
  execute : Allowance → Bytes → Report

namespace Executor

/-- The name under which the embedded executor is selected. -/
def embeddedName : Bytes := utf8 "goja"

/-- The name under which the executor in a child process is selected. -/
def childName : Bytes := utf8 "node"

/-- The program as an expression whose value is what the program returns. -/
def wrap (program : Bytes) : Bytes :=
  utf8 "(function() \x7b\n" ++ program ++ utf8 "\n\x7d)()"

end Executor

end EggLang
