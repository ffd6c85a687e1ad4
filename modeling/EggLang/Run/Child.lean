import EggLang.Data.Reader
import EggLang.Run.Executor
import EggLang.Text.Blank
import EggLang.Text.Quoted

/-!
# The executor in a child process

The program is wrapped into a script that writes its result as JSON behind a marker, after
whatever the program itself writes. `execute` builds that script, hands it to a child process and
reads the two parts back. The child is a function here: what a process of that binary does with a
script.
-/

namespace EggLang.Child

inductive Outcome where
  | finished (stdout stderr : Bytes) (exit : Nat)
  /-- It could not be started, with the reason. -/
  | notStarted (reason : Bytes)
  deriving DecidableEq, Repr

/-- What separates the console output from the result. -/
def marker : Bytes := [0] ++ utf8 "eggc-result:"

def script (program : Bytes) : Bytes :=
  utf8 "const __result = " ++ Executor.wrap program ++ utf8 ";\n"
    ++ utf8 "process.stdout.write(\"\\x00eggc-result:\" + "
    ++ utf8 "(typeof __result === 'function' ? JSON.stringify(String(__result)) : "
    ++ utf8 "(JSON.stringify(__result) ?? 'null')));\n"

/-- The text without a leading `Uncaught `. -/
def withoutUncaught (line : Bytes) : Bytes :=
  (Bytes.dropLead? (utf8 "Uncaught ") line).getD line

/-- Whether a line of a failure report names the exception. -/
def namesException (line : Bytes) : Bool :=
  Bytes.contains line (utf8 "Error: ") || Bytes.startsWith line (utf8 "Uncaught ")

/-- The message of an exception in a child's failure report: the first line that names one, or
else the whole report. -/
def thrownMessage (report : Bytes) : Bytes :=
  match ((Bytes.splitOn 10 report).map Text.trim).find? namesException with
  | some line => withoutUncaught line
  | none => Text.trim report

/-- What is said of a text that is no JSON, where no more is known of it. -/
def malformed (_ : Bytes) : Bytes := utf8 "malformed JSON"

/-- The report on what a finished child wrote: the console output up to the marker, and the value
after it. What is wrong with a text that is no JSON is for the decoder to say. -/
def decode (refusal : Bytes → Bytes) (stdout : Bytes) : Report :=
  match Bytes.cut marker stdout with
  | none =>
    { execution := some { output := stdout },
      trouble := some (.thrown (utf8 "program produced no result")) }
  | some (output, encoded) =>
    match Data.ofJson? encoded with
    | some value => { execution := some { value, output } }
    | none => { trouble := some (.broken (utf8 "decoding result: " ++ refusal encoded)) }

/-- Runs a program in a child process of the given binary. -/
def execute (binary : Bytes) (child : Bytes → Outcome) (allowance : Allowance) (program : Bytes)
    (refusal : Bytes → Bytes := malformed) : Report :=
  match allowance.refusal? with
  | some reason =>
    { execution := some {},
      trouble := some (.thrown (utf8 "execution interrupted: " ++ reason)) }
  | none =>
    match child (script program) with
    | .notStarted reason =>
      { trouble := some (.broken (utf8 "starting " ++ binary ++ utf8 ": " ++ reason)) }
    | .finished stdout stderr exit =>
      if exit = 0 then decode refusal stdout
      else
        { execution := some { output := stdout },
          trouble := some (.thrown (thrownMessage stderr)) }

/-- The reason why a binary that is not there cannot be started. -/
def missingReason (binary : Bytes) : Bytes :=
  if Bytes.contains binary (utf8 "/") then
    utf8 "fork/exec " ++ binary ++ utf8 ": no such file or directory"
  else utf8 "exec: " ++ Text.Quoted.encode binary ++ utf8 ": executable file not found in $PATH"

/-- The reason why a file that is not a program cannot be started. -/
def deniedReason (binary : Bytes) : Bytes :=
  utf8 "fork/exec " ++ binary ++ utf8 ": permission denied"

/-- The executor for a binary, given what its processes do and how a result is turned down. -/
def executor (binary : Bytes) (child : Bytes → Outcome) (refusal : Bytes → Bytes) : Executor where
  name := Executor.childName
  execute allowance program := execute binary child allowance program refusal

end EggLang.Child
