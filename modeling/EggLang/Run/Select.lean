import EggLang.Config.Basic
import EggLang.Run.Child
import EggLang.Run.Executor
import EggLang.Script.Result

/-!
# Selecting an executor

The executor a configuration names. The embedded one runs a program on the script machine of this
library, in a fresh store each time. Child processes are started by the host of the library, so
what a binary does with a script is a parameter, as is the wording of the decoder that turns its
result down.
-/

namespace EggLang.Embedded

/-- Runs a program. What it wrote is reported however it ends. -/
def execute (allowance : Allowance) (program : Bytes) : Report :=
  match allowance with
  | .cancelled | .expired =>
    { trouble := allowance.refusal?.map .broken }
  | .steps budget =>
    let (ending, output) := Script.evaluate budget (Executor.wrap program)
    let failed (message : Bytes) : Report :=
      { execution := some { output }, trouble := some (.thrown message) }
    match ending with
    | .value value => { execution := some { value, output } }
    | .thrown text => failed text
    | .malformed => failed (utf8 "SyntaxError: malformed script")
    | .interrupted => failed (utf8 "execution interrupted: context deadline exceeded")

def executor : Executor := { name := Executor.embeddedName, execute }

end EggLang.Embedded

namespace EggLang.Executor

/-- The failure for an executor that there is not. -/
def unknown (backend : Bytes) : Failure :=
  .plain (utf8 "unknown backend " ++ Text.Quoted.encode backend)

def select (child : (binary script : Bytes) → Child.Outcome) (backend node : Bytes)
    (refusal : Bytes → Bytes := Child.malformed) : Except Failure Executor :=
  if backend.isEmpty || backend = embeddedName then .ok Embedded.executor
  else if backend = childName then
    let binary := if node.isEmpty then Config.default.node else node
    .ok (Child.executor binary (child binary) refusal)
  else .error (unknown backend)

end EggLang.Executor
