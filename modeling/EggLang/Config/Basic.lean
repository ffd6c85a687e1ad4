import EggLang.Bytes
import EggLang.Diagnostic
import EggLang.Disk.Path
import EggLang.Number.Arithmetic
import EggLang.Run.Executor
import EggLang.Text.Quoted
import EggLang.Yaml.Members
import EggLang.Yaml.Reader

/-!
# Configuration

The settings of the compiler, read from a YAML document. What the document leaves out has a
default. A cache path is relative to the file it stands in.
-/

/-!
## Durations

A duration is a sum of amounts with units, such as `1m0.5s`, with one sign for all of it. It is
counted in nanoseconds and has to fit into 64 bits with its sign.
-/

namespace EggLang.Duration

/-- The nanoseconds of each unit. The micro sign and the Greek letter are both read. -/
def units : List (Bytes × Nat) :=
  [(utf8 "ns", 1), (utf8 "us", 1000), (utf8 "µs", 1000), (utf8 "μs", 1000),
    (utf8 "ms", 1000000), (utf8 "s", 1000000000), (utf8 "m", 60000000000),
    (utf8 "h", 3600000000000)]

/-- The largest magnitude, that of the least negative duration. -/
def limit : Nat := Nat.pow 2 63

/-- The digits of a fraction that count behind those with the value `n`: as many as keep its value
below the limit. -/
def countedDigits (n : Nat) : Bytes → Bytes
  | [] => []
  | d :: rest =>
    let next := 10 * n + (d.toNat - 48)
    if n > (limit - 1) / 10 || next > limit then [] else d :: countedDigits next rest

/-- The nanoseconds of a fraction of a unit, computed in doubles and cut off. -/
def fractionValue (ds : Bytes) (unit : Nat) : Nat :=
  let counted := countedDigits 0 ds
  let f := Binary64.ofNat (Bytes.digitsValue counted)
  let scaled := (Binary64.ofNat unit).div (.ofNat (Nat.pow 10 counted.length))
  (((f.mul scaled).truncate?).map Int.toNat).getD 0

/-- The sum of the amounts of a text, if it is below the limit or at it. -/
def amounts : (fuel : Nat) → (sum : Nat) → Bytes → Option Nat
  | _, sum, [] => some sum
  | 0, _, _ => none
  | fuel + 1, sum, text => do
    let whole := text.takeWhile Bytes.isDigit
    let rest := text.drop whole.length
    let (fraction, rest) := match rest with
      | 46 :: rest => (rest.takeWhile Bytes.isDigit, rest.dropWhile Bytes.isDigit)
      | rest => ([], rest)
    if whole.isEmpty && fraction.isEmpty then none
    let name := rest.takeWhile fun b => b != 46 && !Bytes.isDigit b
    let unit ← units.lookup name
    let n := Bytes.digitsValue whole
    if n > limit / unit then none
    let v := n * unit + (if Bytes.digitsValue fraction = 0 then 0 else fractionValue fraction unit)
    if v > limit || sum + v > limit then none
    amounts fuel (sum + v) (rest.drop name.length)

/-- The nanoseconds of a duration, or nothing where the text is none. A bare zero needs no
unit. -/
def parse? (text : Bytes) : Option Int :=
  let (negative, body) := match text with
    | 45 :: rest => (true, rest)
    | 43 :: rest => (false, rest)
    | rest => (false, rest)
  if body = utf8 "0" then some 0
  else if body.isEmpty then none
  else
    match amounts (body.length + 1) 0 body with
    | none => none
    | some n => if negative then some (-n) else if n < limit then some n else none

end EggLang.Duration

/-! ## Settings -/

namespace EggLang

structure Config where
  /-- What one level of generated code is indented by. -/
  indent : Bytes := []
  /-- The name of the executor. -/
  backend : Bytes := []
  /-- The time limit of a run in nanoseconds. -/
  timeout : Int := 0
  /-- The binary of the executor in a child process. -/
  node : Bytes := []
  /-- The file of the cache; empty for none. -/
  cachePath : Bytes := []
  /-- The address the server listens on. -/
  addr : Bytes := []
  deriving DecidableEq, Repr

namespace Config

/-- The settings with a default wherever there is none. -/
def withDefaults (c : Config) : Config where
  indent := if c.indent.isEmpty then utf8 "  " else c.indent
  backend := if c.backend.isEmpty then Executor.embeddedName else c.backend
  timeout := if c.timeout = 0 then 5000000000 else c.timeout
  node := if c.node.isEmpty then utf8 "node" else c.node
  cachePath := c.cachePath
  addr := if c.addr.isEmpty then utf8 "127.0.0.1:7411" else c.addr

/-- The settings without a document. -/
def default : Config := withDefaults {}

/-! ## Decoding -/

/-- The text of a setting; empty for one that stands for nothing. -/
def textSetting (d : Yaml.Document) (node : Yaml) : Yaml.Decoding Bytes := do
  match ← d.text node with
  | .null => return []
  | .text t | .other t => return t

/-- The duration of a setting; a number is none. -/
def durationSetting (d : Yaml.Document) (node : Yaml) : Yaml.Decoding Int := do
  match ← d.text node with
  | .null => return 0
  | .text t =>
    match Duration.parse? t with
    | some n => return n
    | none => failure
  | .other _ => failure

/-- What stands under a name, with what it is when it is left out. -/
def setting {α : Type} (read : Yaml → Yaml.Decoding α) (otherwise : α) (name : String)
    (ms : List (Bytes × Yaml)) : Yaml.Decoding α :=
  match ms.lookup (utf8 name) with
  | some node => read node
  | none => return otherwise

/-- The settings of a document as they are written. -/
def decode (d : Yaml.Document) : Yaml.Decoding Config := do
  let names (ns : List String) := ns.map utf8
  let top ← d.record (names ["output", "run", "cache", "server"]) d.root
  let section_ (name : String) (known : List String) :=
    setting (d.record (names known)) [] name top
  let output ← section_ "output" ["indent"]
  let run ← section_ "run" ["backend", "timeout", "node"]
  let cache ← section_ "cache" ["path"]
  let server ← section_ "server" ["addr"]
  let text := setting (textSetting d) []
  return {
    indent := ← text "indent" output
    backend := ← text "backend" run
    timeout := ← setting (durationSetting d) 0 "timeout" run
    node := ← text "node" run
    cachePath := ← text "path" cache
    addr := ← text "addr" server }

/-- The settings of a document as they are written, if it can be decoded. -/
def ofYaml? (d : Yaml.Document) : Option Config := ((decode d).run {}).map (·.1)

/-! ## Checks -/

/-- Why a document is refused. -/
inductive Refusal where
  | malformed
  | indent (given : Bytes)
  | backend (given : Bytes)
  | timeout
  deriving DecidableEq, Repr

namespace Refusal

/-- The wording of a refusal of the document at a path. -/
def message (path : Bytes) : Refusal → Bytes
  | malformed => utf8 "parsing " ++ path ++ utf8 ": yaml: malformed document"
  | indent given =>
    path ++ utf8 ": output.indent must contain only spaces and tabs, got "
      ++ Text.Quoted.encode given
  | backend given =>
    path ++ utf8 ": run.backend: unknown backend " ++ Text.Quoted.encode given
      ++ utf8 " (want " ++ Text.Quoted.encode Executor.embeddedName ++ utf8 " or "
      ++ Text.Quoted.encode Executor.childName ++ utf8 ")"
  | timeout => path ++ utf8 ": run.timeout must not be negative"

end Refusal

def check (c : Config) : Except Refusal Config :=
  if !c.indent.all (fun b => b = 32 || b = 9) then .error (.indent c.indent)
  else if !([[], Executor.embeddedName, Executor.childName].any (· == c.backend)) then
    .error (.backend c.backend)
  else if c.timeout < 0 then .error .timeout
  else .ok c

/-- The settings with the cache path taken from where the document at `path` stands. -/
def locate (path : Bytes) (c : Config) : Config :=
  if c.cachePath.isEmpty || Path.isAbsolute c.cachePath then c
  else { c with cachePath := Path.join (Path.parent path) c.cachePath }

def parse (content path : Bytes) : Except Refusal Config := do
  let written ← match ((Text.chars? content).bind Yaml.read?).bind ofYaml? with
    | some c => .ok c
    | none => .error .malformed
  let checked ← check written
  return locate path checked.withDefaults

end Config

end EggLang
