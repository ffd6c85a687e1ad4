import EggLang.Cache.Basic
import EggLang.Run.Job

/-!
# Sessions

A session is one compiler with an executor: names registered by one call are known to the later
ones. `compile` may take its answer from a cache, and then registers the names that the stored
program registered. Bindings of the root are not part of a key and a stored answer would not
redo them, so a session that has changed one no longer uses the cache. `run` never uses it.
-/

namespace EggLang

/-- A compiler with the executor of its programs. -/
structure Session where
  compiler : Compiler
  executor : Executor
  /-- The time limit of a run in nanoseconds; zero is none. -/
  timeout : Int := 0

/-- What a run gave: the value, what was written and the code that was executed. -/
structure RunResult where
  value : Data
  output : Bytes
  code : Bytes

/-- What a call of `compile` gave, and what is left after it. -/
structure Compiled where
  answer : Except Failure Bytes
  session : Session
  cache : Option Cache
  /-- What the call has to say in the log. -/
  log : List Bytes := []

namespace Session

/-- A session with nothing registered. -/
def new (indent : Bytes) (executor : Executor) (timeout : Int := 0) : Session :=
  { compiler := .new indent, executor, timeout }

def functions (s : Session) : List Bytes := s.compiler.functions.names

def register (s : Session) (names : List Bytes) : Session :=
  { s with compiler :=
      { s.compiler with functions := s.compiler.functions.addAll names } }

def mayCache (s : Session) : Bool := s.compiler.rootChanges = 0

/-- The key under which the code of a source is stored. -/
def key (s : Session) (source : Bytes) : Bytes :=
  Cache.key s.compiler.indent s.functions source

/-- Compiles a source without the cache. -/
def compileAfresh (s : Session) (path source : Bytes) : Except Failure Bytes × Session :=
  let (job, t) := Job.runStages { source, path } s.compiler [.read, .lower false]
  let s := { s with compiler := t }
  match job.failure? with
  | some d => (.error (.diagnostic d), s)
  | none => (.ok job.output, s)

/-- Stores code that this session has just made, unless it has changed the root. -/
def store (before after : Session) (key output : Bytes) (cache : Cache) :
    Cache × List Bytes :=
  if after.mayCache then
    let entry : CacheEntry := ⟨output, Registry.added before.functions after.functions⟩
    match cache.put key entry with
    | .ok cache => (cache, [])
    | .error r => (cache, [utf8 "cache: " ++ r.message])
  else (cache, [])

def compileInto (s : Session) (cache : Cache) (path source key : Bytes) (log : List Bytes) :
    Compiled :=
  match s.compileAfresh path source with
  | (.error f, s') => ⟨.error f, s', some cache, log⟩
  | (.ok output, s') =>
    let (cache, more) := store s s' key output cache
    ⟨.ok output, s', some cache, log ++ more⟩

/-- The log line of a hit: the first twelve digits of the key. -/
def hitLine (key : Bytes) : Bytes := utf8 "cache: hit " ++ key.take 12

/-- Compiles a source, which came from the file at `path` unless that is empty. -/
def compile (s : Session) (cache : Option Cache) (path source : Bytes) : Compiled :=
  match cache with
  | none =>
    let (answer, s') := s.compileAfresh path source
    ⟨answer, s', none, []⟩
  | some c =>
    if s.mayCache then
      let key := s.key source
      match c.get key with
      | .ok (some entry) => ⟨.ok entry.output, s.register entry.functions, some c, [hitLine key]⟩
      | .ok none => s.compileInto c path source key []
      | .error r => s.compileInto c path source key [utf8 "cache: " ++ r.message]
    else
      let (answer, s') := s.compileAfresh path source
      ⟨answer, s', some c, []⟩

def allowance (s : Session) (cancelled : Bool) : Allowance :=
  if cancelled then .cancelled else .ofTimeout s.timeout

/-- Compiles a source, makes its value the result and executes it. There is a result as soon as
there is code, also when the code fails. -/
def run (s : Session) (path source : Bytes) (cancelled : Bool := false) :
    (Option RunResult × Option Failure) × Session :=
  let (job, t) := Job.runStages { source, path, allowance := s.allowance cancelled } s.compiler
    [.read, .lower true, .execute s.executor]
  let s := { s with compiler := t }
  let failure := job.failure?.map Failure.diagnostic
  match job.program with
  | none => ((none, failure), s)
  | some _ => ((some ⟨job.result, job.console, job.output⟩, failure), s)

end Session

end EggLang
