import EggLang.Config.Discovery
import EggLang.Disk.Database
import EggLang.Repl.Basic
import EggLang.Run.Select
import EggLang.Server.Address
import EggLang.Server.Basic

/-!
# The command line

What a command does is a function of its arguments, its input and the disk: it gives the exit
status, what is written to the two outputs, and the disk afterwards. With `-debug` the log goes to
the error output.
-/

namespace EggLang.Command

/-- What a command finds when it starts. -/
structure Host where
  disk : Disk := {}
  /-- The working directory, an absolute path. -/
  cwd : Bytes := utf8 "/"
  stdin : Bytes := []
  screen : Highlight.Screen := {}
  /-- What a child process of a binary does with a script. -/
  child : (binary script : Bytes) → Child.Outcome :=
    fun binary _ => .notStarted (Child.missingReason binary)
  /-- What the decoder says of the result of a child process that is no JSON. -/
  refusal : Bytes → Bytes := Child.malformed

structure Outcome where
  status : Nat := 0
  stdout : Bytes := []
  stderr : Bytes := []
  disk : Disk

def usage : Bytes :=
  Bytes.join (utf8 "\n") ([
    "eggc translates Egg programs to JavaScript.",
    "",
    "Usage:",
    "  eggc compile <file> [-o <out>]   print (or write) the generated JavaScript",
    "  eggc compile -e <source>",
    "  eggc run <file>                  compile and execute, printing output and result",
    "  eggc run -e <source>",
    "  eggc serve [--addr <host:port>]  serve the Translator gRPC API",
    "  eggc repl                        interactive session",
    "  eggc version",
    "  eggc help",
    "",
    "With no file and no -e, source is read from stdin.",
    "Flags: -debug enables logging to stderr.",
    "Configuration is read from the nearest eggc.yaml above the working directory.",
    ""].map utf8)

def version : Bytes := utf8 "0.3.0"

def serviceName : Bytes := utf8 "eggc.v1.Translator"

namespace Outcome

def print (o : Outcome) (text : Bytes) : Outcome := { o with stdout := o.stdout ++ text }

def complain (o : Outcome) (text : Bytes) : Outcome := { o with stderr := o.stderr ++ text }

def fail (o : Outcome) (screen : Highlight.Screen) (f : Failure) : Outcome :=
  { o.complain (Bytes.asLine (Highlight.render screen f)) with status := 1 }

/-- The outcome with lines of the log, which is seen only when it is asked for. -/
def log (o : Outcome) (debug : Bool) (lines : List Bytes) : Outcome :=
  if debug then o.complain (lines.flatMap Bytes.asLine) else o

end Outcome

/-! ## Arguments -/

def isDebug (arg : Bytes) : Bool := arg = utf8 "-debug" || arg = utf8 "--debug"

/-- The value after the first argument of a name that has one. -/
def flagValue (name : Bytes) : List Bytes → Bytes
  | a :: b :: rest => if a = name then b else flagValue name (b :: rest)
  | _ => []

inductive Source where
  | given (text : Bytes)
  | file (path : Bytes)
  | stdin
  /-- The program to be given is missing. -/
  | missing
  deriving DecidableEq, Repr

/-- Where the arguments of a command say that the program is: the first of `-e` and a word that is
no option decides. -/
def sourceOf : List Bytes → Source
  | [] => .stdin
  | arg :: rest =>
    if arg = utf8 "-e" then
      match rest with
      | text :: _ => .given text
      | [] => .missing
    else if !Bytes.startsWith arg (utf8 "-") then .file arg
    else if arg = utf8 "-o" then
      match rest with
      | _ :: rest => sourceOf rest
      | [] => .stdin
    else sourceOf rest

/-- The text of a program and the path it came from, empty if from none. -/
def readSource (h : Host) (args : List Bytes) : Except Failure (Bytes × Bytes) :=
  match sourceOf args with
  | .given text => .ok (text, [])
  | .stdin => .ok (h.stdin, [])
  | .missing => .error (.plain (utf8 "-e needs an argument"))
  | .file path =>
    match h.disk.readFile h.cwd path with
    | .ok content => .ok (content, path)
    | .error f => .error (.plain (utf8 "Error reading input: " ++ f.message))

/-! ## Commands -/

/-- What the commands share: the host, the configuration and whether the log is seen. -/
structure Setting where
  host : Host
  config : Config
  debug : Bool

structure OpenedSession where
  session : Session
  cache : Option Cache

/-- Opens the cache of a configuration, if it has one. -/
def openCache (s : Setting) (o : Outcome) : Except Failure (Option Cache) × Outcome :=
  if s.config.cachePath.isEmpty then (.ok none, o)
  else
    match o.disk.openCache s.config.cachePath with
    | (.error f, disk) => (.error (.plain f.message), { o with disk })
    | (.ok cache, disk) =>
      (.ok (some cache), Outcome.log { o with disk } s.debug [utf8 "cache: opened " ++ cache.path])

def openSession (s : Setting) (o : Outcome) : Except Failure OpenedSession × Outcome :=
  match Executor.select s.host.child s.config.backend s.config.node s.host.refusal with
  | .error f => (.error f, o)
  | .ok executor =>
    let (cache, o) := openCache s o
    (cache.map fun c => ⟨.new s.config.indent executor s.config.timeout, c⟩, o)

def keep (o : Outcome) (cache : Option Cache) : Outcome :=
  match cache with
  | some c => { o with disk := o.disk.saveCache c }
  | none => o

def displayName (path : Bytes) : Bytes := if path.isEmpty then utf8 "<input>" else Path.base path

def deliver (s : Setting) (o : Outcome) (path code : Bytes) (args : List Bytes) : Outcome :=
  let out := flagValue (utf8 "-o") args
  if out.isEmpty then o.print (Bytes.asLine code)
  else
    match o.disk.writeFile s.host.cwd out (Bytes.asLine code) with
    | .error f =>
      o.fail s.host.screen (.plain (utf8 "Error writing " ++ out ++ utf8 ": " ++ f.message))
    | .ok disk =>
      { o with disk }.print
        (Bytes.asLine (utf8 "Compiled " ++ displayName path ++ utf8 " -> " ++ out))

def compile (s : Setting) (o : Outcome) (args : List Bytes) : Outcome :=
  match readSource s.host args with
  | .error f => o.fail s.host.screen f
  | .ok (source, path) =>
    match openSession s o with
    | (.error f, o) => o.fail s.host.screen f
    | (.ok opened, o) =>
      let r := opened.session.compile opened.cache path source
      let o := (keep o r.cache).log s.debug r.log
      match r.answer with
      | .error f => o.fail s.host.screen f
      | .ok code => deliver s o path code args

def run (s : Setting) (o : Outcome) (args : List Bytes) : Outcome :=
  match readSource s.host args with
  | .error f => o.fail s.host.screen f
  | .ok (source, path) =>
    match openSession s o with
    | (.error f, o) => o.fail s.host.screen f
    | (.ok opened, o) =>
      let o := o.log s.debug [utf8 "backend: " ++ opened.session.executor.name]
      let (result, failure) := (opened.session.run path source).1
      let o := o.print ((result.map RunResult.output).getD [])
      match failure with
      | some f => o.fail s.host.screen f
      | none =>
        let value := (result.map RunResult.value).getD .null
        if value.isNull then o else o.print (Bytes.asLine value.display)

/-- Starts the server. Requests are served by the host once the address is taken. -/
def serve (s : Setting) (o : Outcome) (args : List Bytes) : Outcome :=
  let asked := flagValue (utf8 "--addr") args
  let address := if asked.isEmpty then s.config.addr else asked
  match openSession s o with
  | (.error f, o) => o.fail s.host.screen f
  | (.ok _, o) =>
    match Address.parse address with
    | .error r => o.fail s.host.screen (.plain (r.message address))
    | .ok _ =>
      o.print (Bytes.asLine (utf8 "eggc: serving " ++ serviceName ++ utf8 " on " ++ address))

/-- The lines of an input; what follows the last line end is a line unless it is empty. -/
def inputLines (input : Bytes) : List Bytes :=
  match (Bytes.splitOn 10 input).reverse with
  | [] :: rest => rest.reverse
  | lines => lines.reverse

def banner (session : Session) : Bytes :=
  Bytes.asLine (utf8 "eggc " ++ version ++ utf8 ", " ++ session.executor.name
    ++ utf8 " backend. Type :help for commands.")

/-- Runs the interactive loop on the lines of the input. -/
def repl (s : Setting) (o : Outcome) : Outcome :=
  match openSession s o with
  | (.error f, o) => o.fail s.host.screen f
  | (.ok opened, o) =>
    let t := Repl.run s.host.screen opened.session opened.cache
      ((inputLines s.host.stdin).map .line)
    ((keep o t.cache).print (banner opened.session ++ t.stdout)).complain t.stderr

def helpWords : List Bytes := ["", "help", "-help", "--help", "-h"].map utf8

def versionWords : List Bytes := ["version", "-version", "--version", "-v"].map utf8

def dispatch (s : Setting) (o : Outcome) (command : Bytes) (args : List Bytes) : Outcome :=
  if command = utf8 "compile" then compile s o args
  else if command = utf8 "run" then run s o args
  else if command = utf8 "serve" then serve s o args
  else if command = utf8 "repl" then repl s o
  else
    { o.complain (utf8 "unknown command " ++ Text.Quoted.encode command ++ utf8 "\n\n" ++ usage)
      with status := 2 }

/-- A command line without the flags that ask for the log. -/
def wordsOf (arguments : List Bytes) : List Bytes := arguments.filter (!isDebug ·)

def execute (h : Host) (arguments : List Bytes) : Outcome :=
  let debug := arguments.any isDebug
  let args := wordsOf arguments
  let command := args.head?.getD []
  let o : Outcome := { disk := h.disk }
  if helpWords.contains command then
    { o.print usage with status := if command.isEmpty then 2 else 0 }
  else if versionWords.contains command then
    o.print (Bytes.asLine (utf8 "eggc " ++ version))
  else
    match Config.discover h.disk h.cwd with
    | .error f => o.fail h.screen f
    | .ok (config, path) =>
      let o := o.log debug ((path.map fun p => utf8 "config: " ++ p).toList)
      dispatch ⟨h, config, debug⟩ o command (args.drop 1)

end EggLang.Command
