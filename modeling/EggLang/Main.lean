import EggLang.Cache.Basic
import EggLang.Command.Basic

/-!
# The program

The outer layer of the command line: it loads the part of the disk that a command may look at,
carries the command out and writes what it changed. Only the interactive loop reads its input
line by line.
-/

namespace EggLang.Program

def bytesOf (data : ByteArray) : Bytes := data.toList

/-- The text of bytes; ill-formed ones read as U+FFFD. -/
def stringOf (text : Bytes) : String := String.ofList (Text.chars text)

/-- What stands at a path of the real disk. A file that holds the rows of a cache is one. -/
def entryAt (path : Bytes) : IO (Option DiskEntry) := do
  try
    let content := bytesOf (← IO.FS.readBinFile (stringOf path))
    match Cache.decodeFile? content with
    | some rows => return some (.database rows)
    | none => return some (.file content)
  catch
    | .inappropriateType .. => return some .directory
    | _ => return none

/-- The places on the way to a path, the path itself included. -/
def waysTo (path : Bytes) : List Location :=
  let segments := Path.cleanSegments path
  (List.range (segments.length + 1)).map segments.take

/-- The disk with what stands on the way to a path. -/
def withPath (d : Disk) (path : Bytes) : IO Disk :=
  (waysTo path).foldlM (fun d at_ => do
    if (d.entry? at_).isSome then return d
    match ← entryAt (Disk.pathOf at_) with
    | some e => return d.set at_ e
    | none => return d) d

/-- The paths a command may look at before its configuration is known. -/
def pathsOf (cwd : Bytes) (args : List Bytes) : List Bytes :=
  let above := (waysTo cwd).map Disk.pathOf
  let documents := above.flatMap fun dir => Config.fileNames.map (Path.join dir)
  cwd :: documents ++ args.map (Path.absolute cwd)

def writeChanges (before after : Disk) : IO Unit :=
  after.entries.forM fun (at_, e) => do
    if before.entry? at_ != some e then
      let name := stringOf (Disk.pathOf at_)
      match e with
      | .directory => IO.FS.createDirAll name
      | .file content => IO.FS.writeBinFile name ⟨content.toArray⟩
      | .database rows => IO.FS.writeBinFile name ⟨(Cache.encodeRows rows).toArray⟩

def put (stream : IO.FS.Stream) (text : Bytes) : IO Unit := do
  stream.write ⟨text.toArray⟩
  stream.flush

partial def interact (screen : Highlight.Screen) (s : Session) (cache : Option Cache)
    (soFar : Bytes) : IO (Option Cache) := do
  let stdin ← IO.getStdin
  let stdout ← IO.getStdout
  put stdout (Repl.promptFor soFar)
  let line ← stdin.getLine
  let isOver := line.isEmpty
  let text := if isOver then soFar
    else Repl.addLine soFar ((utf8 line).filter (· != 10))
  if isOver && soFar.isEmpty then
    put stdout (utf8 "\n")
    return cache
  if !isOver && !Repl.isComplete text then return ← interact screen s cache text
  let text := Text.trim text
  if text.isEmpty then return ← interact screen s cache []
  let effect := Repl.obey screen s cache text
  put stdout effect.stdout
  put (← IO.getStderr) effect.stderr
  if effect.ends then return effect.cache
  interact screen effect.session effect.cache []

def screen : IO Highlight.Screen := do
  let isTerminal ← (← IO.getStderr).isTty
  let refusesColour := (← IO.getEnv "NO_COLOR").isSome
  let term := utf8 ((← IO.getEnv "TERM").getD "")
  return { isTerminal, refusesColour, term }

/-- Reads all of the input if the command takes its program from there. -/
def inputFor (words : List Bytes) : IO Bytes := do
  let command := words.head?.getD []
  let takes := command = utf8 "compile" || command = utf8 "run"
  if takes && Command.sourceOf (words.drop 1) = .stdin then
    return bytesOf (← (← IO.getStdin).readToEnd).toUTF8
  return []

def leave (before : Disk) (o : Command.Outcome) : IO UInt32 := do
  writeChanges before o.disk
  put (← IO.getStdout) o.stdout
  put (← IO.getStderr) o.stderr
  return o.status.toUInt32

def repl (s : Command.Setting) : IO UInt32 := do
  let o : Command.Outcome := { disk := s.host.disk }
  match Command.openSession s o with
  | (.error f, o) => leave s.host.disk (o.fail s.host.screen f)
  | (.ok opened, o) =>
    put (← IO.getStderr) o.stderr
    put (← IO.getStdout) (Command.banner opened.session)
    let cache ← interact s.host.screen opened.session opened.cache []
    leave s.host.disk (Command.keep { disk := o.disk } cache)

end EggLang.Program

open EggLang in
def main (arguments : List String) : IO UInt32 := do
  let args := arguments.map utf8
  let words := Command.wordsOf args
  let cwd := utf8 (← IO.currentDir).toString
  let disk ← (Program.pathsOf cwd words).foldlM Program.withPath {}
  let found := Config.discover disk cwd
  let disk ← match found with
    | .ok (c, _) =>
      if c.cachePath.isEmpty then pure disk
      else Program.withPath disk (Disk.cacheFile c.cachePath)
    | .error _ => pure disk
  let host : Command.Host :=
    { disk, cwd, stdin := ← Program.inputFor words, screen := ← Program.screen }
  match found, words with
  | .ok (config, _), [command] =>
    if command = utf8 "repl" then Program.repl ⟨host, config, args.any Command.isDebug⟩
    else Program.leave disk (Command.execute host args)
  | _, _ => Program.leave disk (Command.execute host args)
