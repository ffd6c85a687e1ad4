import EggLang.Command.Highlight
import EggLang.Data.Json
import EggLang.Expr.Parser
import EggLang.Session.Basic
import EggLang.Text.Blank

/-!
# The interactive loop

Lines are taken until they make a complete expression; it is then compiled, or carried out if
it is a command. The input is a list of what the prompt can give, and the loop walks over it.
-/

namespace EggLang.Repl

/-- What a prompt gives. After the last one the input is over. -/
inductive Reply where
  | line (text : Bytes)
  /-- The user broke the line off. -/
  | aborted
  /-- The line could not be read. -/
  | failed
  deriving DecidableEq, Repr

def promptFirst : Bytes := utf8 "egg> "

def promptMore : Bytes := utf8 "...> "

/-- The prompt after the text read so far. -/
def promptFor (soFar : Bytes) : Bytes := if soFar.isEmpty then promptFirst else promptMore

/-- Whether no more lines are needed: nothing is there, or a command, or no open expression. -/
def isComplete (text : Bytes) : Bool :=
  let source := Text.trim text
  source.isEmpty || Bytes.startsWith source (utf8 ":") || !isIncomplete source

/-- The text so far with one more line. -/
def addLine (soFar line : Bytes) : Bytes :=
  if soFar.isEmpty then line else soFar ++ utf8 "\n" ++ line

/-- What reading an expression gave: its text unless the loop ends, the prompts shown, and the
input that is left. -/
structure Reading where
  text : Option Bytes
  prompts : List Bytes
  rest : List Reply
  deriving DecidableEq, Repr

/-- Reads lines until they make a complete expression. The end of input and a broken-off line end
an open expression, or the loop if there is none. -/
def readExpression (soFar : Bytes) : List Reply → Reading
  | [] => ⟨if soFar.isEmpty then none else some soFar, [promptFor soFar], []⟩
  | .aborted :: rest => ⟨if soFar.isEmpty then none else some soFar, [promptFor soFar], rest⟩
  | .failed :: rest => ⟨none, [promptFor soFar], rest⟩
  | .line line :: rest =>
    let text := addLine soFar line
    if isComplete text then ⟨some text, [promptFor soFar], rest⟩
    else
      let more := readExpression text rest
      { more with prompts := promptFor soFar :: more.prompts }

def help : Bytes :=
  utf8 "Enter an expression to see its JavaScript.\n"
    ++ utf8 "  :run <expr>   compile and execute\n"
    ++ utf8 "  :funcs        list names defined as functions\n"
    ++ utf8 "  :quit         leave\n"
    ++ utf8 "Definitions persist for the whole session.\n"

/-- What a step of the loop does: what it writes, the session after it and whether it ends. -/
structure Effect where
  stdout : Bytes := []
  stderr : Bytes := []
  session : Session
  cache : Option Cache
  ends : Bool := false

def splitCommand (text : Bytes) : Bytes × Bytes := (Bytes.cut (utf8 " ") text).getD (text, [])

def runProgram (screen : Highlight.Screen) (s : Session) (cache : Option Cache) (source : Bytes) :
    Effect :=
  let ((result, failure), session) := s.run [] source
  let output := (result.map RunResult.output).getD []
  match failure with
  | some f =>
    { stdout := output, stderr := Bytes.asLine (Highlight.render screen f), session, cache }
  | none =>
    let value := (result.map RunResult.value).getD .null
    let shown := if value.isNull then [] else Bytes.asLine value.display
    { stdout := output ++ shown, session, cache }

def runCommand (screen : Highlight.Screen) (s : Session) (cache : Option Cache) (text : Bytes) :
    Effect :=
  let (name, argument) := splitCommand text
  let stay (stdout : Bytes) : Effect := { stdout, session := s, cache }
  if name = utf8 ":quit" || name = utf8 ":q" then { session := s, cache, ends := true }
  else if name = utf8 ":help" then stay help
  else if name = utf8 ":funcs" then
    stay (Bytes.asLine (if s.functions.isEmpty then utf8 "(none)"
      else Bytes.join (utf8 " ") s.functions))
  else if name = utf8 ":run" then runProgram screen s cache argument
  else stay (utf8 "unknown command " ++ name ++ utf8 ". Type :help for commands.\n")

def showCode (screen : Highlight.Screen) (s : Session) (cache : Option Cache) (text : Bytes) :
    Effect :=
  let r := s.compile cache [] text
  match r.answer with
  | .ok code => { stdout := Bytes.asLine code, session := r.session, cache := r.cache }
  | .error f =>
    { stderr := Bytes.asLine (Highlight.render screen f), session := r.session, cache := r.cache }

def obey (screen : Highlight.Screen) (s : Session) (cache : Option Cache) (text : Bytes) : Effect :=
  if Bytes.startsWith text (utf8 ":") then runCommand screen s cache text
  else showCode screen s cache text

def historyLine (text : Bytes) : Bytes := Bytes.replaceByte 10 32 text

/-- What a run of the loop leaves behind. -/
structure Transcript where
  stdout : Bytes := []
  stderr : Bytes := []
  history : List Bytes := []
  prompts : List Bytes := []
  /-- The input that was not looked at. -/
  unread : List Reply := []
  cache : Option Cache := none

namespace Transcript

def after (t : Transcript) (stdout stderr : Bytes) (history prompts : List Bytes) : Transcript :=
  { t with
    stdout := stdout ++ t.stdout
    stderr := stderr ++ t.stderr
    history := history ++ t.history
    prompts := prompts ++ t.prompts }

end Transcript

/-- Runs the loop to its end. Every expression takes at least one reply, and the loop ends with
the input, so one unit of fuel more than there are replies is enough. -/
def loop (screen : Highlight.Screen) : (fuel : Nat) → Session → Option Cache → List Reply →
    Transcript
  | 0, _, cache, input => { unread := input, cache }
  | fuel + 1, s, cache, input =>
    let reading := readExpression [] input
    match reading.text with
    | none =>
      { stdout := utf8 "\n", prompts := reading.prompts, unread := reading.rest, cache }
    | some text =>
      let text := Text.trim text
      if text.isEmpty then
        (loop screen fuel s cache reading.rest).after [] [] [] reading.prompts
      else
        let effect := obey screen s cache text
        let history := [historyLine text]
        if effect.ends then
          { stdout := effect.stdout, stderr := effect.stderr, history, prompts := reading.prompts,
            unread := reading.rest, cache := effect.cache }
        else
          (loop screen fuel effect.session effect.cache reading.rest).after
            effect.stdout effect.stderr history reading.prompts

def run (screen : Highlight.Screen) (s : Session) (cache : Option Cache) (input : List Reply) :
    Transcript :=
  loop screen (input.length + 1) s cache input

end EggLang.Repl
