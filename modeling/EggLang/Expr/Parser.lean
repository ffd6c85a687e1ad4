import EggLang.Diagnostic
import EggLang.Expr.Basic
import EggLang.Expr.Token
import EggLang.Source.Strip

/-!
# Reading a program

The lexemes of a stripped program are read from the left by a machine that keeps the calls
opened so far. It stops at the first lexeme that cannot continue the program; the index where it
stopped tells an unfinished program, which only lacks text at its end, from a wrong one.
-/

namespace EggLang

/-- A call whose argument list is not closed yet; its arguments so far, the last one first. -/
structure OpenCall where
  operator : Expr
  args : List Expr

/-- What a reader of lexemes has seen. -/
inductive Reading where
  /-- Nothing yet: an expression has to come. -/
  | start
  /-- Inside an argument list: an expression has to come, or the end of the list. -/
  | argument (call : OpenCall) (outer : List OpenCall)
  /-- After an expression inside the given calls. -/
  | after (e : Expr) (calls : List OpenCall)

/-- Why and at which index of the stripped text reading stopped. -/
structure Stop where
  index : Nat
  fault : Fault
  deriving Repr

namespace Reading

def calls : Reading → List OpenCall
  | start => []
  | argument call outer => call :: outer
  | after _ calls => calls

def atom? (place : Place) : Token → Option Expr
  | .quoted content => some (.string place content)
  | .digits ds => some (.number place ds)
  | .word name => some (.word place name)
  | _ => none

def close (call : OpenCall) : Expr := call.operator.call call.args.reverse

def push (call : OpenCall) (arg : Expr) : OpenCall := { call with args := arg :: call.args }

/-- The most characters of the remaining text that a message quotes. -/
def excerptLength : Nat := 40

def excerpt (rest : Bytes) : Bytes :=
  if rest.isEmpty then utf8 "end of input"
  else if excerptLength < Text.length rest then
    Text.ofChars ((Text.chars rest).take excerptLength) ++ utf8 "..."
  else rest

/-- The reading after one more token, or nothing when the token cannot stand here. -/
def step? (place : Place) : Reading → Token → Option Reading
  | start, token => (atom? place token).map fun e => after e []
  | argument call outer, .closeParen => some (after (close call) outer)
  | argument call outer, token => (atom? place token).map fun e => after e (call :: outer)
  | after e calls, .openParen => some (argument ⟨e, []⟩ calls)
  | after e (call :: outer), .comma => some (argument (push call e) outer)
  | after e (call :: outer), .closeParen => some (after (close (push call e)) outer)
  | after _ _, _ => none

/-- The fault of stopping in a reading with the given text left. -/
def fault (rest : Bytes) : Reading → Fault
  | start | argument .. => .unexpectedText (excerpt rest)
  | after _ (_ :: _) => .missingSeparator
  | after _ [] => .textAfterProgram (excerpt rest)

/-- Reads lexemes of `text` to the end; `place` gives the source place of an index of `text`. -/
def run (text : Bytes) (place : Nat → Place) : Reading → List Lexeme → Except Stop Expr
  | after e [], [] => .ok e
  | r, [] => .error ⟨text.length, r.fault []⟩
  | r, x :: rest =>
    match r.step? (place x.index) x.token with
    | some next => run text place next rest
    | none => .error ⟨x.index, r.fault (text.drop x.index)⟩

end Reading

namespace Stripped

def parse (s : Stripped) : Except Stop Expr :=
  Reading.run s.text s.place .start (Lexeme.scan 0 s.text)

end Stripped

/-- The program a source text holds, or the diagnostic of the first fault in it. -/
def parse (source : Bytes) : Except Diagnostic Expr :=
  let stripped := Stripped.ofSource source
  stripped.parse.mapError fun stop => .ofFault stop.fault (stripped.place stop.index)

/-- Whether a source text fails to be a program only because it ends too early. -/
def isIncomplete (source : Bytes) : Bool :=
  let stripped := Stripped.ofSource source
  match stripped.parse with
  | .ok _ => false
  | .error stop => stripped.text.length ≤ stop.index

end EggLang
