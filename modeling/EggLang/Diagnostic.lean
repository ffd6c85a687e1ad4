import EggLang.Source.Place

/-!
# Diagnostics

A failure of the compiler is a `Fault`, its cause in terms of the program. A `Diagnostic` is
what a reader is shown: a code, where it happened as far as known, and the message.
-/

namespace EggLang

/-- The causes for which a program is refused, and the failure of its generated code. -/
inductive Fault where
  /-- No expression starts here. -/
  | unexpectedText (excerpt : Bytes)
  /-- An argument is followed by neither a comma nor a closing parenthesis. -/
  | missingSeparator
  /-- The program is over and more follows. -/
  | textAfterProgram (excerpt : Bytes)
  | ifArity (given : Nat)
  | whileArity (given : Nat)
  | malformedDefine
  | malformedSet
  | setWithoutValue
  | functionWithoutBody
  | parameterNotWord
  /-- A word that nothing binds. -/
  | undefinedBinding (name : Bytes)
  /-- A call of a name bound to a plain value. -/
  | notApplicable (name : Bytes)
  /-- An assignment to a name that neither the current frame nor its parent owns. -/
  | unresolvedTarget (name : Bytes)
  | targetNotName
  /-- The generated code failed while it ran. -/
  | runtime (message : Bytes)
  deriving DecidableEq, Repr

namespace Fault

def code : Fault → String
  | unexpectedText _ => "P001"
  | missingSeparator => "P002"
  | textAfterProgram _ => "P003"
  | ifArity _ | whileArity _ | malformedDefine | malformedSet | setWithoutValue
  | functionWithoutBody | parameterNotWord => "F001"
  | undefinedBinding _ => "C001"
  | notApplicable _ => "C002"
  | unresolvedTarget _ | targetNotName => "C003"
  | runtime _ => "R001"

def message : Fault → Bytes
  | unexpectedText excerpt => utf8 "unexpected syntax: " ++ excerpt
  | missingSeparator => utf8 "expected ',' or ')'"
  | textAfterProgram excerpt => utf8 "unexpected text after program: " ++ excerpt
  | ifArity given => utf8 "wrong number of args to if: want 3, got " ++ Bytes.ofNat given
  | whileArity given => utf8 "wrong number of args to while: want 2, got " ++ Bytes.ofNat given
  | malformedDefine => utf8 "incorrect use of define"
  | malformedSet => utf8 "wrong use of set"
  | setWithoutValue => utf8 "wrong use of set: missing value"
  | functionWithoutBody => utf8 "functions need a body"
  | parameterNotWord => utf8 "parameter names must be words"
  | undefinedBinding name => utf8 "undefined binding: " ++ name
  | notApplicable name => utf8 "applying a non-function: " ++ name
  | unresolvedTarget name => utf8 "cannot set undefined binding: " ++ name
  | targetNotName => utf8 "cannot set undefined binding: target is not a name"
  | runtime message => message

end Fault

/-- The classes of failure that callers tell apart. -/
inductive FailureKind where
  | unknown
  | malformed
  | undefinedBinding
  | applyNonFunction
  | unresolvedAssignmentTarget
  | runtimeFailure
  deriving DecidableEq, Repr

namespace FailureKind

def ofCode (code : String) : FailureKind :=
  if code ∈ ["P001", "P002", "P003", "F001"] then malformed
  else if code = "C001" then undefinedBinding
  else if code = "C002" then applyNonFunction
  else if code = "C003" then unresolvedAssignmentTarget
  else if code = "R001" then runtimeFailure
  else unknown

def name : FailureKind → String
  | unknown => "Unknown"
  | malformed => "SyntaxFailure"
  | undefinedBinding => "UndefinedBinding"
  | applyNonFunction => "ApplyNonFunction"
  | unresolvedAssignmentTarget => "UnresolvedAssignmentTarget"
  | runtimeFailure => "RuntimeFailure"

end FailureKind

/-- A reported failure. A line of zero means that the place is not known. -/
structure Diagnostic where
  code : String
  file : Bytes := []
  line : Nat := 0
  column : Nat := 0
  message : Bytes
  deriving DecidableEq, Repr

namespace Diagnostic

def ofFault (fault : Fault) (place : Place) : Diagnostic :=
  { code := fault.code, line := place.line, column := place.column, message := fault.message }

/-- The report of a failure of the generated code, which no place of the source goes with. -/
def runtime (message : Bytes) : Diagnostic :=
  { code := (Fault.runtime message).code, message }

def kind (d : Diagnostic) : FailureKind := .ofCode d.code

/-- The file and place before a message, as far as they are known. -/
def whereabouts (d : Diagnostic) : Bytes :=
  (if d.file.isEmpty then [] else d.file ++ utf8 ":")
    ++ (if d.line = 0 then []
        else Bytes.ofNat d.line ++ utf8 ":" ++ Bytes.ofNat d.column ++ utf8 ":")

/-- The full text of a diagnostic, as in `prog.egg:1:8: error[P002]: expected ',' or ')'`. -/
def render (d : Diagnostic) : Bytes :=
  let at_ := d.whereabouts
  (if at_.isEmpty then [] else at_ ++ utf8 " ")
    ++ utf8 "error[" ++ utf8 d.code ++ utf8 "]: " ++ d.message

/-- The diagnostic with a file named, unless it has one. -/
def inFile (d : Diagnostic) (file : Bytes) : Diagnostic :=
  if d.file.isEmpty then { d with file } else d

end Diagnostic

/-- A failure as a caller gets it: a diagnostic, or any other error by its text. Context is put
before the text of either without losing the diagnostic. -/
inductive Failure where
  | diagnostic (d : Diagnostic)
  | plain (message : Bytes)
  | wrapped (context : Bytes) (inner : Failure)
  deriving DecidableEq, Repr

namespace Failure

def diagnostic? : Failure → Option Diagnostic
  | diagnostic d => some d
  | plain _ => none
  | wrapped _ inner => inner.diagnostic?

/-- The text of a failure, with its context before it. -/
def render : Failure → Bytes
  | diagnostic d => d.render
  | plain message => message
  | wrapped context inner => context ++ utf8 ": " ++ inner.render

/-- The class of a failure; one that holds no diagnostic is unknown. -/
def kind (f : Failure) : FailureKind :=
  match f.diagnostic? with
  | some d => d.kind
  | none => .unknown

/-- The code of a failure, empty when it holds no diagnostic. -/
def code (f : Failure) : String :=
  match f.diagnostic? with
  | some d => d.code
  | none => ""

end Failure

end EggLang
