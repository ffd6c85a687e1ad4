import EggLang.Bytes
import EggLang.Cache.Basic
import EggLang.Cache.Digest
import EggLang.Code.Basic
import EggLang.Code.Printer
import EggLang.Command.Basic
import EggLang.Command.Highlight
import EggLang.Compiler.Basic
import EggLang.Compiler.Primitive
import EggLang.Config.Basic
import EggLang.Config.Discovery
import EggLang.Data.Basic
import EggLang.Data.Json
import EggLang.Data.Reader
import EggLang.Diagnostic
import EggLang.Disk.Basic
import EggLang.Disk.Database
import EggLang.Disk.Path
import EggLang.Expr.Basic
import EggLang.Expr.Outline
import EggLang.Expr.Parser
import EggLang.Expr.Printer
import EggLang.Expr.Token
import EggLang.Main
import EggLang.Number.Arithmetic
import EggLang.Number.Binary64
import EggLang.Number.Layout
import EggLang.Number.Shortest
import EggLang.Proofs.Cache.Encoding
import EggLang.Proofs.Cache.History
import EggLang.Proofs.Code.Conditions
import EggLang.Proofs.Code.Indentation
import EggLang.Proofs.Code.Literal
import EggLang.Proofs.Code.Scoping
import EggLang.Proofs.Code.Sorts
import EggLang.Proofs.Code.Writing
import EggLang.Proofs.Compiler.Apart
import EggLang.Proofs.Compiler.Arity
import EggLang.Proofs.Compiler.Assignment
import EggLang.Proofs.Compiler.Closing
import EggLang.Proofs.Compiler.Confinement
import EggLang.Proofs.Compiler.Environment
import EggLang.Proofs.Compiler.Failures
import EggLang.Proofs.Compiler.Growth
import EggLang.Proofs.Compiler.Locality
import EggLang.Proofs.Compiler.Placement
import EggLang.Proofs.Compiler.Programs
import EggLang.Proofs.Compiler.Reachable
import EggLang.Proofs.Compiler.Referents
import EggLang.Proofs.Compiler.Refusals
import EggLang.Proofs.Compiler.Registration
import EggLang.Proofs.Compiler.Resolution
import EggLang.Proofs.Compiler.Root
import EggLang.Proofs.Compiler.Runs
import EggLang.Proofs.Compiler.Scopes
import EggLang.Proofs.Compiler.Sequences
import EggLang.Proofs.Compiler.Sorts
import EggLang.Proofs.Compiler.Steps
import EggLang.Proofs.Compiler.Tracking
import EggLang.Proofs.Compiler.Traversal
import EggLang.Proofs.Config.Discovery
import EggLang.Proofs.Data.Reading
import EggLang.Proofs.Disk.Path
import EggLang.Proofs.Expr.Bounds
import EggLang.Proofs.Expr.Continuation
import EggLang.Proofs.Expr.Derivation
import EggLang.Proofs.Expr.Descent
import EggLang.Proofs.Expr.Grammar
import EggLang.Proofs.Expr.Joining
import EggLang.Proofs.Expr.Names
import EggLang.Proofs.Expr.Outline
import EggLang.Proofs.Expr.Positions
import EggLang.Proofs.Expr.Programs
import EggLang.Proofs.Expr.Reading
import EggLang.Proofs.Expr.RoundTrip
import EggLang.Proofs.Expr.Scanning
import EggLang.Proofs.Expr.Stopping
import EggLang.Proofs.Expr.Token
import EggLang.Proofs.Number.Digits
import EggLang.Proofs.Number.Distinct
import EggLang.Proofs.Number.Layout
import EggLang.Proofs.Number.Literal
import EggLang.Proofs.Number.Nearest
import EggLang.Proofs.Number.Rounding
import EggLang.Proofs.Number.Shortest
import EggLang.Proofs.Number.Whole
import EggLang.Proofs.Repl.Grouping
import EggLang.Proofs.Repl.History
import EggLang.Proofs.Run.Recovery
import EggLang.Proofs.Run.Stages
import EggLang.Proofs.Scope.Frames
import EggLang.Proofs.Scope.Lookup
import EggLang.Proofs.Scope.Registry
import EggLang.Proofs.Script.Ahead
import EggLang.Proofs.Script.Alike
import EggLang.Proofs.Script.Bodies
import EggLang.Proofs.Script.BuiltIn
import EggLang.Proofs.Script.Call
import EggLang.Proofs.Script.Check
import EggLang.Proofs.Script.Clauses
import EggLang.Proofs.Script.Conversions
import EggLang.Proofs.Script.Course
import EggLang.Proofs.Script.Entry
import EggLang.Proofs.Script.Equations
import EggLang.Proofs.Script.Evaluation
import EggLang.Proofs.Script.Extension
import EggLang.Proofs.Script.Factors
import EggLang.Proofs.Script.Failing
import EggLang.Proofs.Script.Guards
import EggLang.Proofs.Script.Identifier
import EggLang.Proofs.Script.Lexeme
import EggLang.Proofs.Script.Lines
import EggLang.Proofs.Script.Lockstep
import EggLang.Proofs.Script.Meeting
import EggLang.Proofs.Script.Mirror
import EggLang.Proofs.Script.Numeral
import EggLang.Proofs.Script.Operands
import EggLang.Proofs.Script.Outcome
import EggLang.Proofs.Script.Parts
import EggLang.Proofs.Script.Patterns
import EggLang.Proofs.Script.Phrases
import EggLang.Proofs.Script.Points
import EggLang.Proofs.Script.Results
import EggLang.Proofs.Script.Rows
import EggLang.Proofs.Script.Sequence
import EggLang.Proofs.Script.Shift
import EggLang.Proofs.Script.Spelling
import EggLang.Proofs.Script.Start
import EggLang.Proofs.Script.Statements
import EggLang.Proofs.Script.Steps
import EggLang.Proofs.Script.Twins
import EggLang.Proofs.Script.Wrapped
import EggLang.Proofs.Server.Isolation
import EggLang.Proofs.Server.Ownership
import EggLang.Proofs.Server.Stopping
import EggLang.Proofs.Server.Traffic
import EggLang.Proofs.Session.Compilation
import EggLang.Proofs.Session.Root
import EggLang.Proofs.Session.Translation
import EggLang.Proofs.Session.Transparency
import EggLang.Proofs.Source.Continuation
import EggLang.Proofs.Source.Joining
import EggLang.Proofs.Source.Lines
import EggLang.Proofs.Source.Positions
import EggLang.Proofs.Source.Restripping
import EggLang.Proofs.Source.Strip
import EggLang.Proofs.Text.Occurrences
import EggLang.Proofs.Text.Pieces
import EggLang.Proofs.Text.Quoted
import EggLang.Proofs.Text.Utf8
import EggLang.Repl.Basic
import EggLang.Run.Child
import EggLang.Run.Executor
import EggLang.Run.Job
import EggLang.Run.Select
import EggLang.Scope.Frames
import EggLang.Scope.Registry
import EggLang.Script.Action
import EggLang.Script.Convert
import EggLang.Script.Environment
import EggLang.Script.Evaluation
import EggLang.Script.Library.Array
import EggLang.Script.Library.Collection
import EggLang.Script.Library.Global
import EggLang.Script.Library.Json
import EggLang.Script.Library.Number
import EggLang.Script.Library.Object
import EggLang.Script.Library.Pattern
import EggLang.Script.Library.Text
import EggLang.Script.Machine
import EggLang.Script.Native
import EggLang.Script.Numeric
import EggLang.Script.Operator
import EggLang.Script.Parser
import EggLang.Script.Reading
import EggLang.Script.Regex
import EggLang.Script.Result
import EggLang.Script.Start
import EggLang.Script.Token
import EggLang.Script.Tree
import EggLang.Script.Value
import EggLang.Server.Address
import EggLang.Server.Basic
import EggLang.Session.Basic
import EggLang.Source.Place
import EggLang.Source.Strip
import EggLang.Text.Blank
import EggLang.Text.Casing
import EggLang.Text.Classes
import EggLang.Text.Quoted
import EggLang.Text.Units
import EggLang.Text.Utf8
import EggLang.Yaml.Basic
import EggLang.Yaml.Members
import EggLang.Yaml.Reader
import EggLang.Yaml.Scalar
import EggLang.Yaml.Scanner
import EggLang.Yaml.Token
