import EggLang.Script.Numeric

/-!
# Scripts as trees

The statements and expressions of scripts. A pattern that takes a value apart, as in
`var [a, b = 1] = c`, is written with the expressions it looks like: an array or object literal
whose parts are what is assigned to, with `assign` for a part that has a default. What a
construct may leave out is written as `hole` or as `empty`.
-/

namespace EggLang.Script

inductive UnaryOp where
  | not
  | negate
  | toNumber
  | complement
  | typeOf
  | void
  deriving DecidableEq, Repr

/-- Operators that evaluate both operands. -/
inductive BinaryOp where
  | add
  | subtract
  | multiply
  | divide
  | remainder
  | power
  | looseEqual
  | looseUnequal
  | strictEqual
  | strictUnequal
  | less
  | greater
  | atMost
  | atLeast
  | bitAnd
  | bitOr
  | bitXor
  | shiftLeft
  | shiftRight
  | shiftRightZero
  | hasMember
  | instanceOf
  deriving DecidableEq, Repr

/-- Operators that may leave out their second operand. -/
inductive LogicalOp where
  | and
  | or
  | coalesce
  deriving DecidableEq, Repr

/-- How names are declared: for the whole function, or for a block, changeable or not. -/
inductive Declaration where
  | var
  | let
  | const
  deriving DecidableEq, Repr

/-- The sorts of function literals. -/
inductive FunctionKind where
  | normal
  /-- Takes `this` and `arguments` from around it. -/
  | arrow
  /-- Cannot construct. -/
  | method
  deriving DecidableEq, Repr

/-- What is known about a function literal apart from its parts. -/
structure FunctionInfo where
  kind : FunctionKind := .normal
  /-- The name that the literal gives itself. -/
  name : Option String := none
  /-- The script from the literal on. -/
  onwards : List Char := []
  /-- How many characters the literal has. -/
  extent : Nat := 0
  /-- The number of parameters before the first with a default. -/
  length : Nat := 0
  /-- Whether the parameters are names only. -/
  isSimple : Bool := true
  /-- The names of the parameters. -/
  parameters : List String := []
  /-- The names that the body declares for the whole function. -/
  variables_ : List String := []
  /-- Whether the arguments may be looked at as such. -/
  usesArguments : Bool := true
  deriving DecidableEq, Repr, Inhabited

mutual

inductive Expr where
  | number (value : Numeric)
  | string (units : Units)
  | bool (value : Bool)
  | null
  | this
  /-- The function that a construction started with. -/
  | newTarget
  | regex (pattern flags : List Char)
  | ident (name : String)
  /-- Nothing, where an expression is left out. -/
  | hole
  | spread (e : Expr)
  /-- Texts and expressions in turn, made into one text. -/
  | template (parts : List Expr)
  /-- The texts of a template as they read and as they are written, for the function that the
  template is given to. A text that cannot be read is a hole. -/
  | texts (texts : List Expr) (written : List Units)
  | array (elements : List Expr)
  | object (members : List Expr)
  /-- A member of an object literal; the key is an expression. -/
  | property (key value : Expr)
  /-- A member that sets the prototype. -/
  | prototype (value : Expr)
  /-- A method of an object literal. -/
  | method (key : Expr) (f : Function)
  | getter (key : Expr) (f : Function)
  | setter (key : Expr) (f : Function)
  | function (f : Function)
  | unary (op : UnaryOp) (operand : Expr)
  | delete (operand : Expr)
  | binary (op : BinaryOp) (left right : Expr)
  | logical (op : LogicalOp) (left right : Expr)
  | conditional (cond yes no : Expr)
  | assign (target value : Expr)
  /-- An assignment that combines the old value with a new one, such as `x += 1`. -/
  | compound (op : BinaryOp) (target value : Expr)
  /-- An increment or a decrement; `givesOld` when the operator stands after its operand. -/
  | update (op : BinaryOp) (givesOld : Bool) (target : Expr)
  /-- A call; one that is optional gives nothing where there is no function. -/
  | call (optional : Bool) (callee : Expr) (args : List Expr)
  | construct (callee : Expr) (args : List Expr)
  | member (optional : Bool) (object : Expr) (name : Units)
  | index (optional : Bool) (object : Expr) (index : Expr)
  /-- The whole of a chain of accesses some of which are optional. -/
  | chain (e : Expr)
  | sequence (first second : Expr)

/-- A function literal: its parameters as patterns, the last one a `spread` if it takes all that
is left, and its body. -/
inductive Function where
  | mk (info : FunctionInfo) (params : List Expr) (body : List Stmt)

inductive Stmt where
  | expression (e : Expr)
  | declare (kind : Declaration) (target value : Expr)
  | function (name : String) (f : Function)
  | if (cond : Expr) (yes no : Stmt)
  | while (cond : Expr) (body : Stmt)
  | doWhile (body : Stmt) (cond : Expr)
  /-- A loop with a start, which may declare names, a condition and a step. -/
  | for (start : List Stmt) (cond step : Expr) (body : Stmt)
  /-- A loop over the names of the members of an object. -/
  | forIn (kind : Option Declaration) (target object : Expr) (body : Stmt)
  /-- A loop over what can be iterated. -/
  | forOf (kind : Option Declaration) (target object : Expr) (body : Stmt)
  | return (value : Expr)
  | throw (value : Expr)
  | break (label : Option String)
  | continue (label : Option String)
  | block (body : List Stmt)
  | labelled (label : String) (body : Stmt)
  /-- A choice among the cases, which are `case` statements. -/
  | switch (subject : Expr) (cases : List Stmt)
  /-- A case; the default one has no test. -/
  | case (test : Expr) (body : List Stmt)
  | tryCatch (block : Stmt) (param : Expr) (handler : Stmt)
  | tryFinally (block finalizer : Stmt)
  | empty

end

instance : Inhabited Expr := ⟨.hole⟩

instance : Inhabited Stmt := ⟨.empty⟩

instance : Inhabited Function := ⟨.mk {} [] []⟩

namespace Function

def info : Function → FunctionInfo
  | mk info _ _ => info

def params : Function → List Expr
  | mk _ params _ => params

def body : Function → List Stmt
  | mk _ _ body => body

def text (f : Function) : List Char := f.info.onwards.take f.info.extent

end Function

namespace Expr

/-- Whether an expression names a place that can be assigned to. -/
def isReference : Expr → Bool
  | ident _ => true
  | member optional .. => !optional
  | index optional .. => !optional
  | _ => false

/-- Whether an expression is a function without a name, which takes the name of what it is
assigned to. -/
def isNameless : Expr → Bool
  | function f => f.info.name.isNone
  | _ => false

mutual

def names : Expr → List String
  | ident name => [name]
  | assign target _ => names target
  | spread e => names e
  | array elements => namesAll elements
  | object members => namesAll members
  | property _ value => names value
  | _ => []

def namesAll : List Expr → List String
  | [] => []
  | e :: rest => names e ++ namesAll rest

end

end Expr

namespace Stmt

mutual

/-- The names a statement declares for the whole enclosing function. -/
def variables_ : Stmt → List String
  | declare .var target _ => target.names
  | .if _ yes no => variables_ yes ++ variables_ no
  | .while _ body => variables_ body
  | doWhile body _ => variables_ body
  | .for start _ _ body => variablesAll start ++ variables_ body
  | forIn kind target _ body | forOf kind target _ body =>
    (if kind = some .var then target.names else []) ++ variables_ body
  | block body => variablesAll body
  | labelled _ body => variables_ body
  | switch _ cases => variablesAll cases
  | case _ body => variablesAll body
  | tryCatch tried _ handler => variables_ tried ++ variables_ handler
  | tryFinally tried finalizer => variables_ tried ++ variables_ finalizer
  | _ => []

/-- The names several statements declare for the whole enclosing function. -/
def variablesAll : List Stmt → List String
  | [] => []
  | s :: rest => variables_ s ++ variablesAll rest

end

/-- The names a statement declares for its block, and whether they can be changed. -/
def locals : Stmt → List (String × Bool)
  | declare .let target _ => target.names.map (·, true)
  | declare .const target _ => target.names.map (·, false)
  | _ => []

def unlabelled : Stmt → Stmt
  | labelled _ body => unlabelled body
  | s => s

def functions : List Stmt → List (String × Function)
  | [] => []
  | .function name f :: rest => (name, f) :: functions rest
  | .labelled _ s :: rest =>
    match s.unlabelled with
    | .function name f => (name, f) :: functions rest
    | _ => functions rest
  | _ :: rest => functions rest

end Stmt

end EggLang.Script
