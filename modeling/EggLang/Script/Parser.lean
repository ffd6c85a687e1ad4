import EggLang.Script.Regex
import EggLang.Script.Token
import EggLang.Script.Tree

/-!
# Reading scripts

A recursive-descent reader of tokens, binary operators by precedence. Reading gives a tree and the
place after it, or nothing where the text is malformed. A statement that lacks its semicolon ends
where the next token stands on a new line or closes the block, and only if that token cannot
continue it. Every recursion takes one unit of fuel; `fuelFor` gives more than a text can use up.
-/

namespace EggLang.Script

/-- The words that name nothing. -/
def reserved : List String :=
  ["break", "case", "catch", "class", "const", "continue", "debugger", "default", "delete", "do",
    "else", "enum", "export", "extends", "false", "finally", "for", "function", "if", "import",
    "in", "instanceof", "new", "null", "return", "super", "switch", "this", "throw", "true", "try",
    "typeof", "var", "void", "while", "with"]

/-- What surrounds a statement or an expression. -/
structure Surround where
  /-- Whether a function is around. -/
  inFunction : Bool := false
  /-- Whether a loop is around. -/
  inLoop : Bool := false
  /-- Whether a `switch` is around. -/
  inSwitch : Bool := false
  /-- The labels around, and whether they stand before a loop. -/
  labels : List (String × Bool) := []
  /-- Whether `in` is no operator, as in the start of a loop. -/
  withoutIn : Bool := false

namespace Surround

def inside (c : Surround) : Surround := { c with withoutIn := false }

def loop (c : Surround) : Surround := { c with inLoop := true }

def function : Surround := { inFunction := true }

end Surround

namespace Parser

/-- A reading step: it may find the text malformed. -/
abbrev Parse := StateT Place Option

def malformed {α : Type} : Parse α := fun _ => none

/-- Checks a condition without which the text is malformed. -/
def require (b : Bool) : Parse Unit := if b then pure () else malformed

def peek : Parse Token := return (← get).token

def advance : Parse Unit := modify Place.next

def atMark (m : String) : Parse Bool := return (← peek) = .mark m

def atWord (w : String) : Parse Bool := return (← peek) = .name w false

/-- Passes the given mark if it is next, and says whether it was. -/
def takeMark (m : String) : Parse Bool := do
  if ← atMark m then
    advance
    return true
  return false

/-- Passes the given word if it is next, and says whether it was. -/
def takeWord (w : String) : Parse Bool := do
  if ← atWord w then
    advance
    return true
  return false

def expect (m : String) : Parse Unit := do require (← takeMark m)

def expectWord (w : String) : Parse Unit := do require (← takeWord w)

def nameOf? : Token → Option String
  | .name n _ => if n ∈ reserved then none else some n
  | _ => none

/-- Reads a name that is not reserved. -/
def identifier : Parse String := do
  match nameOf? (← peek) with
  | some n =>
    advance
    return n
  | none => malformed

/-- Whether the next token stands on a new line, or there is none. -/
def onNewLine : Parse Bool := do
  let p ← get
  return p.afterBreak || p.token = .end

def endStatement : Parse Unit := do
  if ← takeMark ";" then return
  require ((← onNewLine) || (← atMark "\x7d"))

/-- Tries a reading and goes back if the text is not of that form. -/
def attempt {α : Type} (p : Parse α) : Parse (Option α) := fun place =>
  match p place with
  | some (a, after) => some (some a, after)
  | none => some (none, place)

/-! ## Operators -/

/-- The binary operators that evaluate both operands, with how tightly they bind. -/
def strictOperators : List (String × Nat × BinaryOp) :=
  [("|", 3, .bitOr), ("^", 4, .bitXor), ("&", 5, .bitAnd), ("==", 6, .looseEqual),
    ("!=", 6, .looseUnequal), ("===", 6, .strictEqual), ("!==", 6, .strictUnequal),
    ("<", 7, .less), (">", 7, .greater), ("<=", 7, .atMost), (">=", 7, .atLeast),
    ("<<", 8, .shiftLeft), (">>", 8, .shiftRight), (">>>", 8, .shiftRightZero), ("+", 9, .add),
    ("-", 9, .subtract), ("*", 10, .multiply), ("/", 10, .divide), ("%", 10, .remainder)]

/-- How tightly comparisons bind. They lean to the right: `a < b < c` is `a < (b < c)`. -/
def comparisonLevel : Nat := 7

/-- A binary operator of either kind. -/
inductive Operator where
  | strict (op : BinaryOp)
  | lazy (op : LogicalOp)

/-- The operation of a binary operator on two operands. -/
def Operator.apply (left right : Expr) : Operator → Expr
  | .strict op => .binary op left right
  | .lazy op => .logical op left right

/-- The precedence of a binary operator and the operator; a higher one binds tighter. -/
def operator? (c : Surround) : Token → Option (Nat × Operator)
  | .mark "||" => some (1, .lazy .or)
  | .mark "&&" => some (2, .lazy .and)
  | .mark m => (strictOperators.lookup m).map fun (level, op) => (level, .strict op)
  | .name "in" false => if c.withoutIn then none else some (comparisonLevel, .strict .hasMember)
  | .name "instanceof" false => some (comparisonLevel, .strict .instanceOf)
  | _ => none

/-- The operators of assignments other than `=`. -/
def compounds : List (String × BinaryOp) :=
  [("+=", .add), ("-=", .subtract), ("*=", .multiply), ("/=", .divide), ("%=", .remainder),
    ("**=", .power), ("<<=", .shiftLeft), (">>=", .shiftRight), (">>>=", .shiftRightZero),
    ("&=", .bitAnd), ("|=", .bitOr), ("^=", .bitXor)]

def unary? : Token → Option UnaryOp
  | .mark "!" => some .not
  | .mark "-" => some .negate
  | .mark "+" => some .toNumber
  | .mark "~" => some .complement
  | .name "typeof" false => some .typeOf
  | .name "void" false => some .void
  | _ => none

def update? : Token → Option BinaryOp
  | .mark "++" => some .add
  | .mark "--" => some .subtract
  | _ => none

/-- Whether an expression is an operation with one operand. -/
def isUnary : Expr → Bool
  | .unary .. | .delete _ => true
  | _ => false

/-! ## Patterns -/

mutual

/-- Whether a literal has a default that only a pattern can have. Such a default is written as an
assignment to the key itself. -/
def hasDefault : Expr → Bool
  | .array es => hasDefaultAny es
  | .object ms => hasDefaultAny ms
  | .property (.hole) _ => true
  | .property _ value => hasDefault value
  | .spread e => hasDefault e
  | _ => false

/-- Whether one of several literals has such a default. -/
def hasDefaultAny : List Expr → Bool
  | [] => false
  | e :: rest => hasDefault e || hasDefaultAny rest

end

mutual

/-- The pattern that a literal is, if it can be assigned to. A default behind a key is kept with a
hole for its key until it is known to belong to a pattern. -/
def pattern? : Expr → Option Expr
  | .array es => (elements? es).map .array
  | .object ms => (members? ms).map .object
  | .assign target value => (pattern? target).map (.assign · value)
  | e => if e.isReference then some e else none

/-- The elements of an array pattern; a spread comes last. -/
def elements? : List Expr → Option (List Expr)
  | [] => some []
  | .hole :: rest => (elements? rest).map (.hole :: ·)
  | .spread (.assign ..) :: _ => none
  | .spread e :: rest => if rest.isEmpty then (pattern? e).map ([.spread ·]) else none
  | e :: rest => do return (← pattern? e) :: (← elements? rest)

/-- The members of an object pattern; a spread comes last and names a place. -/
def members? : List Expr → Option (List Expr)
  | [] => some []
  | .spread e :: rest => if rest.isEmpty && e.isReference then some [.spread e] else none
  | .property .hole (.assign (.ident name) value) :: rest => do
    let key := Expr.string (Units.ofString name)
    return .property key (.assign (.ident name) value) :: (← members? rest)
  | .property key value :: rest => do
    return .property key (← pattern? value) :: (← members? rest)
  | .prototype value :: rest => do
    return .property (.string (Units.ofString "__proto__")) (← pattern? value) :: (← members? rest)
  | _ => none

end

def isName : Expr → Bool
  | .ident _ => true
  | _ => false

/-! ## Scopes -/

/-- Whether a list has no name twice. -/
def areDistinct (names : List String) : Bool := names.eraseDups.length = names.length

/-- Whether the statements of a block declare no name twice: a name of the block neither again in
the block nor for the function. -/
def isWellScoped (taken : List String) (body : List Stmt) (isFunction : Bool) : Bool :=
  let functions := (Stmt.functions body).map (·.1)
  let locals := body.flatMap fun s => s.locals.map (·.1)
  let vars := Stmt.variablesAll body ++ taken
  let (locals, vars) := if isFunction then (locals, functions ++ vars)
    else (locals ++ functions.eraseDups, vars)
  areDistinct locals && locals.all (!vars.contains ·)

/-- Whether a part starts at one of so many places of a text. -/
def hasText (part : List Char) : (places : Nat) → List Char → Bool
  | 0, _ => false
  | _ + 1, [] => part.isEmpty
  | n + 1, c :: rest => part.isPrefixOf (c :: rest) || hasText part n rest

/-- The number of parameters before the first with a default. -/
def lengthOf : List Expr → Nat
  | [] | .assign .. :: _ | .spread _ :: _ => 0
  | _ :: rest => lengthOf rest + 1

/-- A function literal from its parts: it starts at a place and has so many characters. -/
def makeFunction (kind : FunctionKind) (name : Option String) (start : Place) (extent : Nat)
    (params : List Expr) (body : List Stmt) : Function :=
  let isSimple := params.all isName
  let has (part : String) := hasText part.toList extent start.text
  .mk { kind, name, onwards := start.text, extent, length := lengthOf params, isSimple
        parameters := Expr.namesAll params
        variables_ := (Stmt.variablesAll body).eraseDups
        usesArguments := has "arguments" || has "eval" || has "\\" } params body

/-- Checks that a function declares no name twice. -/
def checkFunction (kind : FunctionKind) (params : List Expr) (body : List Stmt) : Parse Unit := do
  let names := Expr.namesAll params
  require ((params.all isName && kind = .normal) || areDistinct names)
  require (isWellScoped names body true)

/-! ## Keys -/

/-- The text of a name or keyword, number or string as the key of a member. -/
def keyText? : Token → Option Units
  | .name n _ => some (Units.ofString n)
  | .string u => some u
  | .number x => some x.text
  | _ => none

def prototypeKey : Units := Units.ofString "__proto__"

/-- Whether an object literal sets its prototype at most once. -/
def hasOnePrototype (ms : List Expr) : Bool :=
  (ms.filter fun m => match m with
    | .prototype _ => true
    | _ => false).length ≤ 1

mutual

/-- Reads an expression, commas between its parts included. -/
def expression (c : Surround) : (fuel : Nat) → Parse Expr
  | 0 => malformed
  | fuel + 1 => do
    let first ← assignment c false fuel
    expressionRest c fuel first

/-- Reads the parts of an expression after the first one. -/
def expressionRest (c : Surround) : (fuel : Nat) → Expr → Parse Expr
  | 0, _ => malformed
  | fuel + 1, first => do
    if ← takeMark "," then
      let second ← assignment c false fuel
      expressionRest c fuel (.sequence first second)
    else return first

/-- Reads an assignment, a function with an arrow, or what binds tighter. Defaults behind the keys
of a literal are left in it where `cover` holds, because what is around it may be a pattern. -/
def assignment (c : Surround) (cover : Bool) : (fuel : Nat) → Parse Expr
  | 0 => malformed
  | fuel + 1 => do
    match ← attempt (arrowHead fuel) with
    | some (start, params) => arrowBody c fuel start params
    | none =>
      let isBracketed ← atMark "("
      let left ← conditional c fuel
      match ← peek with
      | .mark "=" =>
        let target ← if left.isReference then pure left
          else if isBracketed then malformed
          else match left with
            | .array _ | .object _ =>
              match pattern? left with
              | some p => pure p
              | none => malformed
            | _ => malformed
        advance
        return .assign target (← assignment c false fuel)
      | .mark m =>
        match compounds.lookup m with
        | some op =>
          require left.isReference
          advance
          return .compound op left (← assignment c false fuel)
        | none =>
          require (cover || !hasDefault left)
          return left
      | _ =>
        require (cover || !hasDefault left)
        return left

/-- Reads the parameters of a function with an arrow, and the arrow, which has to stand on the same
line. Gives also the place where the function starts. -/
def arrowHead : (fuel : Nat) → Parse (Place × List Expr)
  | 0 => malformed
  | fuel + 1 => do
    let start ← get
    let params ←
      if ← takeMark "(" then parameters fuel
      else do
        let name ← identifier
        pure [Expr.ident name]
    require !(← get).afterBreak
    expect "=>"
    return (start, params)

def arrowBody (c : Surround) : (fuel : Nat) → Place → List Expr → Parse Expr
  | 0, _, _ => malformed
  | fuel + 1, start, params => do
    let body ←
      if ← takeMark "\x7b" then do
        let (body, _) ← blockRest .function fuel []
        pure body
      else do
        let value ← assignment { Surround.function with withoutIn := c.withoutIn } false fuel
        pure [.return value]
    checkFunction .arrow params body
    return .function
      (makeFunction .arrow none start ((← get).reached - start.start) params body)

def conditional (c : Surround) : (fuel : Nat) → Parse Expr
  | 0 => malformed
  | fuel + 1 => do
    let cond ← shortCircuit c fuel
    if ← takeMark "?" then
      let yes ← assignment c.inside false fuel
      expect ":"
      return .conditional cond yes (← assignment c false fuel)
    else return cond

/-- Reads logical operations or what binds tighter. The operator `??` does not mix with the
others. -/
def shortCircuit (c : Surround) : (fuel : Nat) → Parse Expr
  | 0 => malformed
  | fuel + 1 => do
    let left ← binary c 3 fuel
    if ← atMark "??" then coalesceRest c fuel left
    else binaryRest c 1 fuel left

/-- Reads the operands after `??`. -/
def coalesceRest (c : Surround) : (fuel : Nat) → Expr → Parse Expr
  | 0, _ => malformed
  | fuel + 1, left => do
    if ← takeMark "??" then
      let right ← binary c 3 fuel
      coalesceRest c fuel (.logical .coalesce left right)
    else return left

/-- Reads binary operations whose operators have at least the given precedence. -/
def binary (c : Surround) (least : Nat) : (fuel : Nat) → Parse Expr
  | 0 => malformed
  | fuel + 1 => do
    let left ← power c fuel
    binaryRest c least fuel left

/-- Reads the operators and operands after the first one. -/
def binaryRest (c : Surround) (least : Nat) : (fuel : Nat) → Expr → Parse Expr
  | 0, _ => malformed
  | fuel + 1, left => do
    match operator? c (← peek) with
    | some (level, op) =>
      if level < least then return left
      advance
      let right ← binary c (if level = comparisonLevel then level else level + 1) fuel
      binaryRest c least fuel (op.apply left right)
    | none => return left

/-- Reads powers or what binds tighter. A power has no bare unary operation before it. -/
def power (c : Surround) : (fuel : Nat) → Parse Expr
  | 0 => malformed
  | fuel + 1 => do
    let isBracketed ← atMark "("
    let left ← unary c fuel
    if ← takeMark "**" then
      require (isBracketed || !isUnary left)
      return .binary .power left (← power c fuel)
    else return left

/-- Reads a unary operation, an increment or a decrement, or what binds tighter. -/
def unary (c : Surround) : (fuel : Nat) → Parse Expr
  | 0 => malformed
  | fuel + 1 => do
    let token ← peek
    match unary? token with
    | some op =>
      advance
      return .unary op (← unary c fuel)
    | none =>
      match update? token with
      | some op =>
        advance
        let target ← unary c fuel
        require target.isReference
        return .update op false target
      | none =>
        if ← takeWord "delete" then return .delete (← unary c fuel)
        let operand ← access c fuel
        match update? (← peek) with
        | some op =>
          if (← get).afterBreak then return operand
          require operand.isReference
          advance
          return .update op true operand
        | none => return operand

/-- Reads a primary expression with the calls and the member accesses after it. -/
def access (c : Surround) : (fuel : Nat) → Parse Expr
  | 0 => malformed
  | fuel + 1 => do
    let head ← if ← takeWord "new" then construction c fuel else primary c fuel
    accessRest c true false fuel head

/-- Reads the calls (where allowed) and member accesses after an expression. In a chain with an
optional access no template can follow. -/
def accessRest (c : Surround) (calls isChain : Bool) : (fuel : Nat) → Expr → Parse Expr
  | 0, _ => malformed
  | fuel + 1, head => do
    match ← peek with
    | .mark "." =>
      advance
      let name ← memberName
      accessRest c calls isChain fuel (.member false head name)
    | .mark "[" =>
      advance
      let i ← expression c.inside fuel
      expect "]"
      accessRest c calls isChain fuel (.index false head i)
    | .mark "(" =>
      if calls then
        advance
        let args ← arguments c.inside fuel
        accessRest c calls isChain fuel (.call false head args)
      else return finish head
    | .mark "?." =>
      if calls then
        advance
        match ← peek with
        | .mark "[" =>
          advance
          let i ← expression c.inside fuel
          expect "]"
          accessRest c calls true fuel (.index true head i)
        | .mark "(" =>
          advance
          let args ← arguments c.inside fuel
          accessRest c calls true fuel (.call true head args)
        | _ =>
          let name ← memberName
          accessRest c calls true fuel (.member true head name)
      else return finish head
    | .backquote =>
      require !isChain
      let (texts, written, parts) ← templateAt c fuel
      accessRest c calls isChain fuel (.call false head (.texts texts written :: parts))
    | _ => return finish head
where
  /-- Reads the name of a member. -/
  memberName : Parse Units := do
    match ← peek with
    | .name n _ =>
      advance
      return Units.ofString n
    | _ => malformed
  /-- The whole of a chain. -/
  finish (e : Expr) : Expr := if isChain then .chain e else e

/-- Reads what stands after `new`. -/
def construction (c : Surround) : (fuel : Nat) → Parse Expr
  | 0 => malformed
  | fuel + 1 => do
    if ← takeMark "." then
      require c.inFunction
      expectWord "target"
      return .newTarget
    let head ← if ← takeWord "new" then construction c fuel else primary c fuel
    let callee ← accessRest c false false fuel head
    if ← takeMark "(" then return .construct callee (← arguments c.inside fuel)
    else return .construct callee []

/-- Reads arguments up to the closing parenthesis. -/
def arguments (c : Surround) : (fuel : Nat) → Parse (List Expr)
  | 0 => malformed
  | fuel + 1 => do
    if ← takeMark ")" then return []
    let isSpread ← takeMark "..."
    let value ← assignment c false fuel
    let arg := if isSpread then Expr.spread value else value
    if ← takeMark ")" then return [arg]
    expect ","
    return arg :: (← arguments c fuel)

/-- Reads array elements up to the closing bracket. -/
def elements (c : Surround) : (fuel : Nat) → Parse (List Expr)
  | 0 => malformed
  | fuel + 1 => do
    if ← takeMark "]" then return []
    if ← takeMark "," then return .hole :: (← elements c fuel)
    let isSpread ← takeMark "..."
    let value ← assignment c true fuel
    let element := if isSpread then Expr.spread value else value
    if ← takeMark "]" then return [element]
    expect ","
    return element :: (← elements c fuel)

/-- Reads the key of a member: a name, a text, a number, or an expression in brackets. Gives also
whether it is such an expression. -/
def memberKey (c : Surround) : (fuel : Nat) → Parse (Expr × Bool)
  | 0 => malformed
  | fuel + 1 => do
    match keyText? (← peek) with
    | some u =>
      advance
      return (.string u, false)
    | none =>
      expect "["
      let e ← assignment c false fuel
      expect "]"
      return (e, true)

/-- Reads one member of an object literal. A bare name is its own value; one with a default is
kept with a hole for its key. -/
def objectMember (c : Surround) : (fuel : Nat) → Parse Expr
  | 0 => malformed
  | fuel + 1 => do
    if ← takeMark "..." then return .spread (← assignment c true fuel)
    let start ← get
    let (key, isComputed) ← memberKey c fuel
    let isAccessor := start.token = .name "get" false || start.token = .name "set" false
    match ← peek with
    | .mark ":" =>
      advance
      let value ← assignment c true fuel
      return match key with
        | .string u =>
          if u = prototypeKey && !isComputed then .prototype value else .property key value
        | _ => .property key value
    | .mark "(" =>
      let f ← methodAt start fuel
      return .method key f
    | .mark m =>
      if m = "," || m = "\x7d" || m = "=" then
        match nameOf? start.token with
        | some name =>
          if ← takeMark "=" then
            return .property .hole (.assign (.ident name) (← assignment c false fuel))
          else return .property key (.ident name)
        | none => malformed
      else
        require (isAccessor && m = "[")
        accessor c start fuel
    | _ =>
      require isAccessor
      accessor c start fuel

/-- Reads the rest of a getter or a setter that starts at a place. -/
def accessor (c : Surround) (start : Place) : (fuel : Nat) → Parse Expr
  | 0 => malformed
  | fuel + 1 => do
    let (key, _) ← memberKey c fuel
    let f ← methodAt start fuel
    return if start.token = .name "get" false then .getter key f else .setter key f

/-- Reads the parameters and the body of a method that starts at a place. -/
def methodAt (start : Place) : (fuel : Nat) → Parse Function
  | 0 => malformed
  | fuel + 1 => do
    expect "("
    let params ← parameters fuel
    expect "\x7b"
    let (body, stop) ← blockRest .function fuel []
    checkFunction .method params body
    return makeFunction .method none start (stop - start.start) params body

/-- Reads the members of an object literal up to the closing brace. -/
def members (c : Surround) : (fuel : Nat) → Parse (List Expr)
  | 0 => malformed
  | fuel + 1 => do
    if ← takeMark "\x7d" then return []
    let entry ← objectMember c fuel
    if ← takeMark "\x7d" then return [entry]
    expect ","
    return entry :: (← members c fuel)

/-- Reads a template that starts at its quote: its texts as they read and as they are written, and
the expressions between them. -/
def templateAt (c : Surround) : (fuel : Nat) → Parse (List Expr × List Units × List Expr)
  | 0 => malformed
  | fuel + 1 => do
    let p ← get
    match Token.Chunk.read? 0 p.rest with
    | none => malformed
    | some chunk =>
      let text := match chunk.text with
        | some u => Expr.string u
        | none => .hole
      let stop := p.stop + chunk.length
      set { Place.find stop false (p.rest.drop chunk.length) with reached := stop }
      if chunk.isLast then return ([text], [chunk.written], [])
      let part ← expression c.inside fuel
      -- The brace stays where it is: the text goes on right behind it.
      require (← atMark "\x7d")
      let (texts, written, parts) ← templateAt c fuel
      return (text :: texts, chunk.written :: written, part :: parts)

/-- Reads an expression without operators around it. -/
def primary (c : Surround) : (fuel : Nat) → Parse Expr
  | 0 => malformed
  | fuel + 1 => do
    let p ← get
    match p.token with
    | .number n =>
      advance
      return .number n
    | .string u =>
      advance
      return .string u
    | .backquote =>
      let (texts, _, parts) ← templateAt c fuel
      require (texts.all fun t => match t with
        | .hole => false
        | _ => true)
      return .template (interleave texts parts)
    | .name "true" false =>
      advance
      return .bool true
    | .name "false" false =>
      advance
      return .bool false
    | .name "null" false =>
      advance
      return .null
    | .name "this" false =>
      advance
      return .this
    | .name "function" false =>
      advance
      let name ← if ← atMark "(" then pure none else some <$> identifier
      return .function (← functionRest p name fuel)
    | .name n _ =>
      require !(n ∈ reserved)
      advance
      return .ident n
    | .mark "(" =>
      advance
      let e ← expression c.inside fuel
      let reached := (← get).reached
      expect ")"
      modify fun p => { p with reached }
      return e
    | .mark "[" =>
      advance
      return .array (← elements c.inside fuel)
    | .mark "\x7b" =>
      advance
      let ms ← members c.inside fuel
      require (hasOnePrototype ms)
      return .object ms
    | .mark m =>
      require (m = "/" || m = "/=")
      match p.regex? reserved with
      | some (body, flags, after) =>
        require (Regex.parse? (Units.ofChars body) flags).isSome
        set after
        return .regex body flags
      | none => malformed
    | _ => malformed
where
  /-- Texts and expressions in turn. -/
  interleave : List Expr → List Expr → List Expr
    | t :: ts, e :: es => t :: e :: interleave ts es
    | ts, _ => ts

/-- Reads a function after its keyword and its name. The function starts at a place. -/
def functionRest (start : Place) (name : Option String) : (fuel : Nat) → Parse Function
  | 0 => malformed
  | fuel + 1 => do
    expect "("
    let params ← parameters fuel
    expect "\x7b"
    let (body, stop) ← blockRest .function fuel []
    checkFunction .normal params body
    return makeFunction .normal name start (stop - start.start) params body

/-- Reads parameters up to the closing parenthesis. -/
def parameters : (fuel : Nat) → Parse (List Expr)
  | 0 => malformed
  | fuel + 1 => do
    if ← takeMark ")" then return []
    if ← takeMark "..." then
      let target ← bindingTarget fuel
      expect ")"
      return [.spread target]
    let param ← bindingElement fuel
    if ← takeMark ")" then return [param]
    expect ","
    return param :: (← parameters fuel)

/-- Reads what a declaration declares: a name or a pattern of names. -/
def bindingTarget : (fuel : Nat) → Parse Expr
  | 0 => malformed
  | fuel + 1 => do
    if ← takeMark "[" then return .array (← bindingElements fuel)
    else if ← takeMark "\x7b" then return .object (← bindingMembers fuel)
    else return .ident (← identifier)

/-- Reads what a declaration declares, with a default. -/
def bindingElement : (fuel : Nat) → Parse Expr
  | 0 => malformed
  | fuel + 1 => do
    let target ← bindingTarget fuel
    if ← takeMark "=" then return .assign target (← assignment .function false fuel)
    else return target

/-- Reads the elements of an array pattern up to the closing bracket. -/
def bindingElements : (fuel : Nat) → Parse (List Expr)
  | 0 => malformed
  | fuel + 1 => do
    if ← takeMark "]" then return []
    if ← takeMark "," then return .hole :: (← bindingElements fuel)
    if ← takeMark "..." then
      let target ← bindingTarget fuel
      expect "]"
      return [.spread target]
    let element ← bindingElement fuel
    if ← takeMark "]" then return [element]
    expect ","
    return element :: (← bindingElements fuel)

/-- Reads the members of an object pattern up to the closing brace. -/
def bindingMembers : (fuel : Nat) → Parse (List Expr)
  | 0 => malformed
  | fuel + 1 => do
    if ← takeMark "\x7d" then return []
    if ← takeMark "..." then
      let name ← identifier
      expect "\x7d"
      return [.spread (.ident name)]
    let start ← get
    let (key, _) ← memberKey .function fuel
    let value ←
      if ← takeMark ":" then bindingElement fuel
      else
        match nameOf? start.token with
        | some name =>
          if ← takeMark "=" then do
            pure (.assign (.ident name) (← assignment .function false fuel))
          else pure (.ident name)
        | none => malformed
    if ← takeMark "\x7d" then return [.property key value]
    expect ","
    return .property key value :: (← bindingMembers fuel)

/-- Reads statements up to a closing brace; also gives the offset after the brace. -/
def blockRest (c : Surround) : (fuel : Nat) → List Stmt → Parse (List Stmt × Nat)
  | 0, _ => malformed
  | fuel + 1, done => do
    if ← atMark "\x7d" then
      let stop := (← get).stop
      advance
      return (done.reverse, stop)
    let more ← statement c fuel
    blockRest c fuel (more.reverse ++ done)

def block (c : Surround) : (fuel : Nat) → Parse Stmt
  | 0 => malformed
  | fuel + 1 => do
    let (body, _) ← blockRest c fuel []
    require (isWellScoped [] body false)
    return .block body

/-- Reads the declarations after a word that declares. In the start of a loop over something a
declaration needs no value. -/
def declarations (c : Surround) (kind : Declaration) (inLoopStart : Bool) :
    (fuel : Nat) → Parse (List Stmt)
  | 0 => malformed
  | fuel + 1 => do
    let target ← bindingTarget fuel
    let value ←
      if ← takeMark "=" then assignment c false fuel
      else do
        let isOver := inLoopStart && ((← atWord "in") || (← atWord "of"))
        require (isOver || (isName target && kind != .const))
        pure .hole
    if ← takeMark "," then
      return .declare kind target value :: (← declarations c kind inLoopStart fuel)
    else return [.declare kind target value]

def condition (c : Surround) : (fuel : Nat) → Parse Expr
  | 0 => malformed
  | fuel + 1 => do
    expect "("
    let cond ← expression c fuel
    expect ")"
    return cond

/-- Reads a statement that stands alone where one statement is expected; it declares nothing for a
block. -/
def single (c : Surround) : (fuel : Nat) → Parse Stmt
  | 0 => malformed
  | fuel + 1 => do
    match ← statement c fuel with
    | [s] =>
      require s.locals.isEmpty
      return match s with
        | .function .. => .block [s]
        | s => s
    | ss =>
      require (ss.all (·.locals.isEmpty))
      return .block ss

/-- Reads a loop after `for`. -/
def forLoop (c : Surround) : (fuel : Nat) → Parse Stmt
  | 0 => malformed
  | fuel + 1 => do
    expect "("
    let started := { c with withoutIn := true }
    let kind ← declarationAt
    match kind with
    | some kind =>
      let ds ← declarations started kind true fuel
      match ds with
      | [.declare _ target value] =>
        if ← takeWord "in" then
          require (isHole value || (kind = .var && isName target))
          let object ← expression c fuel
          loopOver .forIn c fuel (some kind) target object
        else if ← takeWord "of" then
          require (isHole value)
          let object ← assignment c false fuel
          loopOver .forOf c fuel (some kind) target object
        else steps c fuel ds
      | ds => steps c fuel ds
    | none =>
      if ← atMark ";" then steps c fuel []
      else
        let head ← attempt (leftSide started fuel)
        match head with
        | some (target, isIn) =>
          if isIn then
            let object ← expression c fuel
            loopOver .forIn c fuel none target object
          else
            let object ← assignment c false fuel
            loopOver .forOf c fuel none target object
        | none =>
          let first ← expression started fuel
          steps c fuel [.expression first]
where
  /-- Whether a value is left out. -/
  isHole : Expr → Bool
    | .hole => true
    | _ => false

/-- Reads what a loop over something assigns to, and the word behind it. Says whether the loop is
over names. -/
def leftSide (c : Surround) : (fuel : Nat) → Parse (Expr × Bool)
  | 0 => malformed
  | fuel + 1 => do
    let e ← access c fuel
    match pattern? e with
    | some target =>
      if ← takeWord "in" then return (target, true)
      expectWord "of"
      return (target, false)
    | none => malformed

def loopOver (make : Option Declaration → Expr → Expr → Stmt → Stmt) (c : Surround) :
    (fuel : Nat) → Option Declaration → Expr → Expr → Parse Stmt
  | 0, _, _, _ => malformed
  | fuel + 1, kind, target, object => do
    expect ")"
    let body ← single c.loop fuel
    if kind.isSome && kind != some .var then
      require (areDistinct target.names && target.names.all (!body.variables_.contains ·))
    return make kind target object body

/-- Reads the rest of a loop with a start, a condition and a step. -/
def steps (c : Surround) : (fuel : Nat) → List Stmt → Parse Stmt
  | 0, _ => malformed
  | fuel + 1, start => do
    expect ";"
    let cond ← if ← atMark ";" then pure (.bool true) else expression c fuel
    expect ";"
    let step ← if ← atMark ")" then pure .hole else expression c fuel
    expect ")"
    let body ← single c.loop fuel
    require (isWellScoped body.variables_ start false)
    return .for start cond step body

/-- Reads the cases of a `switch` up to the closing brace. -/
def cases (c : Surround) (hasDefault_ : Bool) : (fuel : Nat) → Parse (List Stmt)
  | 0 => malformed
  | fuel + 1 => do
    if ← takeMark "\x7d" then return []
    let isDefault ← takeWord "default"
    let test ← if isDefault then do
        require !hasDefault_
        pure .hole
      else do
        expectWord "case"
        expression c fuel
    expect ":"
    let body ← caseBody c fuel []
    return .case test body :: (← cases c (hasDefault_ || isDefault) fuel)

def caseBody (c : Surround) : (fuel : Nat) → List Stmt → Parse (List Stmt)
  | 0, _ => malformed
  | fuel + 1, done => do
    if (← atMark "\x7d") || (← atWord "case") || (← atWord "default") then return done.reverse
    let more ← statement c fuel
    caseBody c fuel (more.reverse ++ done)

/-- Reads what stands after `try`. -/
def tryRest (c : Surround) : (fuel : Nat) → Parse Stmt
  | 0 => malformed
  | fuel + 1 => do
    expect "\x7b"
    let tried ← block c fuel
    let caught ←
      if ← takeWord "catch" then do
        let param ← if ← takeMark "(" then do
            let target ← bindingTarget fuel
            expect ")"
            pure target
          else pure .hole
        expect "\x7b"
        let (body, _) ← blockRest c fuel []
        let names := param.names
        require (areDistinct names)
        require (isWellScoped (if isName param then [] else names) body false)
        require (body.all fun s => s.locals.all fun l => !names.contains l.1)
        pure (some (Stmt.tryCatch tried param (.block body)))
      else pure none
    if ← takeWord "finally" then
      expect "\x7b"
      return .tryFinally (caught.getD tried) (← block c fuel)
    else
      match caught with
      | some s => return s
      | none => malformed

/-- The kind of declaration that starts here, past its word. A word `let` declares only if a name
or a pattern follows. -/
def declarationAt : Parse (Option Declaration) := do
  if ← takeWord "var" then return some .var
  if ← takeWord "const" then return some .const
  if ← atWord "let" then
    let following := (← get).next.token
    let declares := following = .mark "[" || following = .mark "\x7b"
      || ((nameOf? following).isSome && following != .name "in" false
        && following != .name "of" false)
    if declares then
      advance
      return some .let
  return none

/-- Reads a statement; a declaration gives one statement for each of its parts. -/
def statement (c : Surround) : (fuel : Nat) → Parse (List Stmt)
  | 0 => malformed
  | fuel + 1 => do
    let p ← get
    match p.token with
    | .mark ";" =>
      advance
      return [.empty]
    | .mark "\x7b" =>
      advance
      return [← block c fuel]
    | .name "function" false =>
      advance
      let name ← identifier
      return [.function name (← functionRest p (some name) fuel)]
    | .name "if" false =>
      advance
      let cond ← condition c fuel
      let yes ← single c fuel
      let no ← if ← takeWord "else" then single c fuel else pure .empty
      return [.if cond yes no]
    | .name "while" false =>
      advance
      let cond ← condition c fuel
      return [.while cond (← single c.loop fuel)]
    | .name "do" false =>
      advance
      let body ← single c.loop fuel
      expectWord "while"
      let cond ← condition c fuel
      let _ ← takeMark ";"
      return [.doWhile body cond]
    | .name "for" false =>
      advance
      return [← forLoop c fuel]
    | .name "return" false =>
      require c.inFunction
      advance
      if (← onNewLine) || (← atMark ";") || (← atMark "\x7d") then
        endStatement
        return [.return .hole]
      let value ← expression c fuel
      endStatement
      return [.return value]
    | .name "throw" false =>
      advance
      require !(← onNewLine)
      let value ← expression c fuel
      endStatement
      return [.throw value]
    | .name "break" false =>
      advance
      let label ← labelAt
      endStatement
      match label with
      | some l => require ((c.labels.lookup l).isSome)
      | none => require (c.inLoop || c.inSwitch)
      return [.break label]
    | .name "continue" false =>
      advance
      let label ← labelAt
      endStatement
      require c.inLoop
      match label with
      | some l => require (c.labels.lookup l = some true)
      | none => pure ()
      return [.continue label]
    | .name "switch" false =>
      advance
      let subject ← condition c fuel
      expect "\x7b"
      let cs ← cases { c with inSwitch := true } false fuel
      require (isWellScoped [] (cs.flatMap caseStatements) false)
      return [.switch subject cs]
    | .name "try" false =>
      advance
      return [← tryRest c fuel]
    | .name "debugger" false =>
      advance
      endStatement
      return [.empty]
    | _ =>
      match ← declarationAt with
      | some kind =>
        let ds ← declarations c kind false fuel
        endStatement
        return ds
      | none =>
        let e ← expression c fuel
        match e with
        | .ident label =>
          if ← takeMark ":" then
            require (c.labels.lookup label).isNone
            let isLoop := startsLoop (← get)
            let body ← single { c with labels := (label, isLoop) :: c.labels } fuel
            return [.labelled label body]
          else
            endStatement
            return [.expression e]
        | e =>
          endStatement
          return [.expression e]
where
  /-- Reads the label of a jump, if there is one on the same line. -/
  labelAt : Parse (Option String) := do
    if (← get).afterBreak then return none
    match nameOf? (← peek) with
    | some l =>
      advance
      return some l
    | none => return none
  /-- The statements of a case. -/
  caseStatements : Stmt → List Stmt
    | .case _ body => body
    | _ => []
  /-- Whether a loop starts here, maybe under further labels. -/
  startsLoop (p : Place) : Bool :=
    let isLoopWord (t : Token) : Bool :=
      t = .name "while" false || t = .name "do" false || t = .name "for" false
    isLoopWord p.token
      || (p.next.token = .mark ":" && isLoopWord p.next.next.token)

end

/-- Reads statements up to the end of the script. -/
def program : (fuel : Nat) → List Stmt → Parse (List Stmt)
  | 0, _ => malformed
  | fuel + 1, done => do
    if (← peek) = .end then
      let body := done.reverse
      require (isWellScoped [] body true)
      return body
    let more ← statement {} fuel
    program fuel (more.reverse ++ done)

/-- More fuel than reading a text of the given length takes. -/
def fuelFor (length : Nat) : Nat := 32 * (length + 2)

end Parser

/-- The statements of a script, or nothing where it is malformed. -/
def parse? (script : List Char) : Option (List Stmt) :=
  ((Parser.program (Parser.fuelFor script.length) []).run (Place.first script)).map (·.1)

end EggLang.Script
