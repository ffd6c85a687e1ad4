import EggLang.Script.Environment
import EggLang.Script.Operator
import EggLang.Script.Parser

/-!
# What scripts do

The meaning of expressions and statements as actions. The definitions follow the tree: they stop
where a function is called and where a loop begins, and the machine goes on from there.
-/

namespace EggLang.Script

namespace Context

/-- The same surroundings in another scope, outside any chain of accesses. -/
def within (scope : Nat) : Context := { scope }

end Context

/-- The variables that the statements of a block declare. -/
def blockVariables (body : List Stmt) : List (String × Variable) :=
  body.flatMap fun s => s.locals.map fun (name, changes) => (name, unset changes)

/-- The variables that the target of a loop or a handler declares. -/
def targetVariables (kind : Declaration) (target : Expr) : List (String × Variable) :=
  target.names.map fun name => (name, unset (kind != .const))

def caseStatements : List Stmt → List Stmt
  | [] => []
  | .case _ body :: rest => body ++ caseStatements rest
  | _ :: rest => caseStatements rest

/-- Whether a completion ends a loop with the given labels, and how the loop ends then. -/
def Completion.leaves? (labels : List String) : Completion → Option Completion
  | .normal _ | .continued none => none
  | .continued (some l) => if labels.contains l then none else some (.continued (some l))
  | .broke none => some (.normal none)
  | c => some c

/-- Whether an operator leaves out its second operand after a value of the first one. -/
def LogicalOp.stopsAt (op : LogicalOp) (v : Value) : Bool :=
  match op with
  | and => !v.isTruthy
  | or => v.isTruthy
  | coalesce => v != .undefined && v != .null

namespace Action

/-- Goes on behind the chain of accesses if a value is `undefined` or `null`. -/
def skipIfNothing (ctx : Context) (optional : Bool) (v : Value) : Action Unit := fun k _ s =>
  match optional, v, ctx.skip with
  | true, .undefined, some skip | true, .null, some skip => skip s
  | _, _, _ => k () s

/-- Statements of a text, read when they are reached. -/
def runText (scope : Nat) (v : Value) : Action Value := do
  match v with
  | .string text =>
    match parse? (Units.toChars text) with
    | none => failWith .syntaxError (Units.ofString "malformed script")
    | some body =>
      let c : Completion ← fun k h s => .code body scope k h s
      match c with
      | .normal (some v) => return v
      | _ => return .undefined
  | v => return v

/-- Whether a value is the function that runs texts. -/
def Store.isTextRunner (s : Store) : Value → Bool
  | .object ref =>
    match (s.object ref).kind with
    | .native (.global .eval) => true
    | _ => false
  | _ => false

/-- Calls what was found. A text run by its name is run in the scope of the call. -/
def callIn (scope : Nat) (name : String) (callee : Callee) (args : List Value) : Action Value := do
  match callee with
  | .value v =>
    if name == "eval" && (← read (Store.isTextRunner · v)) then
      runText scope (args.headD .undefined)
    else callFound callee .undefined args
  | _ => callFound callee .undefined args

/-- The number of arguments of the nearest call, if the name `arguments` stands for them and nobody
has looked at them. -/
def Store.argumentCount? (s : Store) (scope : Nat) : Option Nat :=
  match s.find? scope "arguments" with
  | some (owner, none) => do
    let frame ← (← s.scopes[owner]?).frame
    if frame.arguments.isNone then some frame.args.length else none
  | _ => none

def joinTexts : List Value → Action Units
  | [] => pure []
  | v :: rest => do
    let text ← toText v
    return text ++ (← joinTexts rest)

/-- Gives a function that has no name the name that it is assigned to. -/
def nameFor (target value : Expr) (v : Value) : Action Unit :=
  match target with
  | .ident name => nameAfter value (.ofString name) v
  | _ => pure ()

mutual

def eval (ctx : Context) : Expr → Action Value
  | .number x => pure (.number x)
  | .string u => pure (.string u)
  | .bool b => pure (.bool b)
  | .null => pure .null
  | .hole => pure .undefined
  | .this => receiver ctx.scope
  | .newTarget => constructionTarget ctx.scope
  | .regex pattern flags => allocRegex (Units.ofChars pattern) flags
  | .ident name => lookup ctx.scope name
  | .spread e => eval ctx e
  | .template parts => do
    let vs ← evalAll ctx parts
    return .string (← joinTexts vs)
  | .texts texts written => do
    let vs ← evalAll ctx texts
    allocTexts vs written
  | .array elements => do
    let vs ← evalElements ctx elements []
    allocSparse vs
  | .object members => do
    let ref ← alloc { proto := some Intrinsic.objectPrototype.ref }
    evalMembers ctx ref members
    return .object ref
  | .property _ e | .prototype e => eval ctx e
  | .method _ f | .getter _ f | .setter _ f | .function f => functionValue f ctx.scope
  | .unary op e => do
    match op, e with
    | .typeOf, .ident name => unary .typeOf ((← resolve ctx.scope name).getD .undefined)
    | op, e =>
      let v ← eval ctx e
      unary op v
  | .delete e => do
    match e with
    | .member _ o name =>
      let v ← eval ctx o
      deleteMember v (.name name)
    | .index _ o i =>
      let v ← eval ctx o
      let key ← eval ctx i
      deleteMember v (← toKey key)
    | .ident name =>
      match ← read (·.find? ctx.scope name) with
      | some _ => return .bool false
      | none => return .bool (← remove Intrinsic.global.ref (.ofString name))
    | e =>
      let _ ← eval ctx e
      return .bool true
  | .binary op l r => do
    let a ← eval ctx l
    let b ← eval ctx r
    binary op a b
  | .logical op l r => do
    let v ← eval ctx l
    if op.stopsAt v then return v else eval ctx r
  | .conditional c yes no => do
    let v ← eval ctx c
    if v.isTruthy then eval ctx yes else eval ctx no
  | .assign target value => do
    match target with
    | .ident name =>
      let v ← eval ctx value
      nameAfter value (.ofString name) v
      assignName ctx.scope name v
      return v
    | .member _ o name =>
      let object ← eval ctx o
      let v ← eval ctx value
      writeMember object (.name name) v
      return v
    | .index _ o i =>
      let object ← eval ctx o
      let index ← eval ctx i
      let v ← eval ctx value
      if object = .undefined || object = .null then
        fail "Cannot convert undefined or null to object"
      writeMember object (← toKey index) v
      return v
    | target =>
      let v ← eval ctx value
      assignTo ctx .assign target v
      return v
  | .compound op target value => do
    match target with
    | .ident name =>
      let old ← lookup ctx.scope name
      let x ← eval ctx value
      let v ← binary op old x
      assignName ctx.scope name v
      return v
    | .member _ o name =>
      let object ← eval ctx o
      let old ← readMember object (.name name)
      let x ← eval ctx value
      let v ← binary op old x
      writeMember object (.name name) v
      return v
    | .index _ o i =>
      let object ← eval ctx o
      let index ← eval ctx i
      let key ← toKey index
      let old ← readMember object key
      let x ← eval ctx value
      let v ← binary op old x
      writeMember object key v
      return v
    | _ => eval ctx value
  | .update op givesOld target => do
    match target with
    | .ident name =>
      let (before, after) ← updated op (← lookup ctx.scope name)
      assignName ctx.scope name after
      return if givesOld then before else after
    | .member _ o name =>
      let object ← eval ctx o
      let (before, after) ← updated op (← readMember object (.name name))
      writeMember object (.name name) after
      return if givesOld then before else after
    | .index _ o i =>
      let object ← eval ctx o
      let index ← eval ctx i
      let key ← toKey index
      let (before, after) ← updated op (← readMember object key)
      writeMember object key after
      return if givesOld then before else after
    | target => eval ctx target
  | .call optional callee args => do
    match callee with
    | .member omits o name =>
      let self ← eval ctx o
      skipIfNothing ctx omits self
      let found ← calledMember self (.name name)
      match optional, found with
      | true, .value v => skipIfNothing ctx true v
      | true, .missing _ => skipIfNothing ctx true .undefined
      | _, _ => pure ()
      let vs ← evalArgs ctx args
      callFound found self vs
    | .index omits o i =>
      let self ← eval ctx o
      skipIfNothing ctx omits self
      let index ← eval ctx i
      let found ← calledMember self (← toKey index)
      match optional, found with
      | true, .value v => skipIfNothing ctx true v
      | true, .missing _ => skipIfNothing ctx true .undefined
      | _, _ => pure ()
      let vs ← evalArgs ctx args
      callFound found self vs
    | .ident name =>
      let found := match ← resolve ctx.scope name with
        | some v => Callee.value v
        | none => .unresolved name
      match optional, found with
      | true, .value v => skipIfNothing ctx true v
      | _, _ => pure ()
      let vs ← evalArgs ctx args
      callIn ctx.scope name found vs
    | callee =>
      let f ← eval ctx callee
      skipIfNothing ctx optional f
      let vs ← evalArgs ctx args
      callFound (.value f) .undefined vs
  | .construct callee args => do
    let f ← eval ctx callee
    let vs ← evalArgs ctx args
    construct f vs
  | .member optional o name => do
    match o with
    | .ident base =>
      let count ← if base == "arguments" && Key.name name = lengthKey then
          read (Store.argumentCount? · ctx.scope)
        else pure none
      match count with
      | some n => return .number (.ofNat n)
      | none =>
        let v ← lookup ctx.scope base
        skipIfNothing ctx optional v
        readMember v (.name name)
    | o =>
      let v ← eval ctx o
      skipIfNothing ctx optional v
      readMember v (.name name)
  | .index optional o i => do
    let v ← eval ctx o
    skipIfNothing ctx optional v
    let index ← eval ctx i
    readMember v (← toKey index)
  | .chain e => fun k h s => eval { ctx with skip := some fun s => k .undefined s } e k h s
  | .sequence first second => do
    let _ ← eval ctx first
    eval ctx second

def evalAll (ctx : Context) : List Expr → Action (List Value)
  | [] => pure []
  | e :: rest => do
    let v ← eval ctx e
    let vs ← evalAll ctx rest
    return v :: vs

/-- The values of arguments; a spread one stands for all its values. -/
def evalArgs (ctx : Context) : List Expr → Action (List Value)
  | [] => pure []
  | .spread e :: rest => do
    let v ← eval ctx e
    let first ← valuesOf v
    let vs ← evalArgs ctx rest
    return first ++ vs
  | e :: rest => do
    let v ← eval ctx e
    let vs ← evalArgs ctx rest
    return v :: vs

/-- The elements of an array literal; those before are given, the last one first. -/
def evalElements (ctx : Context) : List Expr → List (Option Value) →
    Action (Array (Option Value))
  | [], done => pure done.reverse.toArray
  | .hole :: rest, done => evalElements ctx rest (none :: done)
  | .spread e :: rest, done => do
    let v ← eval ctx e
    let vs ← valuesOf v
    evalElements ctx rest ((vs.map some).reverse ++ done)
  | e :: rest, done => do
    let v ← eval ctx e
    evalElements ctx rest (some v :: done)

def evalMembers (ctx : Context) (ref : Nat) : List Expr → Action Unit
  | [] => pure ()
  | .property k e :: rest => do
    let name ← eval ctx k
    let key ← toKey name
    let v ← eval ctx e
    nameAfter e key v
    modify (·.put ref key (.plain v))
    evalMembers ctx ref rest
  | .prototype e :: rest => do
    match ← eval ctx e with
    | .object proto => modify (·.modifyObject ref ({ · with proto := some proto }))
    | .null => modify (·.modifyObject ref ({ · with proto := none }))
    | _ => pure ()
    evalMembers ctx ref rest
  | .method k f :: rest => do
    let name ← eval ctx k
    let key ← toKey name
    let m ← closure f ctx.scope (← functionName "" key)
    modify (·.put ref key (.plain (.object m)))
    evalMembers ctx ref rest
  | .getter k f :: rest => do
    let name ← eval ctx k
    let key ← toKey name
    let m ← closure f ctx.scope (← functionName "get " key)
    defineAccessor ref key m true
    evalMembers ctx ref rest
  | .setter k f :: rest => do
    let name ← eval ctx k
    let key ← toKey name
    let m ← closure f ctx.scope (← functionName "set " key)
    defineAccessor ref key m false
    evalMembers ctx ref rest
  | .spread e :: rest => do
    let v ← eval ctx e
    copyMembers ref v []
    evalMembers ctx ref rest
  | _ :: rest => evalMembers ctx ref rest

/-- Gives a value to a name, a place or the parts of a pattern. -/
def assignTo (ctx : Context) (b : Binding) : Expr → Value → Action Unit
  | .ident name, v => bind b ctx.scope name v
  | .member _ o name, v => do
    let object ← eval ctx o
    writeMember object (.name name) v
  | .index _ o i, v => do
    let object ← eval ctx o
    let index ← eval ctx i
    writeMember object (← toKey index) v
  | .assign target value, v => do
    if v = .undefined then
      let x ← eval ctx value
      nameFor target value x
      assignTo ctx b target x
    else assignTo ctx b target v
  | .array elements, v => do
    let source ← sourceOf v
    assignElements ctx b elements (some source)
  | .object members, v => do
    if v = .undefined || v = .null then fail "Value is not object coercible"
    assignMembers ctx b members v []
  | _, _ => pure ()

def assignElements (ctx : Context) (b : Binding) : List Expr → Option Source → Action Unit
  | [], none => pure ()
  | [], some source => close source
  | .spread e :: _, source => do
    let vs ← match source with
      | some source => rest source
      | none => pure []
    let made ← allocArray vs
    assignTo ctx b e made
  | e :: more, source => do
    let found ← match source with
      | some source => next source
      | none => pure none
    let left := found.map (·.2)
    let give := assignTo ctx b e ((found.map (·.1)).getD .undefined)
    match left with
    | some source => closing source give
    | none => give
    assignElements ctx b more left

/-- Gives values to the members of a pattern; the keys of those before are given. -/
def assignMembers (ctx : Context) (b : Binding) : List Expr → Value → List Key → Action Unit
  | [], _, _ => pure ()
  | .property k target :: more, v, used => do
    let name ← eval ctx k
    let key ← toKey name
    let x ← readMember v key
    assignTo ctx b target x
    assignMembers ctx b more v (key :: used)
  | .spread target :: _, v, used => do
    let ref ← alloc { proto := some Intrinsic.objectPrototype.ref }
    copyMembers ref v used
    assignTo ctx b target (.object ref)
  | _ :: more, v, used => assignMembers ctx b more v used

def exec (ctx : Context) (labels : List String) : Stmt → Action Completion
  | .expression e => do
    let v ← eval ctx e
    return .normal (some v)
  | .declare kind target value => do
    match kind, value with
    | .var, .hole => return .normal none
    | kind, value =>
      let v ← eval ctx value
      nameFor target value v
      assignTo ctx kind.binding target v
      return .normal none
  | .function _ _ => pure (.normal none)
  | .if cond yes no => do
    let v ← eval ctx cond
    if v.isTruthy then exec ctx [] yes else exec ctx [] no
  | .while cond body => fun k h s =>
    .loop (.steps labels ctx.scope [] cond .hole body true) k h s
  | .doWhile body cond => fun k h s =>
    .loop (.steps labels ctx.scope [] cond .hole body false) k h s
  | .for start cond step body => do
    match blockVariables start with
    | [] =>
      let _ ← execAll ctx start none
      fun k h s => .loop (.steps labels ctx.scope [] cond step body true) k h s
    | vars =>
      inScope { variables_ := vars, outer := some ctx.scope } fun scope => do
        let _ ← execAll (.within scope) start none
        fun k h s => .loop (.steps labels scope (vars.map (·.1)) cond step body true) k h s
  | .forIn kind target object body => do
    match ← eval ctx object with
    | .undefined | .null => return .normal none
    | v =>
      let ref ← toObject v
      let names ← read (·.visibleNames ref)
      fun k h s => .loop (.names labels ctx.scope kind target body ref names) k h s
  | .forOf kind target object body => do
    let v ← eval ctx object
    let source ← sourceOf v
    fun k h s => .loop (.values labels ctx.scope kind target body source) k h s
  | .return value => do
    let v ← eval ctx value
    return .returned v
  | .throw value => do
    let v ← eval ctx value
    raise v
  | .break label => pure (.broke label)
  | .continue label => pure (.continued label)
  | .block body => do
    match blockVariables body, Stmt.functions body with
    | [], [] => execAll ctx body none
    | vars, functions =>
      inScope { variables_ := vars, outer := some ctx.scope } fun scope => do
        hoist scope functions
        execAll (.within scope) body none
  | .labelled label body => do
    match ← exec ctx (label :: labels) body with
    | .broke (some l) => if l == label then return .normal none else return .broke (some l)
    | c => return c
  | .switch subject cases => do
    let v ← eval ctx subject
    let body := caseStatements cases
    let c ← inScope { variables_ := blockVariables body, outer := some ctx.scope } fun scope => do
      hoist scope (Stmt.functions body)
      match ← selectCase (.within scope) cases v with
      | some n => execCases (.within scope) cases n none
      | none => execDefault (.within scope) cases
    match c with
    | .broke none => return .normal none
    | c => return c
  | .case _ body => execAll ctx body none
  | .tryCatch tried param handler => fun k h s =>
    exec ctx [] tried k
      (fun v s =>
        (match param with
          | .hole => exec ctx [] handler
          | param =>
            inScope { variables_ := targetVariables .let param, outer := some ctx.scope }
              fun scope => do
                assignTo (.within scope) .initialise param v
                exec (.within scope) [] handler) k h s)
      s
  | .tryFinally tried finalizer => fun k h s =>
    exec ctx [] tried
      (fun c s => exec ctx [] finalizer
        (fun last s => match last with
          | .normal _ => k c s
          | last => k last s) h s)
      (fun v s => exec ctx [] finalizer
        (fun last s => match last with
          | .normal _ => h v s
          | last => k last s) h s)
      s
  | .empty => pure (.normal none)

/-- Executes statements in turn; the value of the last expression so far is given. -/
def execAll (ctx : Context) : List Stmt → Option Value → Action Completion
  | [], last => pure (.normal last)
  | s :: rest, last => do
    match ← exec ctx [] s with
    | .normal v => execAll ctx rest (v.or last)
    | c => return c

/-- The number of cases before the first one whose test gives a value. -/
def selectCase (ctx : Context) : List Stmt → Value → Action (Option Nat)
  | [], _ => pure none
  | .case test _ :: rest, v => do
    let isChosen ← match test with
      | .hole => pure false
      | test => do
        let x ← eval ctx test
        pure (v.strictEquals x)
    if isChosen then return some 0 else return (← selectCase ctx rest v).map (· + 1)
  | _ :: rest, v => do return (← selectCase ctx rest v).map (· + 1)

/-- Executes cases in turn after so many that are left out. -/
def execCases (ctx : Context) : List Stmt → Nat → Option Value → Action Completion
  | [], _, last => pure (.normal last)
  | .case _ body :: rest, 0, last => do
    match ← execAll ctx body last with
    | .normal v => execCases ctx rest 0 v
    | c => return c
  | _ :: rest, n, last => execCases ctx rest (n - 1) last

def execDefault (ctx : Context) : List Stmt → Action Completion
  | [] => pure (.normal none)
  | .case .hole body :: rest => do
    match ← execAll ctx body none with
    | .normal v => execCases ctx rest 0 v
    | c => return c
  | _ :: rest => execDefault ctx rest

end

end Action

end EggLang.Script
