import EggLang.Script.Library.Global
import EggLang.Script.Start

/-!
# Running scripts

A run goes on from stop to stop: a call enters the body of a function or does what a function found
at the start does, and a loop makes one round. `Run.finish` counts the stops, so that a script
without end is interrupted.
-/

namespace EggLang.Script

namespace Action

/-! ## Calls -/

/-- The receiver that a function sees: without one it is the global object, and primitive values
are made objects. -/
def seenReceiver (self : Value) : Action Value := do
  match self with
  | .undefined | .null => return .object Intrinsic.global.ref
  | .object ref => return .object ref
  | v => return .object (← toObject v)

def bindPatterns (ctx : Context) : List Expr → List Value → Action Unit
  | [], _ => pure ()
  | .spread target :: _, args => do
    let rest ← allocArray args
    assignTo ctx .initialise target rest
  | p :: ps, args => do
    assignTo ctx .initialise p (args.headD .undefined)
    bindPatterns ctx ps args.tail

def callVariables (f : Function) (args : List Value) : List (String × Variable) :=
  let info := f.info
  let own := if info.isSimple then bindParameters info.parameters args []
    else info.parameters.map fun name => (name, unset true)
  let declared := if info.variables_.isEmpty then own else declareNew info.variables_ own
  declared ++ blockVariables f.body

def enter (ref : Nat) (f : Function) (scope : Nat) (self : Value) (args : List Value)
    (target : Option Nat) : Action Completion := do
  let info := f.info
  let frame := if info.kind = .arrow then none
    else some { callee := ref, self, target, args : Frame }
  inScope { variables_ := callVariables f args, outer := some scope, frame } fun inner => do
    if !info.isSimple then bindPatterns (.within inner) f.params args
    if frame.isSome && info.variables_.contains "arguments"
        && !info.parameters.contains "arguments" then
      let made ← argumentsObject inner
      modify (·.setVariable inner "arguments" { value := some made })
    hoist inner (Stmt.functions f.body)
    execAll (.within inner) f.body none

def callClosure (ref : Nat) (f : Function) (scope : Nat) (self : Value) (args : List Value)
    (target : Option Nat) : Action Value := do
  match target with
  | none =>
    let self ← if f.info.kind = .arrow then pure self else seenReceiver self
    match ← enter ref f scope self args none with
    | .returned v => return v
    | _ => return .undefined
  | some t =>
    let proto ← Library.prototypeFor (some t) .objectPrototype
    let made ← alloc { proto := some proto }
    match ← enter ref f scope (.object made) args target with
    | .returned (.object r) => return .object r
    | _ => return .object made

def callObject (ref : Nat) (self : Value) (args : List Value) (target : Option Nat) :
    Action Value := do
  match ← read fun (s : Store) => (s.object ref).kind with
  | .closure f scope => callClosure ref f scope self args target
  | .native f => Library.call f self args target
  | .bound inner receiver before =>
    let target := target.map fun t => if t = ref then inner else t
    fun k h s => .call inner receiver (before ++ args) target k h s
  | _ => failAbout "Not a function: " (← toText (.object ref)) ""

/-! ## Loops -/

/-- Copies the variables that a loop makes anew in each round, if something keeps the old ones. -/
def refresh (scope keepers : Nat) (fresh : List String) : Action Nat := do
  if fresh.isEmpty || (← read (·.keepers)) = keepers then return scope
  match ← read fun (s : Store) => s.scopes[scope]? with
  | some sc => return (← openScope sc).1
  | none => return scope

def stepsRound (labels : List String) (scope : Nat) (fresh : List String) (cond step : Expr)
    (body : Stmt) (testFirst : Bool) : Action Completion := do
  let ctx := Context.within scope
  let goesOn ← if testFirst then do pure (← eval ctx cond).isTruthy else pure true
  if !goesOn then return .normal none
  let keepers ← read (·.keepers)
  let c ← exec ctx [] body
  match c.leaves? labels with
  | some c => return c
  | none =>
    let next ← refresh scope keepers fresh
    let _ ← eval (.within next) step
    fun k h s => .loop (.steps labels next fresh cond step body true) k h s

/-- Gives a value to the target of a loop and executes the body. -/
def targetRound (scope : Nat) (kind : Option Declaration) (target : Expr) (body : Stmt)
    (v : Value) : Action Completion := do
  match kind with
  | some .let | some .const =>
    let vars := targetVariables (kind.getD .let) target
    inScope { variables_ := vars, outer := some scope } fun inner => do
      assignTo (.within inner) .initialise target v
      exec (.within inner) [] body
  | _ =>
    assignTo (.within scope) .assign target v
    exec (.within scope) [] body

/-- One round of a loop over names. A member that is gone meanwhile is left out. -/
def namesRound (labels : List String) (scope : Nat) (kind : Option Declaration) (target : Expr)
    (body : Stmt) (object : Nat) (rest : List Units) : Action Completion := do
  match rest with
  | [] => return .normal none
  | name :: rest =>
    let again : Action Completion := fun k h s =>
      .loop (.names labels scope kind target body object rest) k h s
    if ← hasMember object (.ofUnits name) then
      let c ← targetRound scope kind target body (.string name)
      match c.leaves? labels with
      | some c => return c
      | none => again
    else again

def valuesRound (labels : List String) (scope : Nat) (kind : Option Declaration) (target : Expr)
    (body : Stmt) (source : Source) : Action Completion := do
  match ← next source with
  | none => return .normal none
  | some (v, left) =>
    let c ← closing left (targetRound scope kind target body v)
    match c.leaves? labels with
    | some c =>
      close left
      return c
    | none => fun k h s => .loop (.values labels scope kind target body left) k h s

def round : Loop → Action Completion
  | .steps labels scope fresh cond step body testFirst =>
    stepsRound labels scope fresh cond step body testFirst
  | .names labels scope kind target body object rest =>
    namesRound labels scope kind target body object rest
  | .values labels scope kind target body source =>
    valuesRound labels scope kind target body source

def gather (source : Source) (done : List Value) : Action (List Value) := do
  match ← next source with
  | none => return done.reverse
  | some (v, left) => fun k h s => .collect left (v :: done) k h s

/-! ## Texts of scripts -/

def declareGlobal (name : String) : Action Unit := do
  let key := Key.ofString name
  match ← own Intrinsic.global.ref key with
  | some _ => return
  | none =>
    modify (·.put Intrinsic.global.ref key
      { slot := .value .undefined true, configurable := false })

def declareIn (owner : Nat) (name : String) : Action Unit := do
  let isThere ← read fun (s : Store) =>
    (s.scopes[owner]?.bind (·.variables_.lookup name)).isSome
  if !isThere then modify (·.setVariable owner name {})

/-- Executes the statements of a text in a scope. What they declare for the whole function belongs
to the call around, or else to the global object; what they declare for a block is their own,
except for the script itself. -/
def runCode (body : List Stmt) (scope : Nat) : Action Completion := do
  let names := (Stmt.variablesAll body).eraseDups
  let functions := Stmt.functions body
  match ← read (·.frame? scope) with
  | some (owner, _) =>
    each (declareIn owner) names
    inScope { variables_ := blockVariables body, outer := some scope } fun inner => do
      each (fun (name, f) => do
        let ref ← closure f inner (Units.ofString name)
        modify (·.setVariable owner name { value := some (.object ref) })) functions
      execAll (.within inner) body none
  | none =>
    each declareGlobal names
    each (fun (name, v) => modify (·.setVariable scope name v)) (blockVariables body)
    each (fun (name, f) => do
      let ref ← closure f scope (Units.ofString name)
      modify (·.put Intrinsic.global.ref (.ofString name) (.plain (.object ref)))) functions
    execAll (.within scope) body none

end Action

namespace Run

def step : Run → Run
  | done outcome s => done outcome s
  | call callee self args target k h s => Action.callObject callee self args target k h s
  | loop l k h s => Action.round l k h s
  | collect source gathered k h s => Action.gather source gathered k h s
  | code body scope k h s => Action.runCode body scope k h s

def store : Run → Store
  | done _ s | call _ _ _ _ _ _ s | loop _ _ _ s | collect _ _ _ _ s | code _ _ _ _ s => s

/-- What a stop takes of the budget beyond one: a call takes as much as three rounds of a loop. -/
def extra : Run → Nat
  | call .. => 2
  | _ => 0

/-- Goes on until the run has ended, or the budget is used up. -/
def finish : (budget : Nat) → Run → Outcome × Store
  | _, done outcome s => (outcome, s)
  | 0, r => (.interrupted, r.store)
  | n + 1, r => finish (n - r.extra) r.step
termination_by n => n

/-- A run that has ended stays as it is, whatever the budget. -/
@[simp] theorem finish_done (n : Nat) (o : Outcome) (s : Store) : finish n (done o s) = (o, s) := by
  rw [finish]

end Run

end EggLang.Script
