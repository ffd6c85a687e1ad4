import EggLang.Script.Machine

/-!
# What a script gives

Runs the text of a script from start to end and turns its value into data: `undefined` and `null`
are nothing, a function is its text, and arrays and objects are copied out of the heap.
-/

namespace EggLang.Script

/-- How the run of a script's text ended. -/
inductive Ending where
  | value (d : Data)
  /-- An exception that nothing caught, by its text. -/
  | thrown (text : Bytes)
  /-- The text is no script. -/
  | malformed
  | interrupted

namespace Action

/-- The number of levels that data is copied down to. -/
def copyDepth : Nat := 10000

/-- A value as data. Maps give pairs, sets and arguments give lists, and primitive values in objects
give themselves. -/
def copy : (depth : Nat) → Value → Action Data
  | _, .undefined | _, .null => pure .null
  | _, .bool b => pure (.bool b)
  | _, .number x => pure (.number x.toBinary64)
  | _, .string u => pure (.string u.toBytes)
  | _, .symbol id => do return .string (← display (.symbol id)).toBytes
  | 0, .object _ => pure .null
  | depth + 1, .object ref => do
    match ← read fun (s : Store) => (s.object ref).kind with
    | .closure .. | .native _ | .bound .. => return .callable
    | .array .. | .arguments .. =>
      let n ← lengthOf ref
      return .list (← mapEach (fun i => do copy depth (← get ref (.ofNat i))) (List.range n))
    | .boxed v => copy depth v
    | .map entries =>
      return .list (← mapEach (fun (k, v) => do
        return .list [← copy depth k, ← copy depth v]) (entries.toList.filterMap id))
    | .set entries =>
      return .list (← mapEach (fun (k, _) => copy depth k) (entries.toList.filterMap id))
    | _ =>
      let keys ← Library.enumerableNames ref
      let members ← mapEach (fun key => do
        let name ← keyText key
        return (name.toBytes, ← copy depth (← get ref key))) keys
      return .ofMembers members

def toData (v : Value) : Action Data := do
  if ← read (·.isCallable v) then return .string (← display v).toBytes
  else copy copyDepth v

end Action

/-- A run of statements as a script, from the start. -/
def Run.start (statements : List Stmt) : Run :=
  let caught : Value → Store → Run := fun v s =>
    (Action.display v) (fun text s => .done (.thrown text) s) (fun _ s => .done (.thrown []) s) s
  .code statements 0
    (fun c s =>
      let v := match c with
        | .normal (some v) => v
        | _ => .undefined
      (Action.toData v) (fun d s => .done (.value d) s) caught s)
    caught Start.store

/-- Runs the text of a script within a budget of stops; gives how it ended and what it wrote. -/
def evaluate (budget : Nat) (script : Bytes) : Ending × Bytes :=
  match (Text.chars? script).bind parse? with
  | none => (.malformed, [])
  | some statements =>
    let (outcome, store) := (Run.start statements).finish budget
    let ending := match outcome with
      | .value d => Ending.value d
      | .thrown text => .thrown text.toBytes
      | .interrupted => .interrupted
    (ending, store.output)

end EggLang.Script
