import EggLang.Script.Library.Array

/-!
# Regular expressions of scripts

Matching with a regular expression that remembers where it stopped, matches as arrays, and texts
that are put in place of matches.
-/

namespace EggLang.Script.Library

open EggLang.Script.Action

/-- The key under which a regular expression remembers where it stopped. -/
def lastIndexKey : Key := .ofString "lastIndex"

/-- The pattern of a regular expression with its text and flags. -/
def patternOf? (v : Value) : Action (Option (Nat × Units × List Char × Regex.Pattern)) := do
  match v with
  | .object ref =>
    match ← read fun (s : Store) => (s.object ref).kind with
    | .regex source flags pattern => return some (ref, source, flags, pattern)
    | _ => return none
  | _ => return none

def Units.part (text : Units) (start stop : Nat) : Units := (text.drop start).take (stop - start)

def findFrom (pattern : Regex.Pattern) (text : Units) (start : Nat) : Option Regex.Match :=
  let units := text.toArray
  pattern.find? units (units.size + 1) start

/-- Matches with a regular expression from where it stopped, if it remembers that. -/
def execPattern (ref : Nat) (pattern : Regex.Pattern) (text : Units) :
    Action (Option Regex.Match) := do
  let last ← toLength (← get ref lastIndexKey)
  let remembers := pattern.flags.isGlobal || pattern.flags.isSticky
  let found := findFrom pattern text (if remembers then last else 0)
  if remembers then
    set ref lastIndexKey (.number (.ofNat ((found.map (·.stop)).getD 0)))
  return found

def groupValue (text : Units) (m : Regex.Match) (n : Nat) : Value :=
  match m.captures.lookup n with
  | some (a, b) => .string (Units.part text a b)
  | none => .undefined

def matchValues (pattern : Regex.Pattern) (text : Units) (m : Regex.Match) : List Value :=
  .string (Units.part text m.start m.stop)
    :: (List.range pattern.groups).map fun i => groupValue text m (i + 1)

/-- The named groups of a match as an object, `undefined` if there are none. -/
def namedGroups (pattern : Regex.Pattern) (text : Units) (m : Regex.Match) : Action Value := do
  if pattern.names.isEmpty then return .undefined
  let ref ← alloc
    { members := (pattern.names.map fun (name, n) =>
        (Key.ofUnits name, Property.plain (groupValue text m n))).toArray }
  return .object ref

def matchArray (pattern : Regex.Pattern) (text : Units) (m : Regex.Match) : Action Value := do
  let groups ← namedGroups pattern text m
  let elements := ((matchValues pattern text m).map some).toArray
  let ref ← alloc
    { kind := .array elements elements.size false, proto := some Intrinsic.arrayPrototype.ref
      members := #[(.ofString "index", .plain (.number (.ofNat m.start))),
        (.ofString "input", .plain (.string text)), (.ofString "groups", .plain groups)] }
  return .object ref

/-- All matches of a pattern in a text from a place on; an empty one moves on by one unit. -/
def allMatches (pattern : Regex.Pattern) (text : Units) : (fuel start : Nat) → List Regex.Match
  | 0, _ => []
  | fuel + 1, start =>
    match findFrom pattern text start with
    | none => []
    | some m =>
      m :: allMatches pattern text fuel (if m.stop = m.start then m.stop + 1 else m.stop)

def matchesOf (pattern : Regex.Pattern) (text : Units) : List Regex.Match :=
  allMatches pattern text (text.length + 2) 0

/-! ## Replacing -/

/-- A piece of a text that is put in place of a match. -/
inductive Piece where
  | text (u : Units)
  | whole
  | before
  | after
  | group (n : Nat)
  | named (name : Units)
  deriving DecidableEq, Repr

/-- Whether a unit is a decimal digit, and its value. -/
def digit? (u : UInt16) : Option Nat := if 48 ≤ u && u ≤ 57 then some (u.toNat - 48) else none

/-- The group that digits at the front of a text refer to, and the number of digits. -/
def groupAt? (groups : Nat) (u : Units) : Option (Nat × Nat) := do
  let a ← digit? (← u[0]?)
  match u[1]?.bind digit? with
  | some b =>
    let n := a * 10 + b
    if 0 < n && n ≤ groups then return (n, 2)
    if 0 < a && a ≤ groups then return (a, 1) else none
  | none => if 0 < a && a ≤ groups then return (a, 1) else none

/-- The piece that follows a dollar sign, and how many units it takes. -/
def pieceAt (groups : Nat) (hasNames : Bool) (rest : Units) : Piece × Nat :=
  match rest with
  | 36 :: _ => (.text [36], 1)
  | 38 :: _ => (.whole, 1)
  | 96 :: _ => (.before, 1)
  | 39 :: _ => (.after, 1)
  | 60 :: name =>
    let inner := name.takeWhile (· != 62)
    if hasNames && inner.length < name.length then (.named inner, inner.length + 2)
    else (.text [36], 0)
  | rest =>
    match groupAt? groups rest with
    | some (n, length) => (.group n, length)
    | none => (.text [36], 0)

/-- The pieces of a text that is put in place of matches; `skip` units are used already. -/
def piecesOf (groups : Nat) (hasNames : Bool) : (skip : Nat) → Units → List Piece
  | _, [] => []
  | skip + 1, _ :: rest => piecesOf groups hasNames skip rest
  | 0, u :: rest =>
    if u = 36 then
      let (piece, length) := pieceAt groups hasNames rest
      piece :: piecesOf groups hasNames length rest
    else .text [u] :: piecesOf groups hasNames 0 rest

def expand (pieces : List Piece) (text : Units) (start stop : Nat) (groups : Nat → Units)
    (named : Units → Units) : Units :=
  pieces.flatMap fun p =>
    match p with
    | .text u => u
    | .whole => Units.part text start stop
    | .before => text.take start
    | .after => text.drop stop
    | .group n => groups n
    | .named name => named name

def unitsOf : Value → Units
  | .string u => u
  | _ => []

/-- The text that takes the place of a match of a pattern. -/
def replacement (pattern : Regex.Pattern) (text : Units) (m : Regex.Match) (by_ : Value) :
    Action Units := do
  match ← callable? by_ with
  | some f =>
    let groups ← namedGroups pattern text m
    let last := if groups = .undefined then [] else [groups]
    toText (← invoke f .undefined
      (matchValues pattern text m ++ [.number (.ofNat m.start), .string text] ++ last))
  | none =>
    let pieces := piecesOf pattern.groups (!pattern.names.isEmpty) 0 (← toText by_)
    return expand pieces text m.start m.stop (fun n => unitsOf (groupValue text m n))
      fun name => match pattern.names.lookup name with
        | some n => unitsOf (groupValue text m n)
        | none => []

/-- A text with other texts in place of matches, from a place on. -/
def replaceMatches (pattern : Regex.Pattern) (text : Units) (by_ : Value) :
    List Regex.Match → (start : Nat) → Action Units
  | [], start => pure (text.drop start)
  | m :: rest, start => do
    let middle ← replacement pattern text m by_
    let tail ← replaceMatches pattern text by_ rest m.stop
    return Units.part text start m.start ++ middle ++ tail

def regexMethod (f : RegexMethod) (self : Value) (args : List Value) : Action Value := do
  match ← patternOf? self with
  | none => fail "Method called on incompatible receiver"
  | some (ref, source, flags, pattern) =>
    match f with
    | .exec =>
      let text ← toText (arg args 0)
      match ← execPattern ref pattern text with
      | some m => matchArray pattern text m
      | none => return .null
    | .test =>
      let text ← toText (arg args 0)
      return .bool (← execPattern ref pattern text).isSome
    | .toString =>
      return .string (Units.ofString "/" ++ shown source ++ Units.ofString "/"
        ++ Units.ofChars (ordered flags))
    | .source => return .string (shown source)
    | .flags => return .string (Units.ofChars (ordered flags))
    | .flag c => return .bool (flags.contains c)
where
  /-- The text of a pattern; no text at all is shown as an empty group. -/
  shown (source : Units) : Units := if source.isEmpty then Units.ofString "(?:)" else source
  /-- Flags in alphabetical order. -/
  ordered (flags : List Char) : List Char := "gimsuy".toList.filter flags.contains

/-- Makes a regular expression as `RegExp` does. -/
def constructRegex (args : List Value) (constructs : Bool) : Action Value := do
  let flagText (v : Value) : Action (List Char) := do
    match v with
    | .undefined => return []
    | v => return Units.toChars (← toText v)
  match ← patternOf? (arg args 0) with
  | some (_, source, flags, _) =>
    if arg args 1 = .undefined then
      if constructs then allocRegex source flags else return arg args 0
    else allocRegex source (← flagText (arg args 1))
  | none =>
    let source ← match arg args 0 with
      | .undefined => pure []
      | v => toText v
    allocRegex source (← flagText (arg args 1))

end EggLang.Script.Library
