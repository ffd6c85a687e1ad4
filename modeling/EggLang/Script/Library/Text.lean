import EggLang.Script.Library.Pattern
import EggLang.Text.Casing

/-!
# Functions about texts

The functions of `String` and the methods of texts, which count in sixteen-bit units.
-/

namespace EggLang.Script.Library

open EggLang.Script.Action

def isBlankUnit (u : UInt16) : Bool := Regex.isSpace u

/-- The first place at or after another one where a text has a part. -/
def placeOf? (part : Units) : (start : Nat) → Units → Option Nat
  | start, [] => if part.isEmpty then some start else none
  | start, u :: rest =>
    if part.isPrefixOf (u :: rest) then some start else placeOf? part (start + 1) rest

/-- The last place not after another one where a text has a part. -/
def lastPlaceOf? (part text : Units) (most : Nat) : Option Nat :=
  (List.range (min most text.length + 1)).reverse.find? fun i => part.isPrefixOf (text.drop i)

/-- A place from a value, between the start and the end of a text. -/
def clampedArg (v : Value) (length standard : Nat) : Action Nat := do
  match v with
  | .undefined => return standard
  | v => return min (← toInteger v).toNat length

/-- The parts of a text between the places where a separator stands. -/
def splitAt (separator : Units) : (fuel : Nat) → Units → List Units
  | 0, text => [text]
  | fuel + 1, text =>
    match placeOf? separator 0 text with
    | some i => text.take i :: splitAt separator fuel (text.drop (i + separator.length))
    | none => [text]

/-- The parts of a text between the matches of a pattern, with what its groups matched. An empty
match splits nothing at the ends. -/
def splitMatches (pattern : Regex.Pattern) (text : Units) : List Regex.Match → (start : Nat) →
    List Value
  | [], start => [.string (text.drop start)]
  | m :: rest, start =>
    if (m.start = m.stop && (m.start = start || m.stop = text.length)) || m.stop = start
        || text.length ≤ m.start then
      splitMatches pattern text rest start
    else
      .string (Units.part text start m.start)
        :: ((List.range pattern.groups).map fun i => groupValue text m (i + 1))
        ++ splitMatches pattern text rest m.stop

def receiverText (self : Value) : Action Units := do
  match self with
  | .undefined | .null => fail "Value is not object coercible"
  | v => toText v

/-- The text of an argument that must not be a regular expression. -/
def plainText (v : Value) : Action Units := do
  match ← patternOf? v with
  | some _ => fail "First argument must not be a regular expression"
  | none => toText v

def padding (length wanted : Nat) (filler : Units) : Units :=
  if wanted ≤ length || filler.isEmpty then []
  else
    let count := wanted - length
    ((List.replicate (count / filler.length + 1) filler).flatten).take count

/-- Arguments of the methods that make texts longer. -/
def paddingFor (text : Units) (args : List Value) : Action Units := do
  let wanted ← toLength (arg args 0)
  let filler ← match arg args 1 with
    | .undefined => pure (Units.ofString " ")
    | v => toText v
  return padding text.length (min wanted 1073741824) filler

/-- The rank of a unit among others in a dictionary: letters by the alphabet, whatever their
case. -/
def rank (u : UInt16) : Nat :=
  let c := Units.single u
  if c.isAlpha then 100000 + c.toLower.toNat else if c.isDigit then 50000 + c.toNat else c.toNat

/-- The order of two texts in a dictionary. -/
def dictionaryOrder (a b : Units) : Int :=
  let keyed (u : Units) : List Nat := u.map rank
  if keyed a < keyed b then -1
  else if keyed b < keyed a then 1
  else
    -- Small letters come before capital ones.
    let cased (u : Units) : List Nat := u.map fun x => if (Units.single x).isUpper then 1 else 0
    if cased a < cased b then -1 else if cased b < cased a then 1 else 0

def recase (f : List Char → List Char) (u : Units) : Units := Units.ofChars (f (Units.toChars u))

/-- The pattern that a value is, or that its text is. -/
def asPattern (v : Value) (flags : List Char) :
    Action (Option (Nat × Units × List Char × Regex.Pattern)) := do
  match ← patternOf? v with
  | some p => return some p
  | none =>
    let source ← match v with
      | .undefined => pure []
      | v => toText v
    patternOf? (← allocRegex source flags)

/-- Replaces the first place or all places where a text has a part. -/
def replaceText (text part : Units) (all : Bool) (by_ : Value) : Action Units := do
  let f ← callable? by_
  let pieces ← match f with
    | some _ => pure []
    | none => do pure (piecesOf 0 false 0 (← toText by_))
  let instead (i : Nat) : Action Units := do
    match f with
    | some f =>
      toText (← invoke f .undefined [.string part, .number (.ofNat i), .string text])
    | none => return expand pieces text i (i + part.length) (fun _ => []) fun _ => []
  let places := if all then placesOf (text.length + 1) 0 else (placeOf? part 0 text).toList
  let rec build : List Nat → Nat → Action Units
    | [], start => pure (text.drop start)
    | i :: rest, start => do
      let middle ← instead i
      let tail ← build rest (i + part.length)
      return Units.part text start i ++ middle ++ tail
  build places 0
where
  /-- All places where the text has the part, without overlaps. -/
  placesOf : (fuel start : Nat) → List Nat
    | 0, _ => []
    | fuel + 1, start =>
      if text.length < start then []
      else
        match placeOf? part start (text.drop start) with
        | some i => i :: placesOf fuel (i + max part.length 1)
        | none => []

def ownText (self : Value) : Action Value := do
  match self with
  | .string s => return .string s
  | .object ref =>
    match ← read fun (s : Store) => (s.object ref).kind with
    | .boxed (.string s) => return .string s
    | _ => fail "Object is not a string"
  | _ => fail "Object is not a string"

/-- The methods of texts that take the text of any receiver. -/
def textMethod (f : StringMethod) (text : Units) (args : List Value) : Action Value := do
  let length := text.length
  let first := arg args 0
  let second := arg args 1
  match f with
  | .at =>
    let i ← toInteger first
    let i := if 0 ≤ i then i else i + length
    return if 0 ≤ i then (Object.unitAt? text i.toNat).getD .undefined else .undefined
  | .charAt =>
    let i ← toInteger first
    return if 0 ≤ i then (Object.unitAt? text i.toNat).getD (.string []) else .string []
  | .charCodeAt =>
    let i ← toInteger first
    let u := if 0 ≤ i then text[i.toNat]? else none
    return .number ((u.map fun u => Numeric.ofNat u.toNat).getD .nan)
  | .codePointAt =>
    let i ← toInteger first
    match if 0 ≤ i then text.drop i.toNat else [] with
    | [] => return .undefined
    | u :: rest =>
      match rest with
      | v :: _ =>
        if Units.isHigh u && Units.isLow v then
          return .number (.ofNat (Units.paired u v).toNat)
        else return .number (.ofNat u.toNat)
      | [] => return .number (.ofNat u.toNat)
  | .concat => return .string (text ++ (← mapEach toText args).flatten)
  | .endsWith =>
    let part ← plainText first
    let stop ← clampedArg second length length
    return .bool (part.isSuffixOf (text.take stop))
  | .startsWith =>
    let part ← plainText first
    let start ← clampedArg second length 0
    return .bool (part.isPrefixOf (text.drop start))
  | .includes =>
    let part ← plainText first
    let start ← clampedArg second length 0
    return .bool (placeOf? part start (text.drop start)).isSome
  | .indexOf =>
    let part ← toText first
    let start ← clampedArg second length 0
    return place (placeOf? part start (text.drop start))
  | .lastIndexOf =>
    let part ← toText first
    let x ← toNumber second
    let most := if x.isNaN then length else (x.toInteger length 0).toNat
    return place (lastPlaceOf? part text most)
  | .localeCompare =>
    let other ← toText first
    return .number (.ofInt (dictionaryOrder text other))
  | .match =>
    match ← asPattern first [] with
    | some (ref, _, _, pattern) =>
      if pattern.flags.isGlobal then
        set ref lastIndexKey (.number .zero)
        match matchesOf pattern text with
        | [] => return .null
        | ms => allocArray (ms.map fun m => .string (Units.part text m.start m.stop))
      else
        match ← execPattern ref pattern text with
        | some m => matchArray pattern text m
        | none => return .null
    | none => return .null
  | .matchAll =>
    match ← asPattern first ['g'] with
    | some (ref, _, _, pattern) =>
      if pattern.flags.isGlobal then
        allocIterator (.matches ref text) .matchIteratorPrototype
      else fail "RegExp doesn't have global flag set"
    | none => return .undefined
  | .normalize => return .string text
  | .padEnd => return .string (text ++ (← paddingFor text args))
  | .padStart => return .string ((← paddingFor text args) ++ text)
  | .repeat =>
    let x ← toNumber first
    let n := x.toInteger (-1) (-1)
    if n < 0 then failWith .rangeError (Units.ofString "Invalid count value")
    if text.isEmpty then return .string []
    if 268435456 < n * length then failWith .rangeError (Units.ofString "Invalid string length")
    return .string (List.replicate n.toNat text).flatten
  | .replace | .replaceAll =>
    match ← patternOf? first with
    | some (ref, _, _, pattern) =>
      if pattern.flags.isGlobal then
        set ref lastIndexKey (.number .zero)
        return .string (← replaceMatches pattern text second (matchesOf pattern text) 0)
      else if f = .replaceAll then fail "replaceAll must be called with a global RegExp"
      else
        match ← execPattern ref pattern text with
        | some m => return .string (← replaceMatches pattern text second [m] 0)
        | none => return .string text
    | none =>
      let part ← toText first
      return .string (← replaceText text part (f = .replaceAll) second)
  | .search =>
    match ← asPattern first [] with
    | some (_, _, _, pattern) => return place ((findFrom pattern text 0).map (·.start))
    | none => return place none
  | .slice =>
    let start ← relativeArg first length 0
    let stop ← relativeArg second length length
    return .string (Units.part text start stop)
  | .split =>
    let limit ← match second with
      | .undefined => pure 4294967295
      | v => do pure (← toNumber v).toWord.toNat
    if limit = 0 then allocArray []
    else
      match ← patternOf? first with
      | some (_, _, _, pattern) =>
        let parts :=
          if text.isEmpty then
            if (findFrom pattern text 0).isSome then [] else [.string []]
          else splitMatches pattern text (matchesOf pattern text) 0
        allocArray (parts.take limit)
      | none =>
        match first with
        | .undefined => allocArray [.string text]
        | v =>
          let separator ← toText v
          let parts := if separator.isEmpty then text.map ([·])
            else splitAt separator (length + 1) text
          allocArray ((parts.take limit).map .string)
  | .substr =>
    let start ← relativeArg first length 0
    let count ← match second with
      | .undefined => pure (length - start)
      | v => do pure (min (← toInteger v).toNat (length - start))
    return .string (Units.part text start (start + count))
  | .substring =>
    let a ← clampedArg first length 0
    let b ← clampedArg second length length
    return .string (Units.part text (min a b) (max a b))
  | .toLowerCase | .toLocaleLowerCase => return .string (recase EggLang.Text.toLower text)
  | .toUpperCase | .toLocaleUpperCase => return .string (recase EggLang.Text.toUpper text)
  | .trim => return .string (trimEnd (text.dropWhile isBlankUnit))
  | .trimEnd => return .string (trimEnd text)
  | .trimStart => return .string (text.dropWhile isBlankUnit)
  | .toString | .valueOf => return .string text
  | .iterator => allocIterator (.characters text) .stringIteratorPrototype
where
  /-- A place that was found, or -1. -/
  place (found : Option Nat) : Value := .number (.ofInt ((found.map Int.ofNat).getD (-1)))
  /-- A text without the white space at its end. -/
  trimEnd (u : Units) : Units := (u.reverse.dropWhile isBlankUnit).reverse

def stringMethod (f : StringMethod) (self : Value) (args : List Value) : Action Value := do
  if f = .toString || f = .valueOf then ownText self
  else textMethod f (← receiverText self) args

/-- The functions of `String`. -/
def stringFn (f : StringFn) (args : List Value) : Action Value := do
  match f with
  | .fromCharCode =>
    let units ← mapEach (fun v => do return (← toNumber v).toWord.toUInt16) args
    return .string units
  | .fromCodePoint =>
    let parts ← mapEach (fun v => do
      let x ← toNumber v
      match x with
      | .int n =>
        if 0 ≤ n && n < 0x110000 then
          if 0xD800 ≤ n && n < 0xE000 then return [n.toNat.toUInt16]
          else return Units.ofChar (Char.ofNat n.toNat)
        else failWith .rangeError (Units.ofString "Invalid code point " ++ x.text)
      | x => failWith .rangeError (Units.ofString "Invalid code point " ++ x.text)) args
    return .string parts.flatten
  | .raw =>
    let ref ← toObject (arg args 0)
    let raw ← toObject (← get ref (.ofString "raw"))
    let texts ← mapEach toText (← elementsOf raw)
    let parts ← mapEach toText (args.drop 1)
    return .string (interleave texts parts)
where
  /-- Texts with other texts between them. -/
  interleave : List Units → List Units → Units
    | [], _ => []
    | [t], _ => t
    | t :: ts, [] => t ++ interleave ts []
    | t :: ts, p :: ps => t ++ p ++ interleave ts ps

end EggLang.Script.Library
