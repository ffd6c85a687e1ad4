import EggLang.Script.Evaluation
import EggLang.Script.Library.Array
import EggLang.Script.Library.Collection
import EggLang.Script.Library.Json
import EggLang.Script.Library.Number
import EggLang.Script.Library.Pattern
import EggLang.Script.Library.Text

/-!
# Global functions and constructors

The functions that are found under global names, and what a call of any function found at the start
does.
-/

namespace EggLang.Script.Library

open EggLang.Script.Action

/-! ## Numbers in texts -/

def trimmedText (u : Units) : List Char :=
  Units.toChars ((u.dropWhile isBlankUnit).reverse.dropWhile isBlankUnit).reverse

/-- The whole number at the front of a text in a base. -/
def parseWhole (text : Units) (base : Int) : Numeric :=
  let (negative, body) := Reading.unsigned (trimmedText text)
  let hasHex := match body with
    | '0' :: x :: _ => x.toLower = 'x'
    | _ => false
  let (base, body) :=
    if (base = 0 || base = 16) && hasHex then (16, body.drop 2)
    else (if base = 0 then 10 else base, body)
  if base < 2 || 36 < base then .nan
  else
    let digits := body.takeWhile (Reading.isDigitOf base.toNat)
    if digits.isEmpty then .nan
    else
      let n : Int := Reading.valueOf base.toNat digits
      .ofInt (if negative then -n else n)

def parseFraction (text : Units) : Numeric :=
  let (negative, body) := Reading.unsigned (trimmedText text)
  if "Infinity".toList.isPrefixOf body then .infinity negative
  else
    let (before, after, _, rest) := Reading.mantissa 10 body
    if before.isEmpty && after.isEmpty then .nan
    else
      let exponent : Int := match rest with
        | e :: more =>
          if e = 'e' || e = 'E' then
            let (minus, digits) := Reading.unsigned more
            let ds := digits.takeWhile Char.isDigit
            let n : Int := min (Reading.valueOf 10 ds) 100000
            if minus then -n else n
          else 0
        | [] => 0
      .ofBinary64 (.ofDecimal negative (Reading.valueOf 10 (before ++ after))
        (exponent - after.length))

/-! ## Texts in addresses -/

/-- The marks that stay as they are in a part of an address. -/
def plainMarks : List Char := "-_.!~*'()".toList

def addressMarks : List Char := ";/?:@&=+$,#".toList

def percentByte (b : UInt8) : Units :=
  let digits := (Bytes.hex b.toNat 2).map UInt8.toUInt16
  37 :: Units.ofChars ((Units.toChars digits).map Char.toUpper)

/-- A text with percent signs in place of other characters; nothing if it has half a pair. -/
def encodeText? (plain : List Char) (u : Units) : Option Units :=
  let cs := Units.toChars u
  if Units.ofChars cs != u then none
  else some (cs.flatMap fun c =>
    if c.isAlphanum || plain.contains c then Units.ofChar c
    else (String.utf8EncodeChar c).flatMap percentByte)

/-- The value of two hexadecimal digits behind a percent sign. -/
def percentValue? : List Char → Option UInt8
  | '%' :: a :: b :: _ =>
    if Reading.isDigitOf 16 a && Reading.isDigitOf 16 b then
      some (Reading.valueOf 16 [a, b]).toUInt8
    else none
  | _ => none

/-- The bytes of the character whose first byte is given, in front of a text. -/
def percentBytes? (count : Nat) (cs : List Char) : Option Bytes :=
  (List.range count).mapM fun i => percentValue? (cs.drop (3 * i))

/-- A text with characters in place of percent signs; marks that are kept stay encoded. -/
def decodeText? (kept : List Char) : (skip : Nat) → List Char → Option (List Char)
  | _, [] => some []
  | skip + 1, _ :: rest => decodeText? kept skip rest
  | 0, c :: rest =>
    if c != '%' then (decodeText? kept 0 rest).map (c :: ·)
    else do
      let first ← percentValue? (c :: rest)
      let count := if first < 0x80 then 1 else if first < 0xE0 then 2
        else if first < 0xF0 then 3 else 4
      let bytes ← percentBytes? count (c :: rest)
      match Text.chars? bytes with
      | some [d] =>
        let more ← decodeText? kept (3 * count - 1) rest
        return if kept.contains d then (c :: rest).take 3 ++ more else d :: more
      | _ => none

/-- A text with percent signs in place of units other than some. -/
def escaped (u : Units) : Units :=
  u.flatMap fun x =>
    let c := Units.single x
    if x < 128 && (c.isAlphanum || "@*_+-./".toList.contains c) then [x]
    else
      let hex (n digits : Nat) : Units :=
        Units.ofChars ((Units.toChars ((Bytes.hex n digits).map UInt8.toUInt16)).map Char.toUpper)
      if x < 256 then 37 :: hex x.toNat 2 else 37 :: 117 :: hex x.toNat 4

/-- The unit that an escape stands for, and its length. -/
def escapeAt? (cs : List Char) : Option (UInt16 × Nat) :=
  match cs with
  | '%' :: 'u' :: rest =>
    let ds := rest.take 4
    if ds.length = 4 && ds.all (Reading.isDigitOf 16) then
      some ((Reading.valueOf 16 ds).toUInt16, 6)
    else none
  | '%' :: rest =>
    let ds := rest.take 2
    if ds.length = 2 && ds.all (Reading.isDigitOf 16) then
      some ((Reading.valueOf 16 ds).toUInt16, 3)
    else none
  | _ => none

def unescaped : (skip : Nat) → List Char → Units
  | _, [] => []
  | skip + 1, _ :: rest => unescaped skip rest
  | 0, c :: rest =>
    match escapeAt? (c :: rest) with
    | some (u, length) => u :: unescaped (length - 1) rest
    | none => Units.ofChar c ++ unescaped 0 rest

def globalFn (f : GlobalFn) (args : List Value) : Action Value := do
  let first := arg args 0
  let decoded (kept : List Char) : Action Value := do
    match decodeText? kept 0 (Units.toChars (← toText first)) with
    | some cs => return .string (Units.ofChars cs)
    | none => failWith .uriError (Units.ofString "Malformed URI sequence")
  let encoded (plain : List Char) : Action Value := do
    match encodeText? plain (← toText first) with
    | some u => return .string u
    | none => failWith .uriError (Units.ofString "Malformed URI sequence")
  match f with
  | .parseInt =>
    let text ← toText first
    let base ← toNumber (arg args 1)
    match Numeric.ofSignedWord base.toWord with
    | .int n => return .number (parseWhole text n)
    | _ => return .number .nan
  | .parseFloat => return .number (parseFraction (← toText first))
  | .isNaN => return .bool (← toNumber first).isNaN
  | .isFinite => return .bool (← toNumber first).isFinite
  | .eval => runText 0 first
  | .encode => encoded (plainMarks ++ addressMarks)
  | .encodeComponent => encoded plainMarks
  | .decode => decoded addressMarks
  | .decodeComponent => decoded []
  | .escape => return .string (escaped (← toText first))
  | .unescape => return .string (unescaped 0 (Units.toChars (← toText first)))

/-! ## Constructors -/

/-- A primitive value as an object, made by a constructor. -/
def box (v : Value) (target : Option Nat) (standard : Intrinsic) : Action Value := do
  match target with
  | none => return v
  | some _ =>
    let proto ← prototypeFor target standard
    return .object (← alloc { kind := .boxed v, proto := some proto })

def symbolText (id : Nat) : Action Units := do
  return Units.ofString "Symbol(" ++ (← display (.symbol id)) ++ Units.ofString ")"

def constructFunction (args : List Value) : Action Value := do
  let texts ← mapEach toText args
  let params := joined (Units.ofString ",") texts.dropLast
  let body := texts.getLastD []
  let source := Units.ofString "(function anonymous(" ++ params ++ Units.ofString "\n) \x7b\n"
    ++ body ++ Units.ofString "\n\x7d)"
  match parse? (Units.toChars source) with
  | some [.expression (.function f)] =>
    return .object (← closure f 0 (Units.ofString "anonymous"))
  | _ => failWith .syntaxError (Units.ofString "malformed function")

def constructError (kind : ErrorKind) (args : List Value) (target : Option Nat) :
    Action Value := do
  let proto ← prototypeFor target kind.prototype
  let members ← match arg args 0 with
    | .undefined => pure #[]
    | v => do pure #[(messageKey, Property.hidden (.string (← toText v)))]
  return .object (← alloc { kind := .error, proto := some proto, members })

/-- What a constructor does, called or constructing. -/
def constructor (c : Constructor) (args : List Value) (target : Option Nat) : Action Value := do
  match c with
  | .object =>
    match arg args 0 with
    | .undefined | .null =>
      let proto ← prototypeFor target .objectPrototype
      return .object (← alloc { proto := some proto })
    | v => return .object (← toObject v)
  | .function => constructFunction args
  | .array => constructArray args target
  | .string =>
    let text ← match args, target with
      | [], _ => pure []
      | .symbol id :: _, none => symbolText id
      | v :: _, _ => toText v
    box (.string text) target .stringPrototype
  | .number =>
    let x ← match args with
      | [] => pure .zero
      | v :: _ => toNumber v
    box (.number x) target .numberPrototype
  | .boolean => box (.bool (arg args 0).isTruthy) target .booleanPrototype
  | .symbol =>
    let text ← match arg args 0 with
      | .undefined => pure none
      | v => some <$> toText v
    let id ← alter fun s => (s.symbols.size, { s with symbols := s.symbols.push text })
    return .symbol id
  | .error kind => constructError kind args target
  | .regex => constructRegex args target.isSome
  | .map => constructCollection true args target
  | .set => constructCollection false args target

/-! ## Calls -/

def symbolFn (f : SymbolFn) (self : Value) (args : List Value) : Action Value := do
  let own : Action Nat := do
    match self with
    | .symbol id => return id
    | .object ref =>
      match ← read fun (s : Store) => (s.object ref).kind with
      | .boxed (.symbol id) => return id
      | _ => fail "Value is not a symbol"
    | _ => fail "Value is not a symbol"
  match f with
  | .for =>
    let name ← toText (arg args 0)
    match ← read fun (s : Store) => s.shared.lookup name with
    | some id => return .symbol id
    | none =>
      let id ← alter fun s =>
        let id := s.symbols.size
        (id, { s with symbols := s.symbols.push (some name), shared := (name, id) :: s.shared })
      return .symbol id
  | .keyFor =>
    match arg args 0 with
    | .symbol id =>
      let found ← read fun (s : Store) => s.shared.find? (·.2 = id)
      return (found.map fun e => Value.string e.1).getD .undefined
    | v => failAbout "Value is not a symbol: " (← display v) ""
  | .toString => return .string (← symbolText (← own))
  | .valueOf => return .symbol (← own)
  | .description =>
    let id ← own
    return ((← read fun (s : Store) => s.symbols[id]?.join).map Value.string).getD .undefined

def booleanMethod (f : BooleanMethod) (self : Value) : Action Value := do
  let b ← match self with
    | .bool b => pure b
    | .object ref => do
      match ← read fun (s : Store) => (s.object ref).kind with
      | .boxed (.bool b) => pure b
      | _ => fail "Value is not a boolean"
    | _ => fail "Value is not a boolean"
  match f with
  | .toString => return .string (boolText b)
  | .valueOf => return .bool b

/-- The text of an error: its name and its message. -/
def errorText (self : Value) : Action Value := do
  let ref ← expectObject self
  let part (key : Key) (standard : String) : Action Units := do
    match ← get ref key with
    | .undefined => return Units.ofString standard
    | v => toText v
  let name ← part nameKey "Error"
  let message ← part messageKey ""
  return .string (
    if message.isEmpty then name
    else if name.isEmpty then message
    else name ++ Units.ofString ": " ++ message)

def call (f : Native) (self : Value) (args : List Value) (target : Option Nat) :
    Action Value := do
  match f with
  | .log =>
    let texts ← mapEach display args
    modify (·.log (Bytes.join (utf8 " ") (texts.map Units.toBytes)))
    return .undefined
  | .nothing => return .undefined
  | .self => return self
  | .construct c => constructor c args target
  | .global f => globalFn f args
  | .objectFn f => objectFn f args
  | .object f => objectMethod f self args
  | .function f => functionMethod f self args
  | .arrayFn f => arrayFn f args
  | .array f => arrayMethod f self args
  | .stringFn f => stringFn f args
  | .string f => stringMethod f self args
  | .numberFn f => return numberFn f args
  | .number f => numberMethod f self args
  | .boolean f => booleanMethod f self
  | .symbolFn f => symbolFn f self args
  | .math f => mathFn f args
  | .json f => jsonFn f args
  | .errorText => errorText self
  | .regex f => regexMethod f self args
  | .mapMethod f => collectionMethod true f self args
  | .setMethod f => collectionMethod false f self args
  | .next => advance self

end EggLang.Script.Library
