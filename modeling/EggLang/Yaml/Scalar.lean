import EggLang.Number.Binary64
import EggLang.Text.Utf8
import EggLang.Yaml.Basic

/-!
# What texts stand for

A plain text without a tag may stand for nothing, a truth value, a number or a point in time. A
tag demands that it does, or says that it is a text or holds octets. Tags of other kinds leave the
text as it is.
-/

namespace EggLang.Yaml

inductive Sense where
  | null
  | truth
  /-- A whole number, and whether it fits into 64 bits with its sign. -/
  | whole (isSigned : Bool)
  | float
  | time
  | text
  deriving DecidableEq, Repr

/-- The texts that stand for nothing. -/
def nullTexts : List String := ["", "~", "null", "Null", "NULL"]

def truthTexts : List String := ["true", "True", "TRUE", "false", "False", "FALSE"]

/-- The texts of the numbers that are not finite. -/
def specialTexts : List String :=
  let signed := fun t : String => [t, "+" ++ t, "-" ++ t]
  [".nan", ".NaN", ".NAN"] ++ [".inf", ".Inf", ".INF"].flatMap signed

/-! ## Numbers -/

/-- A text without its sign, and whether that was a minus. -/
def unsigned : List Char → Bool × List Char
  | '-' :: rest => (true, rest)
  | '+' :: rest => (false, rest)
  | rest => (false, rest)

def digitValue? (base : Nat) (c : Char) : Option Nat :=
  let v := if c.isDigit then c.toNat - 48
    else if c.isLower then c.toNat - 87
    else if c.isUpper then c.toNat - 55
    else 36
  if v < base then some v else none

def digits? (base : Nat) (ds : List Char) : Option Nat :=
  if ds.isEmpty then none
  else (ds.mapM (digitValue? base)).map fun vs => vs.foldl (fun n v => n * base + v) 0

/-- The magnitude of a whole number whose base is told by how it starts. -/
def magnitude? : List Char → Option Nat
  | ['0'] => some 0
  | '0' :: c :: rest =>
    if c.toLower = 'x' then digits? 16 rest
    else if c.toLower = 'b' then digits? 2 rest
    else if c.toLower = 'o' then digits? 8 rest
    else digits? 8 (c :: rest)
  | ds => digits? 10 ds

/-- Whether a magnitude with a sign fits into 64 bits. -/
def fitsSigned (negative : Bool) (n : Nat) : Bool :=
  n < Nat.pow 2 63 || (negative && n = Nat.pow 2 63)

/-- Whether a text is a whole number, and whether it fits into 64 bits with its sign. Without a
sign it may take all 64 bits. -/
def whole? (text : List Char) : Option Bool :=
  let (negative, body) := unsigned text
  match magnitude? body with
  | some n =>
    if fitsSigned negative n then some true
    else if body = text && n < Nat.pow 2 64 then some false
    else none
  | none =>
    -- A binary or octal number may also have its sign after the base.
    let inner (base : Nat) (rest : List Char) : Option Bool :=
      let (negative, ds) := unsigned rest
      (digits? base ds).bind fun n => if fitsSigned negative n then some true else none
    match text with
    | '0' :: 'b' :: rest => inner 2 rest
    | '0' :: 'o' :: rest => inner 8 rest
    | _ => none

/-- The exponent of a decimal number, if nothing else follows. -/
def exponent? : List Char → Option Int
  | [] => some 0
  | e :: rest =>
    if e.toLower = 'e' then
      let (negative, ds) := unsigned rest
      (digits? 10 ds).map fun n => if negative then -n else n
    else none

/-- Whether a text is a decimal number that is not too large. -/
def isFloat (text : List Char) : Bool :=
  let (_, body) := unsigned text
  let before := body.takeWhile Char.isDigit
  let rest := body.drop before.length
  let (hasPoint, after, rest) := match rest with
    | '.' :: rest => (true, rest.takeWhile Char.isDigit, rest.dropWhile Char.isDigit)
    | rest => (false, [], rest)
  let isNumber := !before.isEmpty || (hasPoint && !after.isEmpty)
  match exponent? rest with
  | some e =>
    let value := Binary64.ofDecimal false ((digits? 10 (before ++ after)).getD 0) (e - after.length)
    isNumber && value.isFinite
  | none => false

/-- Whether a text that starts with a point is a number. Underscores may stand between digits. -/
def isPointFloat (text : List Char) : Bool :=
  let isApart := fun (a : Char × Char) => a.2 != '_' || a.1.isDigit
  let followed := fun (a : Char × Char) => a.1 != '_' || a.2.isDigit
  let pairs := text.zip (text.drop 1)
  pairs.all isApart && pairs.all followed && text.getLast? != some '_'
    && isFloat (text.filter (· != '_'))

/-! ## Points in time -/

/-- Reads a number of one or two digits in a range. -/
def shortNumber (least most : Nat) : List Char → Option (Nat × List Char)
  | a :: b :: rest =>
    if a.isDigit && b.isDigit then
      let n := (a.toNat - 48) * 10 + (b.toNat - 48)
      if least ≤ n && n ≤ most then some (n, rest) else none
    else if a.isDigit then
      let n := a.toNat - 48
      if least ≤ n then some (n, b :: rest) else none
    else none
  | [a] => if a.isDigit && least ≤ a.toNat - 48 then some (a.toNat - 48, []) else none
  | [] => none

def afterChar (c : Char) : List Char → Option (List Char)
  | d :: rest => if c = d then some rest else none
  | [] => none

def daysIn (year month : Nat) : Nat :=
  if month = 2 then
    if year % 4 = 0 && (year % 100 != 0 || year % 400 = 0) then 29 else 28
  else if [4, 6, 9, 11].contains month then 30
  else 31

/-- Reads a time of the day, with a fraction of a second. -/
def clock (text : List Char) : Option (List Char) := do
  let (_, text) ← shortNumber 0 23 text
  let (_, text) ← shortNumber 0 59 (← afterChar ':' text)
  let (_, text) ← shortNumber 0 59 (← afterChar ':' text)
  match text with
  | point :: d :: rest =>
    return if (point = '.' || point = ',') && d.isDigit then rest.dropWhile Char.isDigit else text
  | _ => return text

def isZone : List Char → Bool
  | ['Z'] => true
  | [sign, h, h', ':', m, m'] =>
    (sign = '+' || sign = '-') && [h, h', m, m'].all Char.isDigit
      && (h.toNat - 48) * 10 + (h'.toNat - 48) ≤ 24 && (m.toNat - 48) * 10 + (m'.toNat - 48) ≤ 60
  | _ => false

/-- Whether a text is a date, alone or with a time of the day. -/
def isTime (text : List Char) : Bool :=
  let year := text.takeWhile Char.isDigit
  let parsed := do
    if year.length != 4 then none
    let (month, rest) ← shortNumber 1 12 (← afterChar '-' (text.drop 4))
    let (day, rest) ← shortNumber 0 31 (← afterChar '-' rest)
    if day = 0 || daysIn ((digits? 10 year).getD 0) month < day then none
    match rest with
    | [] => return true
    | 'T' :: rest | 't' :: rest => return isZone (← clock rest)
    | ' ' :: rest => return (← clock rest).isEmpty
    | _ => return false
  parsed.getD false

/-! ## Senses -/

/-- What a plain text stands for. Points in time are known only where `times` holds. -/
def sense (times : Bool) (text : List Char) : Sense :=
  let isOneOf := fun (ts : List String) => ts.contains (String.ofList text)
  if isOneOf nullTexts then .null
  else if isOneOf truthTexts then .truth
  else if isOneOf specialTexts then .float
  else
    match text with
    | '.' :: _ => if isPointFloat text then .float else .text
    | c :: _ =>
      if c.isDigit || c = '+' || c = '-' then
        let bare := text.filter (· != '_')
        if times && isTime text then .time
        else
          match whole? bare with
          | some signed => .whole signed
          | none => if isFloat bare then .float else .text
      else .text
    | [] => .null

inductive Meaning where
  | null
  /-- A text or octets. -/
  | text (bytes : Bytes)
  /-- Something else that is written so. -/
  | other (written : Bytes)
  deriving DecidableEq, Repr

/-- The value of a digit of base 64. -/
def sextet? (c : Char) : Option Nat :=
  if c.isUpper then some (c.toNat - 65)
  else if c.isLower then some (c.toNat - 71)
  else if c.isDigit then some (c.toNat + 4)
  else if c = '+' then some 62
  else if c = '/' then some 63
  else none

/-- The octets of a text in base 64, padded, without line ends. -/
def octetsOf : List Char → Option Bytes
  | [] => some []
  | [a, b, '=', '='] => do
    let n := (← sextet? a) * 64 + (← sextet? b)
    return [(n / 16).toUInt8]
  | [a, b, c, '='] => do
    let n := ((← sextet? a) * 64 + (← sextet? b)) * 64 + (← sextet? c)
    return [(n / 1024).toUInt8, (n / 4).toUInt8]
  | a :: b :: c :: d :: rest => do
    let n := (((← sextet? a) * 64 + (← sextet? b)) * 64 + (← sextet? c)) * 64 + (← sextet? d)
    return (n / 65536).toUInt8 :: (n / 256).toUInt8 :: n.toUInt8 :: (← octetsOf rest)
  | _ => none

/-- The tags that demand a sense, and whether a sense fulfils them. -/
def demands : List (String × (Sense → Bool)) :=
  [("!!null", (· = .null)), ("!!bool", (· = .truth)),
    ("!!int", fun s => match s with
      | .whole _ => true
      | _ => false),
    ("!!float", fun s => s = .float || s = .whole true), ("!!timestamp", (· = .time))]

/-- The tag that counts: a quoted text is a text, and two signs less than are a merge. -/
def countingTag (tag : Option (List Char)) (isPlain : Bool) (text : List Char) :
    Option (List Char) :=
  match tag with
  | some t => some t
  | none =>
    if !isPlain then some "!!str".toList
    else if text = ['<', '<'] then some "!!merge".toList
    else none

/-- What a text says, if its tag allows that. -/
def meaning? (tag : Option (List Char)) (isPlain : Bool) (text : List Char) : Option Meaning :=
  let ofSense : Sense → Meaning
    | .null => .null
    | .text => .text (Text.ofChars text)
    | _ => .other (Text.ofChars text)
  match countingTag tag isPlain text with
  | none => some (ofSense (sense true text))
  | some t =>
    let name := String.ofList t
    if name = "!!binary" then
      (octetsOf (text.filter fun c => c != '\n' && c != '\r')).map .text
    else
      match demands.lookup name with
      | some fulfilled =>
        let s := sense (name = "!!timestamp") text
        if fulfilled s then some (ofSense s) else none
      | none => some (.text (Text.ofChars text))

/-- Whether a node as a key merges what stands under it. -/
def isMerge : Yaml → Bool
  | .scalar tag isPlain text =>
    text = ['<', '<'] && countingTag tag isPlain text = some "!!merge".toList
  | _ => false

end EggLang.Yaml
