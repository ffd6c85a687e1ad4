import EggLang.Data.Basic
import EggLang.Text.Units

/-!
# Reading JSON

The data of a JSON text. A string may hold any character; half of a surrogate pair and an
ill-formed byte read as U+FFFD. Numbers are rounded to the nearest double, and a number past the
largest one is refused, as is a structure nested more than ten thousand levels deep.
-/

namespace EggLang.Data.Reader

def isGap (b : UInt8) : Bool := b = 32 || b = 9 || b = 10 || b = 13

def skip (text : Bytes) : Bytes := text.dropWhile isGap

def hexValue? (b : UInt8) : Option Nat :=
  if Bytes.isDigit b then some (b.toNat - 48)
  else if 97 ≤ b && b ≤ 102 then some (b.toNat - 87)
  else if 65 ≤ b && b ≤ 70 then some (b.toNat - 55)
  else none

def unit? (a b c d : UInt8) : Option UInt16 := do
  let a ← hexValue? a
  let b ← hexValue? b
  let c ← hexValue? c
  let d ← hexValue? d
  return (((a * 16 + b) * 16 + c) * 16 + d).toUInt16

def letter? (b : UInt8) : Option UInt16 :=
  if b = 34 || b = 92 || b = 47 then some b.toUInt16
  else if b = 98 then some 8
  else if b = 102 then some 12
  else if b = 110 then some 10
  else if b = 114 then some 13
  else if b = 116 then some 9
  else none

/-- The units of the bytes of a string that stand for themselves. -/
def rawUnits (raw : Bytes) : Units := Units.ofChars (Text.chars raw)

/-- The contents of a string after its opening quote and the text after the closing one. `raw`
are the bytes since the last escape, the last one first. -/
def stringRest (raw : Bytes) : Bytes → Option (Units × Bytes)
  | [] => none
  | 92 :: 117 :: a :: b :: c :: d :: rest => do
    let unit ← unit? a b c d
    let (units, after) ← stringRest [] rest
    return (rawUnits raw.reverse ++ unit :: units, after)
  | 92 :: b :: rest => do
    let unit ← letter? b
    let (units, after) ← stringRest [] rest
    return (rawUnits raw.reverse ++ unit :: units, after)
  | b :: rest =>
    if b = 34 then some (rawUnits raw.reverse, rest)
    else if b < 32 || b = 92 then none
    else stringRest (b :: raw) rest

/-- Whether a number starts with a minus sign, and the text after it. -/
def minus : Bytes → Bool × Bytes
  | 45 :: rest => (true, rest)
  | rest => (false, rest)

/-- The digits of a fraction and the text after them; none where no point is written. A point
without digits is refused. -/
def fraction? : Bytes → Option (Bytes × Bytes)
  | 46 :: rest =>
    let ds := rest.takeWhile Bytes.isDigit
    if ds.isEmpty then none else some (ds, rest.drop ds.length)
  | rest => some ([], rest)

/-- Whether an exponent starts with a minus sign, and the text after its sign. -/
def signed : Bytes → Bool × Bytes
  | 45 :: rest => (true, rest)
  | 43 :: rest => (false, rest)
  | rest => (false, rest)

/-- The value of an exponent and the text after it; zero where none is written. An exponent without
digits is refused. -/
def exponent? : Bytes → Option (Int × Bytes)
  | e :: rest =>
    if e = 101 || e = 69 then
      let (negative, rest) := signed rest
      let ds := rest.takeWhile Bytes.isDigit
      if ds.isEmpty then none
      else
        let n : Int := Bytes.digitsValue ds
        some (if negative then -n else n, rest.drop ds.length)
    else some (0, e :: rest)
  | [] => some (0, [])

def number (text : Bytes) : Option (Data × Bytes) :=
  let (negative, body) := minus text
  let whole := body.takeWhile Bytes.isDigit
  if whole.isEmpty || (whole.length > 1 && whole.head? = some 48) then none
  else do
    let (fraction, rest) ← fraction? (body.drop whole.length)
    let (exponent, rest) ← exponent? rest
    let coefficient := Bytes.digitsValue (whole ++ fraction)
    match Binary64.ofDecimal negative coefficient (exponent - fraction.length) with
    | .finite s m e => return (.number (.finite s m e), rest)
    | _ => none

def words : List (Bytes × Data) :=
  [(utf8 "null", .null), (utf8 "true", .bool true), (utf8 "false", .bool false)]

def word (text : Bytes) : Option (Data × Bytes) :=
  words.findSome? fun (w, d) => (Bytes.dropLead? w text).map fun rest => (d, rest)

mutual

/-- Reads one value. `depth` is how many levels more it may nest. -/
def value : (fuel depth : Nat) → Bytes → Option (Data × Bytes)
  | 0, _, _ => none
  | fuel + 1, depth, text =>
    match skip text with
    | [] => none
    | b :: rest =>
      if b = 34 then (stringRest [] rest).map fun (u, after) => (.string u.toBytes, after)
      else if b = 91 then
        match depth with
        | 0 => none
        | depth + 1 =>
          match skip rest with
          | 93 :: after => some (.list [], after)
          | inner => do
            let (items, after) ← items fuel depth inner
            return (.list items, after)
      else if b = 123 then
        match depth with
        | 0 => none
        | depth + 1 =>
          match skip rest with
          | 125 :: after => some (.map [], after)
          | inner => do
            let (members, after) ← members fuel depth inner
            return (ofMembers members, after)
      else if b = 45 || Bytes.isDigit b then number (b :: rest)
      else word (b :: rest)

/-- Reads list items up to the closing bracket. -/
def items : (fuel depth : Nat) → Bytes → Option (List Data × Bytes)
  | 0, _, _ => none
  | fuel + 1, depth, text => do
    let (first, rest) ← value fuel depth text
    match skip rest with
    | 93 :: after => return ([first], after)
    | 44 :: after =>
      let (others, after) ← items fuel depth after
      return (first :: others, after)
    | _ => none

/-- Reads map members up to the closing brace. -/
def members : (fuel depth : Nat) → Bytes → Option (List (Bytes × Data) × Bytes)
  | 0, _, _ => none
  | fuel + 1, depth, text => do
    let (name, rest) ← match skip text with
      | 34 :: rest => stringRest [] rest
      | _ => none
    let (first, rest) ← match skip rest with
      | 58 :: rest => value fuel depth rest
      | _ => none
    match skip rest with
    | 125 :: after => return ([(name.toBytes, first)], after)
    | 44 :: after =>
      let (others, after) ← members fuel depth after
      return ((name.toBytes, first) :: others, after)
    | _ => none

end

end EggLang.Data.Reader

namespace EggLang.Data

def deepest : Nat := 10000

/-- The data of a JSON text, or nothing where it is malformed. -/
def ofJson? (text : Bytes) : Option Data :=
  match Reader.value (2 * text.length + 2) deepest text with
  | some (d, rest) => if (Reader.skip rest).isEmpty then some d else none
  | none => none

end EggLang.Data
