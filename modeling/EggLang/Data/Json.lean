import EggLang.Data.Basic
import EggLang.Number.Layout
import EggLang.Text.Utf8

/-!
# Data as text

Data is shown as compact JSON where it can be, and in a plainer form otherwise.
-/

namespace EggLang.Data

/-!
## JSON

Characters that mean something in a web page are escaped, and so are the two Unicode line breaks.
Numbers without a decimal value and functions have no JSON text.
-/

/-- Why data has no JSON text. -/
inductive Unsupported where
  | number (x : Binary64)
  | callable
  deriving DecidableEq, Repr

/-- Numbers in JSON: an exponent is written below a millionth and from 10^21 on. -/
def jsonNumber : Layout where
  positionalFrom := some (-6)
  positionalBelow := some 21
  exponentDigits := 1
  signedZero := true
  positiveInfinity := "+Inf"
  infinity := "Inf"

def Unsupported.message : Unsupported → Bytes
  | number x => utf8 "json: unsupported value: " ++ jsonNumber.render x
  | callable => utf8 "json: unsupported type: func(goja.FunctionCall) goja.Value"

/-- How a character is written in a JSON string. -/
def jsonChar (c : Char) : Bytes :=
  let n := c.toNat
  let byNumber : Bytes := utf8 "\\u" ++ Bytes.hex n 4
  if n = 34 then utf8 "\\\""
  else if n = 92 then utf8 "\\\\"
  else if n = 8 then utf8 "\\b"
  else if n = 12 then utf8 "\\f"
  else if n = 10 then utf8 "\\n"
  else if n = 13 then utf8 "\\r"
  else if n = 9 then utf8 "\\t"
  else if n < 32 || n = 60 || n = 62 || n = 38 || n = 0x2028 || n = 0x2029 then byNumber
  else String.utf8EncodeChar c

/-- How a glyph is written in a JSON string; a stray byte is written as U+FFFD. -/
def jsonGlyph : Glyph → Bytes
  | .char c => jsonChar c
  | .stray _ => utf8 "\\ufffd"

def jsonString (text : Bytes) : Bytes := [34] ++ (Text.glyphs text).flatMap jsonGlyph ++ [34]

mutual

def json : Data → Except Unsupported Bytes
  | null => .ok (utf8 "null")
  | bool b => .ok (utf8 (if b then "true" else "false"))
  | number .nan => .error (.number .nan)
  | number (.infinite s) => .error (.number (.infinite s))
  | number x => .ok (jsonNumber.render x)
  | string text => .ok (jsonString text)
  | list items => do
    let texts ← jsonItems items
    return utf8 "[" ++ Bytes.join (utf8 ",") texts ++ utf8 "]"
  | map members => do
    let texts ← jsonMembers members
    return utf8 "\x7b" ++ Bytes.join (utf8 ",") texts ++ utf8 "\x7d"
  | callable => .error .callable

def jsonItems : List Data → Except Unsupported (List Bytes)
  | [] => .ok []
  | d :: rest => do
    let text ← json d
    let texts ← jsonItems rest
    return text :: texts

def jsonMembers : List (Bytes × Data) → Except Unsupported (List Bytes)
  | [] => .ok []
  | (name, d) :: rest => do
    let text ← json d
    let texts ← jsonMembers rest
    return (jsonString name ++ utf8 ":" ++ text) :: texts

end

/-!
## Plain text

Data that JSON cannot hold is shown in a plainer form: lists in brackets with blanks between the
items, maps with their members sorted, texts bare.
-/

/-- Numbers in plain text: an exponent is written from a million on and below a
ten-thousandth, with two digits at least. -/
def plainNumber : Layout where
  positionalFrom := some (-4)
  positionalBelow := some 6
  exponentDigits := 2
  signedZero := true
  positiveInfinity := "+Inf"
  infinity := "Inf"

mutual

def plain : Data → Bytes
  | null => utf8 "<nil>"
  | bool b => utf8 (if b then "true" else "false")
  | number x => plainNumber.render x
  | string text => text
  | list items => utf8 "[" ++ Bytes.join (utf8 " ") (plainItems items) ++ utf8 "]"
  | map members => utf8 "map[" ++ Bytes.join (utf8 " ") (plainMembers members) ++ utf8 "]"
  | callable => utf8 "function"

def plainItems : List Data → List Bytes
  | [] => []
  | d :: rest => plain d :: plainItems rest

def plainMembers : List (Bytes × Data) → List Bytes
  | [] => []
  | (name, d) :: rest => (name ++ utf8 ":" ++ plain d) :: plainMembers rest

end

/-- The text under which data is shown: JSON where it can be, plain text otherwise. -/
def display (d : Data) : Bytes :=
  match d.json with
  | .ok text => text
  | .error _ => d.plain

end EggLang.Data
