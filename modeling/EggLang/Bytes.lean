/-!
# Byte texts

Every text the library reads or writes is a list of bytes: a program may hold bytes that are
not well-formed UTF-8, and the generated code carries them on unchanged. This module has the
operations on such texts that do not look at characters.
-/

namespace EggLang

/-- A text as its bytes. Nothing says that they are well-formed UTF-8. -/
abbrev Bytes := List UInt8

/-- The UTF-8 bytes of a string. -/
def utf8 (s : String) : Bytes := s.toList.flatMap String.utf8EncodeChar

namespace Bytes

def ofNat (n : Nat) : Bytes := (Nat.toDigits 10 n).map fun c => c.toNat.toUInt8

def isDigit (b : UInt8) : Bool := 48 ≤ b && b ≤ 57

def digitsValue (digits : Bytes) : Nat := digits.foldl (fun n b => 10 * n + (b.toNat - 48)) 0

/-- A decimal integer, with a minus sign when it is negative. -/
def ofInt : Int → Bytes
  | .ofNat n => ofNat n
  | .negSucc n => utf8 "-" ++ ofNat (n + 1)

/-- The texts one after the other with `sep` between neighbours. -/
def join (sep : Bytes) : List Bytes → Bytes
  | [] => []
  | [t] => t
  | t :: rest => t ++ sep ++ join sep rest

def asLine (text : Bytes) : Bytes := text ++ utf8 "\n"

/-- The pieces of a text between the occurrences of one byte; always at least one piece. -/
def splitOn (b : UInt8) : Bytes → List Bytes
  | [] => [[]]
  | c :: rest =>
    if c = b then [] :: splitOn b rest
    else
      match splitOn b rest with
      | [] => [[c]]
      | piece :: pieces => (c :: piece) :: pieces

/-- What follows `lead` in `text`, when `text` starts with it. -/
def dropLead? : (lead text : Bytes) → Option Bytes
  | [], text => some text
  | _ :: _, [] => none
  | a :: lead, b :: text => if a = b then dropLead? lead text else none

/-- Whether `text` starts with `lead`. -/
def startsWith (text lead : Bytes) : Bool := (dropLead? lead text).isSome

/-- The text before the first occurrence of `mark` and the text after it. -/
def cut (mark : Bytes) : Bytes → Option (Bytes × Bytes)
  | [] => if mark.isEmpty then some ([], []) else none
  | c :: rest =>
    match dropLead? mark (c :: rest) with
    | some after => some ([], after)
    | none => (cut mark rest).map fun (before, after) => (c :: before, after)

/-- Whether `mark` occurs in `text`. -/
def contains (text mark : Bytes) : Bool := (cut mark text).isSome

/-- Every occurrence of the byte `old` replaced by `new`. -/
def replaceByte (old new : UInt8) (text : Bytes) : Bytes :=
  text.map fun b => if b = old then new else b

/-- A text written `n` times. -/
def repeated (text : Bytes) : Nat → Bytes
  | 0 => []
  | n + 1 => text ++ repeated text n

/-- Bytewise lexicographic order, strict. -/
def before : Bytes → Bytes → Bool
  | _, [] => false
  | [], _ :: _ => true
  | a :: s, b :: t => if a < b then true else if b < a then false else before s t

/-- A name put in its place in a bytewise sorted list; a name already there is not repeated. -/
def insertSorted (name : Bytes) : List Bytes → List Bytes
  | [] => [name]
  | head :: rest =>
    if before name head then name :: head :: rest
    else if name = head then head :: rest
    else head :: insertSorted name rest

/-- The lower-case hexadecimal digit of a value below sixteen. -/
def hexDigit (n : Nat) : UInt8 := if n < 10 then (48 + n).toUInt8 else (87 + n).toUInt8

/-- The last `width` hexadecimal digits of a number, lower-case. -/
def hex (n : Nat) : (width : Nat) → Bytes
  | 0 => []
  | width + 1 => hex (n / 16) width ++ [hexDigit (n % 16)]

end Bytes

end EggLang
