import EggLang.Script.Reading
import EggLang.Text.Classes
import EggLang.Text.Units

/-!
# Tokens of scripts

The lexical grammar of JavaScript. Tokens are read one at a time, because only a reader of the
grammar knows whether a slash divides or starts a regular expression, and where the text of a
template goes on. Each token knows where it stands and whether a line break comes before it, which
is what decides where a statement may end without a semicolon.
-/

namespace EggLang.Script

inductive Token where
  /-- A name or a keyword; a name with escapes in it is no keyword. -/
  | name (text : String) (isEscaped : Bool)
  | number (value : Numeric)
  | string (units : Units)
  | mark (text : String)
  /-- The quote of a template. -/
  | backquote
  | end
  /-- Text that is no token of the language. -/
  | illegal
  deriving DecidableEq, Repr, Inhabited

namespace Token

open EggLang.Script.Reading (isDigitOf valueOf)

def backquoteChar : Char := Char.ofNat 96

def isGap (c : Char) : Bool := Text.isWhite c || c.toNat = 0xFEFF

/-- The length of the longest run of characters of a class at the front. -/
def run (cls : Char → Bool) (cs : List Char) : Nat := (cs.takeWhile cls).length

/-! ## Numbers -/

/-- The length of an exponent part such as `e+21` at the front, zero if there is none; nothing if
it has no digits. -/
def exponentLength? : List Char → Option Nat
  | e :: rest =>
    if e = 'e' || e = 'E' then
      let sign := match rest with
        | s :: _ => if s = '+' || s = '-' then 1 else 0
        | [] => 0
      let digits := run Char.isDigit (rest.drop sign)
      if digits = 0 then none else some (1 + sign + digits)
    else some 0
  | [] => some 0

/-- The decimal number at the front of a text that starts with a digit, or with a point and a
digit: its value and its length. -/
def decimal? (cs : List Char) : Option (Numeric × Nat) := do
  let whole := run Char.isDigit cs
  let pointed := match cs.drop whole with
    | '.' :: rest => 1 + run Char.isDigit rest
    | _ => 0
  let size := whole + pointed
  let size := size + (← exponentLength? (cs.drop size))
  let value ← Reading.decimalLiteral? (cs.take size)
  return (value, size)

/-- The number at the front of a text, with its length; nothing when it is malformed. A zero
before a digit makes an octal number. Neither a digit nor a name may follow directly. -/
def number? (cs : List Char) : Option (Numeric × Nat) := do
  let based (base : Nat) : Option (Numeric × Nat) :=
    let digits := (cs.drop 2).takeWhile (isDigitOf base)
    (Reading.basedLiteral? base digits).map (·, 2 + digits.length)
  let (value, size) ← match cs with
    | '0' :: c :: _ =>
      match Reading.baseOf? c with
      | some base => based base
      | none =>
        if c = '.' || c = 'e' || c = 'E' then decimal? cs
        else
          let digits := cs.takeWhile (isDigitOf 8)
          some (Reading.octalLiteral digits, digits.length)
    | _ => decimal? cs
  match (cs.drop size).head? with
  | some d => if Text.isIdentifierStart d || d = '\\' || d.isDigit then none
  | none => pure ()
  return (value, size)

/-! ## Strings and templates -/

/-- The units of a code point written as hexadecimal digits. -/
def codeUnits (digits : List Char) : Units :=
  let n := valueOf 16 digits
  if n < 0x10000 then [n.toUInt16] else Units.ofChar (Char.ofNat n)

/-- A code point escaped behind `u`: its digits and the characters it takes. -/
def codePoint? : List Char → Option (List Char × Nat)
  | '\x7b' :: rest =>
    let digits := rest.takeWhile (isDigitOf 16)
    if digits.isEmpty || 0x10FFFF < valueOf 16 digits then none
    else if (rest.drop digits.length).head? = some '\x7d' then some (digits, digits.length + 2)
    else none
  | a :: b :: c :: d :: _ =>
    if [a, b, c, d].all (isDigitOf 16) then some ([a, b, c, d], 4) else none
  | _ => none

def letterEscapes : List (Char × Char) :=
  [('b', '\x08'), ('f', '\x0c'), ('n', '\n'), ('r', '\r'), ('t', '\t'), ('v', '\x0b')]

/-- What follows a backslash in a string: the units it stands for and the characters it takes.
Octal escapes have up to three digits and are read only where `octal` holds. -/
def escape? (octal : Bool) : List Char → Option (Units × Nat)
  | [] => none
  | 'x' :: rest =>
    match rest with
    | a :: b :: _ => if isDigitOf 16 a && isDigitOf 16 b then some (codeUnits [a, b], 3) else none
    | _ => none
  | 'u' :: rest => (codePoint? rest).map fun (digits, size) => (codeUnits digits, size + 1)
  | '\r' :: '\n' :: _ => some ([], 2)
  | c :: rest =>
    if Text.isLineBreak c then some ([], 1)
    else if octal && isDigitOf 8 c then
      let digits := ((c :: rest).take 3).takeWhile (isDigitOf 8)
      some ([(valueOf 8 digits).toUInt16], digits.length)
    else if c.isDigit && !octal then
      if c = '0' && !(rest.head?.map Char.isDigit).getD false then some ([0], 1) else none
    else some (Units.ofChar ((letterEscapes.lookup c).getD c), 1)

/-- The contents of a string after its opening quote, with the length up to and with the closing
one. The first argument counts characters that belong to an escape already read. -/
def stringRest (quote : Char) : (skip : Nat) → List Char → Option (Units × Nat)
  | _, [] => none
  | skip + 1, _ :: rest => (stringRest quote skip rest).map fun (u, n) => (u, n + 1)
  | 0, c :: rest =>
    if c = quote then some ([], 1)
    else if c = '\\' then
      match escape? true rest with
      | none => none
      | some (units, size) => (stringRest quote size rest).map fun (u, n) => (units ++ u, n + 1)
    else if Text.isLineBreak c then none
    else (stringRest quote 0 rest).map fun (u, n) => (Units.ofChar c ++ u, n + 1)

structure Chunk where
  /-- The text as it reads, unless an escape in it is malformed. -/
  text : Option Units
  /-- The text as it is written. -/
  written : Units
  /-- Whether the template ends after it; otherwise an expression follows. -/
  isLast : Bool
  /-- The number of characters, with what ends it. -/
  length : Nat
  deriving Repr

namespace Chunk

def push (c : Chunk) (read : Option Units) (written : Units) : Chunk :=
  { c with
    text := do return (← read) ++ (← c.text)
    written := written ++ c.written, length := c.length + 1 }

/-- A text of a template up to its end. The first argument counts characters that belong to an
escape already read. -/
def read? : (skip : Nat) → List Char → Option Chunk
  | _, [] => none
  | skip + 1, c :: rest => (read? skip rest).map (·.push (some []) (Units.ofChar c))
  | 0, c :: rest =>
    if c = backquoteChar then some ⟨some [], [], true, 1⟩
    else if c = '$' && rest.head? = some '\x7b' then some ⟨some [], [], false, 2⟩
    else if c = '\\' then
      match escape? false rest with
      | none => (read? (min 1 rest.length) rest).map (·.push none (Units.ofChar c))
      | some (units, size) => (read? size rest).map (·.push (some units) (Units.ofChar c))
    else if c = '\r' then
      let read := (read? (if rest.head? = some '\n' then 1 else 0) rest)
      read.map (·.push (some [10]) [10])
    else (read? 0 rest).map (·.push (some (Units.ofChar c)) (Units.ofChar c))

end Chunk

/-! ## Names -/

/-- A name at the front of a text: its characters, how many it takes, and whether some are
escaped. The first argument counts characters that belong to an escape already read; `start` holds
at the first character. Nothing where an escape is malformed. -/
def nameRest : (skip : Nat) → (start : Bool) → List Char → Option (List Char × Nat × Bool)
  | _, _, [] => some ([], 0, false)
  | skip + 1, _, _ :: rest => (nameRest skip false rest).map fun (cs, n, e) => (cs, n + 1, e)
  | 0, start, c :: rest =>
    let isMember := if start then Text.isIdentifierStart else Text.isIdentifierPart
    if c = '\\' then
      match rest with
      | 'u' :: more =>
        match codePoint? more with
        | none => none
        | some (digits, size) =>
          let d := Char.ofNat (valueOf 16 digits)
          if isMember d then
            (nameRest (size + 1) false rest).map fun (cs, n, _) => (d :: cs, n + 1, true)
          else none
      | _ => none
    else if isMember c then (nameRest 0 false rest).map fun (cs, n, e) => (c :: cs, n + 1, e)
    else some ([], 0, false)

/-! ## Marks -/

/-- The punctuators, longer ones before their beginnings. -/
def marks : List String :=
  [">>>=", "...", "===", "!==", "**=", "<<=", ">>=", ">>>", "=>", "==", "!=", "<=", ">=", "&&",
    "||", "??", "?.", "++", "--", "<<", ">>", "**", "+=", "-=", "*=", "/=", "%=", "&=", "|=", "^=",
    "\x7b", "\x7d", "(", ")", "[", "]", ";", ",", "<", ">", "+", "-", "*", "/", "%", "&", "|", "^",
    "!", "~", "?", ":", "=", "."]

/-- The punctuator at the front of a text. A question mark and a point before a digit are two. -/
def mark? (cs : List Char) : Option String :=
  marks.find? fun m =>
    m.toList.isPrefixOf cs
      && !(m = "?." && ((cs.drop 2).head?.map Char.isDigit).getD false)

/-- The token at the front of a text that starts with the character `c`, and its length. -/
def next (c : Char) (rest : List Char) : Token × Nat :=
  let cs := c :: rest
  if Text.isIdentifierStart c || c = '\\' then
    match nameRest 0 true cs with
    | some (letters, size, isEscaped) => (.name (String.ofList letters) isEscaped, size)
    | none => (.illegal, 1)
  else if c.isDigit || (c = '.' && (rest.head?.map Char.isDigit).getD false) then
    match number? cs with
    | some (value, size) => (.number value, size)
    | none => (.illegal, 1)
  else if c = '"' || c = '\'' then
    match stringRest c 0 rest with
    | some (units, size) => (.string units, size + 1)
    | none => (.illegal, 1)
  else if c = backquoteChar then (.backquote, 1)
  else
    match mark? cs with
    | some m => (.mark m, m.length)
    | none => (.illegal, 1)

end Token

/-- A place in a script: the token there, where it starts, and the text from it and after it. -/
structure Place where
  token : Token
  start : Nat
  /-- Whether a line break stands between it and the token before. -/
  afterBreak : Bool
  text : List Char
  rest : List Char
  /-- The offset of what follows the token. -/
  stop : Nat
  /-- The offset up to which the text is part of what was read; parentheses around an expression
  are no part of it. -/
  reached : Nat := 0
  deriving Repr, Inhabited

namespace Place

/-- The length of a block comment behind its opening, and whether a line break is in it. One that is
not closed is none. -/
def blockComment? : List Char → Option (Nat × Bool)
  | '*' :: '/' :: _ => some (2, false)
  | c :: rest => (blockComment? rest).map fun (n, broken) => (n + 1, broken || Text.isLineBreak c)
  | [] => none

/-- The length of a comment at the front of a text, if there is one, and whether a line break is
in it. -/
def comment? : List Char → Option (Nat × Bool)
  | '/' :: '/' :: rest => some (2 + Token.run (fun c => !Text.isLineBreak c) rest, false)
  | '/' :: '*' :: rest => (blockComment? rest).map fun (n, broken) => (n + 2, broken)
  | _ => none

/-- The place of the next token of a text that starts at an offset; `broken` says whether a line
break stands before it. -/
def find (offset : Nat) (broken : Bool) (text : List Char) : Place :=
  match text with
  | [] => ⟨.end, offset, broken, [], [], offset, offset⟩
  | c :: rest =>
    if Token.isGap c then find (offset + 1) (broken || Text.isLineBreak c) rest
    else
      match comment? (c :: rest) with
      | some (size, hasBreak) =>
        find (offset + size) (broken || hasBreak) (rest.drop (size - 1))
      | none =>
        let (token, size) := Token.next c rest
        ⟨token, offset, broken, c :: rest, rest.drop (size - 1), offset + size, offset⟩
termination_by text.length
decreasing_by
  all_goals simp only [List.length_cons, List.length_drop]; omega

def first (script : List Char) : Place := find 0 false script

def next (p : Place) : Place := { find p.stop false p.rest with reached := p.stop }

/-- The place of the next token after so many characters from the start of this one. -/
def skip (p : Place) (n : Nat) : Place :=
  { find (p.start + n) false (p.text.drop n) with reached := p.start + n }

/-- How a regular expression ends, with its length after the opening slash. -/
inductive RegexEnd where
  | closed (length : Nat)
  /-- The line ends inside brackets; the line end is passed with it. -/
  | cutOff (length : Nat)
  | missing
  deriving DecidableEq, Repr

def RegexEnd.after (n : Nat) : RegexEnd → RegexEnd
  | closed m => closed (m + n)
  | cutOff m => cutOff (m + n)
  | missing => missing

/-- The end of a regular expression after its opening slash; a slash inside brackets does not close
it. -/
def regexEnd : (inClass : Bool) → List Char → RegexEnd
  | inClass, [] => if inClass then .cutOff 0 else .missing
  | inClass, '\\' :: c :: rest =>
    if Text.isLineBreak c && !inClass then .missing else (regexEnd inClass rest).after 2
  | inClass, c :: rest =>
    if c = '\n' || c = '\r' then
      if inClass then .cutOff (if c = '\r' && rest.head? = some '\n' then 2 else 1) else .missing
    else if Text.isLineBreak c && !inClass then .missing
    else if c = '/' && !inClass then .closed 1
    else
      let inClass := if c = '[' then true else if c = ']' then false else inClass
      (regexEnd inClass rest).after 1

/-- The regular expression that starts with the slash at a place: its pattern, its flags and the
place after it. The flags are a name right behind it that is no keyword. One whose line ends inside
brackets has an empty pattern. -/
def regex? (keywords : List String) (p : Place) : Option (List Char × List Char × Place) :=
  let body := p.text.drop 1
  let finish (pattern : List Char) (size : Nat) : List Char × List Char × Place :=
    let after := body.drop size
    let letters := match after with
      | c :: _ => if Text.isIdentifierStart c then after.takeWhile Text.isIdentifierPart else []
      | [] => []
    let flags := if keywords.contains (String.ofList letters) then [] else letters
    (pattern, flags, p.skip (1 + size + flags.length))
  match regexEnd false body with
  | .closed size => some (finish (body.take (size - 1)) size)
  | .cutOff size => some (finish [] size)
  | .missing => none

end Place

end EggLang.Script
