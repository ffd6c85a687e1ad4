/-!
# Tokens of YAML

The tokens a document is read as, the place a reader stands at, and the texts that tokens are made
of: plain, quoted and block texts, anchors, tags and directives. Every reader gives what it read
and the place after it, or nothing where the text is malformed.
-/

namespace EggLang.Yaml

/-!
## The window on a text

A text is read block by block into a window. When fewer characters are in the window than are asked
for, those that were passed go out at its front and a further block comes in. The reader looks for
a byte order mark at the front of the window only: as long as there is one, the first character of
each line is taken for it and left out.
-/

/-- What is known about the window on a text. -/
structure Window where
  /-- Whether its first character is a byte order mark. -/
  isMarked : Bool := false
  /-- How many characters in it were not passed yet. -/
  left : Nat := 0
  /-- How many characters the further blocks have. -/
  blocks : List Nat := []
  deriving DecidableEq, Repr

namespace Window

def blockSize : Nat := 512

/-- Whether a text starts with a byte order mark. -/
def startsMarked : List Char → Bool
  | [] => false
  | c :: _ => c.toNat = 0xFEFF

/-- The number of characters in each block of a text. Of the current block, so many bytes are free
and so many characters are counted. No character is divided. -/
def blocksOf : (free count : Nat) → List Char → List Nat
  | _, count, [] => if count = 0 then [] else [count]
  | free, count, c :: rest =>
    if c.utf8Size ≤ free then blocksOf (free - c.utf8Size) (count + 1) rest
    else count :: blocksOf (blockSize - c.utf8Size) 1 rest

/-- Takes in blocks until there are so many characters. Behind the last block there is the mark of
the end, which counts as one each time it is met. -/
def load (wanted : Nat) : (left : Nat) → List Nat → Nat × List Nat
  | left, [] => (left + 1, [])
  | left, b :: rest => if wanted ≤ left + b then (left + b, rest) else load wanted (left + b) rest

/-- The window when so many characters are asked for, before the rest of a text. -/
def need (w : Window) (wanted : Nat) (rest : List Char) : Window :=
  if wanted ≤ w.left then w
  else
    let (left, blocks) := load wanted w.left w.blocks
    { isMarked := startsMarked rest, left, blocks }

/-- The window after so many characters. -/
def pass (w : Window) (n : Nat) : Window := { w with left := w.left - n }

/-- The window on a text of which so many bytes were left out at the front. -/
def ofText (omitted : Nat) (text : List Char) : Window :=
  need { blocks := blocksOf (blockSize - omitted) 0 text } 1 text

end Window

/-! ## Tokens and places -/

inductive Token where
  | streamStart
  | streamEnd
  | version (major minor : Nat)
  /-- A directive that says what the handle of a tag stands for. -/
  | tagMeaning (handle lead : List Char)
  | documentStart
  | documentEnd
  | sequenceStart
  | mappingStart
  | blockEnd
  | flowSequenceStart
  | flowSequenceEnd
  | flowMappingStart
  | flowMappingEnd
  | flowEntry
  | blockEntry
  | key
  | value
  | reference (name : List Char)
  | anchor (name : List Char)
  | tag (handle suffix : List Char)
  | scalar (isPlain : Bool) (text : List Char)
  deriving DecidableEq, Repr

/-- A place in a text: what follows, how many characters and lines come before it, its column, and
the window on the text there. -/
structure Cursor where
  rest : List Char
  index : Nat := 0
  line : Nat := 0
  column : Nat := 0
  window : Window := {}
  deriving Repr

/-! ## Characters -/

def isBlank (c : Char) : Bool := c = ' ' || c = '\t'

/-- Whether a character ends a line. A carriage return stands for itself and the line feed behind
it; other line ends are read as line feeds. -/
def isBreak (c : Char) : Bool := c = '\n' || c = '\r' || c.toNat = 0x2028 || c.toNat = 0x2029

/-- How many characters of the text a character stands for. -/
def width (c : Char) : Nat := if c = '\r' then 2 else 1

def keptBreak (c : Char) : Char := if c = '\r' then '\n' else c

/-- Whether a text is over or starts with a blank or a line end. -/
def blankNext : List Char → Bool
  | [] => true
  | c :: _ => isBlank c || isBreak c

/-- Whether a text is over or starts with a line end. -/
def breakNext : List Char → Bool
  | [] => true
  | c :: _ => isBreak c

def isNameChar (c : Char) : Bool := c.isAlphanum || c = '_' || c = '-'

def hexValue? (c : Char) : Option Nat :=
  if c.isDigit then some (c.toNat - 48)
  else if 'a' ≤ c && c ≤ 'f' then some (c.toNat - 87)
  else if 'A' ≤ c && c ≤ 'F' then some (c.toNat - 55)
  else none

def grave : Char := Char.ofNat 96

namespace Cursor

/-- The place when so many characters are asked for. -/
def need (c : Cursor) (n : Nat) : Cursor := { c with window := c.window.need n c.rest }

def next (c : Cursor) : Cursor :=
  match c.rest with
  | [] => c
  | ch :: rest =>
    let c := { c with rest, index := c.index + width ch, window := c.window.pass (width ch) }
    (if isBreak ch then { c with line := c.line + 1, column := 0 }
      else { c with column := c.column + 1 }).need 1

/-- The place after one character that is left out, whatever it is: a line end does not end the
line. -/
def leaveOut (c : Cursor) : Cursor :=
  let moved (rest : List Char) : Cursor :=
    { c with rest, index := c.index + 1, column := c.column + 1, window := c.window.pass 1 }
  match c.rest with
  | [] => c
  | ch :: rest => (moved (if ch = '\r' then '\n' :: rest else rest)).need 1

/-- The place `n` characters further. -/
def skip (c : Cursor) : Nat → Cursor
  | 0 => c
  | n + 1 => c.next.skip n

def run (cls : Char → Bool) (c : Cursor) : List Char := c.rest.takeWhile cls

/-- The place after the longest run of characters of a class. -/
def pass (cls : Char → Bool) (c : Cursor) : Cursor := c.skip (c.run cls).length

def at_ (ch : Char) (c : Cursor) : Bool := c.rest.head? = some ch

/-- Whether a blank or a line end is next, or nothing. -/
def atBlank (c : Cursor) : Bool := blankNext c.rest

/-- Whether a line end is next, or nothing. -/
def atBreak (c : Cursor) : Bool := breakNext c.rest

/-- Whether three of the given character stand here at the start of a line and alone. -/
def atMarkerOf (ch : Char) (c : Cursor) : Bool :=
  c.column = 0 && c.rest.take 3 = [ch, ch, ch] && blankNext (c.rest.drop 3)

def atMarker (c : Cursor) : Bool := c.atMarkerOf '-' || c.atMarkerOf '.'

end Cursor

/-! ## Texts over several lines -/

/-- The blanks and line ends between two words of a text. -/
structure Between where
  /-- The blanks, while no line end was passed. -/
  blanks : List Char := []
  /-- The first line end. -/
  first : Option Char := none
  /-- The line ends after the first. -/
  others : List Char := []
  /-- Whether a line end was passed. -/
  crossed : Bool := false

/-- What stands for the gap in the text: blanks as they are; one line feed is a blank and more
are one less; a line end of another kind is kept. -/
def Between.text (b : Between) : List Char :=
  if !b.crossed then b.blanks
  else
    match b.first with
    | some '\n' => if b.others.isEmpty then [' '] else b.others
    | some ch => ch :: b.others
    | none => b.others

/-- Reads the gap before the next word. In a plain text, a tab before the column `least` on a new
line is refused. -/
def between (least : Option Int) : (fuel : Nat) → Between → Cursor → Option (Between × Cursor)
  | 0, b, c => some (b, c)
  | fuel + 1, b, c =>
    match c.rest with
    | [] => some (b, c)
    | ch :: _ =>
      if isBreak ch then
        let b := if b.crossed then { b with others := b.others ++ [keptBreak ch] }
          else { b with blanks := [], first := some (keptBreak ch), crossed := true }
        between least fuel b (c.need 2).next
      else if isBlank ch then
        let tooFarLeft : Bool := match least with
          | some column => (c.column : Int) < column
          | none => false
        if b.crossed && ch = '\t' && tooFarLeft then none
        else
          between least fuel (if b.crossed then b else { b with blanks := b.blanks ++ [ch] }) c.next
      else some (b, c)

/-- The characters that end a plain text inside brackets. -/
def flowEnders : List Char := [',', '?', '[', ']', '\x7b', '\x7d']

/-- The number of characters of a plain text up to the next blank. -/
def plainRun (flow : Bool) : List Char → Nat
  | [] => 0
  | ch :: rest =>
    if isBlank ch || isBreak ch || (ch = ':' && blankNext rest) || (flow && ch ∈ flowEnders) then 0
    else plainRun flow rest + 1

/-- Reads a plain text whose further lines stand at column `least` or further in. Gives also
whether it ended after a line end. The text read so far is given with its end first. -/
def plain (flow : Bool) (least : Int) : (fuel : Nat) → (behind : List Char) → (gap : Between) →
    Cursor → Option (List Char × Bool × Cursor)
  | 0, _, _, _ => none
  | fuel + 1, behind, gap, c =>
    let c := c.need 4
    if c.atMarker || c.at_ '#' then some (behind.reverse, gap.crossed, c)
    else
      let n := plainRun flow c.rest
      let behind := if n = 0 then behind else (gap.text ++ c.rest.take n).reverse ++ behind
      let gap := if n = 0 then gap else {}
      let c := if n = 0 then c else (c.skip n).need 2
      if c.rest.isEmpty || !c.atBlank then some (behind.reverse, gap.crossed, c)
      else
        match between (some least) (c.rest.length + 1) gap c with
        | none => none
        | some (gap, c) =>
          if !flow && (c.column : Int) < least then some (behind.reverse, gap.crossed, c)
          else plain flow least fuel behind gap c

def escapes : List (Char × Nat) :=
  [('0', 0), ('a', 7), ('b', 8), ('t', 9), ('\t', 9), ('n', 10), ('v', 11), ('f', 12), ('r', 13),
    ('e', 27), (' ', 32), ('"', 34), ('\'', 39), ('\\', 92), ('N', 0x85), ('_', 0xA0),
    ('L', 0x2028), ('P', 0x2029)]

/-- The number of hexadecimal digits of the other escapes. -/
def codeEscapes : List (Char × Nat) := [('x', 2), ('u', 4), ('U', 8)]

/-- The character of an escape after its backslash, and how many characters it takes. -/
def escape? : List Char → Option (Char × Nat)
  | [] => none
  | e :: rest =>
    match escapes.lookup e with
    | some n => some (Char.ofNat n, 1)
    | none => do
      let digits ← codeEscapes.lookup e
      let ds ← (rest.take digits).mapM hexValue?
      if ds.length < digits then none
      let n := ds.foldl (fun n d => n * 16 + d) 0
      if n.isValidChar then some (Char.ofNat n, digits + 1) else none

/-- Reads a quoted text after its opening quote. The text read so far is given with its end
first. -/
def quoted (quote : Char) : (fuel : Nat) → (behind : List Char) → Cursor →
    Option (List Char × Cursor)
  | 0, _, _ => none
  | fuel + 1, behind, c =>
    match c.rest with
    | [] => none
    | ch :: rest =>
      if c.atMarker then none
      else if isBlank ch || isBreak ch then
        match between none (c.rest.length + 1) {} c with
        | none => none
        | some (gap, c) => quoted quote fuel (gap.text.reverse ++ behind) (c.need 4)
      else if ch = quote then
        if quote = '\'' && rest.head? = some '\'' then
          quoted quote fuel ('\'' :: behind) ((c.skip 2).need 2)
        else some (behind.reverse, c.next)
      else if ch = '\\' && quote = '"' then
        if !rest.isEmpty && breakNext rest then
          match between none (c.rest.length + 1) { crossed := true } ((c.need 3).skip 2) with
          | none => none
          | some (gap, c) => quoted quote fuel (gap.text.reverse ++ behind) (c.need 4)
        else
          match escape? rest with
          | none => none
          | some (e, n) => quoted quote fuel (e :: behind) ((c.skip (n + 1)).need 2)
      else quoted quote fuel (ch :: behind) (c.next.need 2)

/-! ## Block texts -/

/-- How the line ends after a block text are kept. -/
inductive Chomp where
  | clip
  | strip
  | keep
  deriving DecidableEq, Repr

/-- The sign of a header that says how the end is kept. -/
def chomp? : Char → Option Chomp
  | '+' => some .keep
  | '-' => some .strip
  | _ => none

/-- The digit of a header that gives the indentation. -/
def increment? (c : Char) : Option Nat := if c.isDigit then some (c.toNat - 48) else none

/-- Reads the header of a block text after its mark: the indentation it gives, zero for none, and
how the end is kept. The two may stand in either order; an indentation of zero is refused. -/
def blockHeader (c : Cursor) : Option (Nat × Chomp × Cursor) :=
  let first := c.rest.head?.bind chomp?
  match first with
  | some chomp =>
    let c := c.next
    match c.rest.head?.bind increment? with
    | some 0 => none
    | some n => some (n, chomp, c.next)
    | none => some (0, chomp, c)
  | none =>
    match c.rest.head?.bind increment? with
    | some 0 => none
    | some n =>
      let c := c.next
      match c.rest.head?.bind chomp? with
      | some chomp => some (n, chomp, c.next)
      | none => some (n, .clip, c)
    | none => some (0, .clip, c)

/-- Passes the blanks and the comment up to the end of the line, and the line end. -/
def endLine (c : Cursor) : Option Cursor :=
  let c := c.pass isBlank
  let c := if c.at_ '#' then c.pass (!isBreak ·) else c
  if c.atBreak then some (c.need 2).next else none

/-- Passes indentation and empty lines; gives the line ends and the greatest column reached. An
indentation of zero is not known yet. A tab in the place of indentation is refused. -/
def blockBreaks (indent : Nat) : (fuel : Nat) → (breaks : List Char) → (most : Nat) → Cursor →
    Option (List Char × Nat × Cursor)
  | 0, _, _, _ => none
  | fuel + 1, breaks, most, c =>
    let lead := c.run (· = ' ')
    let c := c.skip (if indent = 0 then lead.length else min lead.length (indent - c.column))
    let most := max most c.column
    if (indent = 0 || c.column < indent) && c.at_ '\t' then none
    else
      match c.rest with
      | ch :: _ =>
        if isBreak ch then blockBreaks indent fuel (breaks ++ [keptBreak ch]) most (c.need 2).next
        else some (breaks, most, c)
      | [] => some (breaks, most, c)

/-- Reads the lines of a block text in a column. `pending` is the end of the line before and
`breaks` the empty lines after it; `further` says whether that line started with a blank. Gives
the text and the line ends after it. -/
def blockLines (isFolded : Bool) (indent : Nat) : (fuel : Nat) → (text : List Char) →
    (pending : List Char) → (breaks : List Char) → (further : Bool) → Cursor →
    Option (List Char × List Char × List Char × Cursor)
  | 0, _, _, _, _, _ => none
  | fuel + 1, text, pending, breaks, further, c =>
    if c.column != indent || c.rest.isEmpty then some (text, pending, breaks, c)
    else
      let blank := (c.rest.head?.map isBlank).getD false
      let join :=
        if isFolded && !further && !blank && pending.head? = some '\n' then
          if breaks.isEmpty then [' '] else []
        else pending
      let line := c.run (!isBreak ·)
      let c := (c.skip line.length).need 2
      let pending := (c.rest.take 1).map keptBreak
      match blockBreaks indent (c.rest.length + 1) [] 0 c.next with
      | none => none
      | some (more, _, c) =>
        blockLines isFolded indent fuel (text ++ join ++ breaks ++ line) pending more blank c

/-- Reads a block text after its mark, inside a collection at column `around`, which is -1 outside
of all. -/
def blockText (isFolded : Bool) (around : Int) (c : Cursor) : Option (List Char × Cursor) := do
  let (increment, chomp, c) ← blockHeader c
  let c ← endLine c
  let given := if increment = 0 then 0 else increment + around.toNat
  let (breaks, most, c) ← blockBreaks given (c.rest.length + 1) [] 0 c
  let indent := if given = 0 then max most (max (around + 1).toNat 1) else given
  let (text, pending, breaks, c) ←
    blockLines isFolded indent (c.rest.length + 1) [] [] breaks false c
  let ends := match chomp with
    | .strip => []
    | .clip => pending
    | .keep => pending ++ breaks
  return (text ++ ends, c)

/-! ## Names, tags and directives -/

/-- Reads the name of an anchor or an alias after its mark. -/
def anchorName (c : Cursor) : Option (List Char × Cursor) :=
  let name := c.run isNameChar
  let c := c.skip name.length
  let ends := c.atBlank
    || ((c.rest.head?.map fun ch => ['?', ':', ',', ']', '\x7d', '%', '@', grave].contains ch).getD
      false)
  if name.isEmpty || !ends then none else some (name, c)

/-- The character of an escaped one in a tag: octets as `%` and two digits, as many as its UTF-8
form has. -/
def octets : (count : Nat) → Cursor → Option (List Nat × Cursor)
  | 0, c => some ([], c)
  | count + 1, c =>
    match c.rest with
    | '%' :: a :: b :: _ => do
      let octet := (← hexValue? a) * 16 + (← hexValue? b)
      let (more, c) ← octets count (c.skip 3)
      return (octet :: more, c)
    | _ => none

/-- The number of octets of a character by its first one. -/
def octetCount? (first : Nat) : Option Nat :=
  if first < 0x80 then some 1
  else if first &&& 0xE0 = 0xC0 then some 2
  else if first &&& 0xF0 = 0xE0 then some 3
  else if first &&& 0xF8 = 0xF0 then some 4
  else none

def uriEscape (c : Cursor) : Option (Char × Cursor) := do
  let (lead, _) ← octets 1 c
  let first := lead.headD 0
  let count ← octetCount? first
  let (all, after) ← octets count c
  if (all.drop 1).any (fun o => o &&& 0xC0 != 0x80) then none
  let bits := if count = 1 then first else first &&& (0xFF >>> (count + 1))
  return (Char.ofNat ((all.drop 1).foldl (fun n o => n * 64 + (o &&& 0x3F)) bits), after)

def isUriChar (c : Char) : Bool := isNameChar c || ";/?:@&=+$,.!~*'()[]%".toList.contains c

def uri : (fuel : Nat) → (text : List Char) → Cursor → Option (List Char × Cursor)
  | 0, _, _ => none
  | fuel + 1, text, c =>
    match c.rest with
    | '%' :: _ => do
      let (ch, c) ← uriEscape c
      uri fuel (text ++ [ch]) c
    | ch :: _ => if isUriChar ch then uri fuel (text ++ [ch]) c.next else some (text, c)
    | [] => some (text, c)

/-- Reads a tag from what follows here, after what is read of it. It must not be empty unless
`known` holds. -/
def tagUri (known : Bool) (lead : List Char) (c : Cursor) : Option (List Char × Cursor) := do
  let (text, after) ← uri (c.rest.length + 1) [] c
  if text.isEmpty && !known then none
  return (lead ++ text, after)

/-- Reads the handle of a tag: names between exclamation marks, the second of which may be
missing. -/
def tagHandle (c : Cursor) : Option (List Char × Cursor) :=
  if !c.at_ '!' then none
  else
    let name := c.next.run isNameChar
    let c := c.skip (1 + name.length)
    if c.at_ '!' then some ('!' :: name ++ ['!'], c.next) else some ('!' :: name, c)

def tag (c : Cursor) : Option (Token × Cursor) := do
  let (token, after) ←
    if c.rest.take 2 = ['!', '<'] then
      match tagUri false [] (c.skip 2) with
      | some (suffix, after) =>
        if after.at_ '>' then some (Token.tag [] suffix, after.next) else none
      | none => none
    else
      match tagHandle c with
      | none => none
      | some (handle, after) =>
        if 1 < handle.length && handle.getLast? = some '!' then
          (tagUri false [] after).map fun (suffix, c) => (Token.tag handle suffix, c)
        else
          (tagUri true (handle.drop 1) after).map fun (suffix, c) =>
            (if suffix.isEmpty then Token.tag [] ['!'] else Token.tag ['!'] suffix, c)
  if after.atBlank then some (token, after) else none

/-- Reads a number of a version: at most nine digits. -/
def versionNumber (c : Cursor) : Option (Nat × Cursor) :=
  let digits := c.run Char.isDigit
  if digits.isEmpty || 9 < digits.length then none
  else some (digits.foldl (fun n d => n * 10 + (d.toNat - 48)) 0, c.skip digits.length)

def versionValue (c : Cursor) : Option (Token × Cursor) := do
  let (major, c) ← versionNumber (c.pass isBlank)
  if !c.at_ '.' then none
  let (minor, c) ← versionNumber c.next
  return (.version major minor, c)

/-- Reads what a directive says about the handle of a tag. -/
def tagMeaningValue (c : Cursor) : Option (Token × Cursor) := do
  let (handle, c) ← tagHandle (c.pass isBlank)
  if handle != ['!'] && handle.getLast? != some '!' then none
  if !((c.rest.head?.map isBlank).getD false) then none
  let (lead, c) ← tagUri false [] (c.pass isBlank)
  if c.atBlank then some (.tagMeaning handle lead, c) else none

/-- Reads a directive after its mark, with its line. -/
def directive (c : Cursor) : Option (Token × Cursor) := do
  let name := c.run isNameChar
  let c := c.skip name.length
  if name.isEmpty || !c.atBlank then none
  let (token, c) ←
    if name = "YAML".toList then versionValue c
    else if name = "TAG".toList then tagMeaningValue c
    else none
  let c ← endLine c
  return (token, c)

end EggLang.Yaml
