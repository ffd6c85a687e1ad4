import EggLang.Yaml.Token

/-!
# Reading tokens

The scanner turns a text into tokens. A key is known as one only when its colon is met, so tokens
wait in a queue, into which the mark of the key and the start of its mapping are then put. The
queue is kept three tokens long: what stands further on is not looked at.
-/

namespace EggLang.Yaml

/-- A place where a key on one line may have started. -/
structure KeyPlace where
  /-- The number of the token it starts with. -/
  token : Nat
  /-- Whether only a key can stand there. -/
  required : Bool
  index : Nat
  line : Nat
  column : Nat
  deriving Repr

structure Scanner where
  cursor : Cursor
  /-- The tokens that wait. -/
  queue : List Token := []
  /-- How many tokens have been taken. -/
  taken : Nat := 0
  /-- How many brackets are open. -/
  depth : Nat := 0
  /-- The column of the innermost block collection, -1 outside of all. -/
  indent : Int := -1
  /-- The columns of the block collections around it. -/
  outer : List Int := []
  keyAllowed : Bool := true
  /-- The possible key of each bracket level, the innermost one first. -/
  keys : List (Option KeyPlace) := [none]
  /-- Whether the queue holds what is needed for the next token. -/
  ready : Bool := false
  deriving Repr

namespace Scanner

/-- The number of characters within which the colon of a key has to follow. -/
def maxKeyLength : Nat := 1024

/-- The most levels of nesting. -/
def maxNesting : Nat := 10000

def emit (s : Scanner) (t : Token) : Scanner := { s with queue := s.queue ++ [t] }

def emitAt (s : Scanner) (number : Nat) (t : Token) : Scanner :=
  let n := number - s.taken
  { s with queue := s.queue.take n ++ t :: s.queue.drop n }

def nextNumber (s : Scanner) : Nat := s.taken + s.queue.length

def possibleKey (s : Scanner) : Option KeyPlace := s.keys.head?.join

/-- Sets the possible key of the current bracket level. -/
def setKey (s : Scanner) (k : Option KeyPlace) : Scanner := { s with keys := k :: s.keys.drop 1 }

/-- Gives up the possible key; one that is required has to be found. -/
def dropKey (s : Scanner) : Option Scanner :=
  match s.possibleKey with
  | some k => if k.required then none else some (s.setKey none)
  | none => some s

def noteKey (s : Scanner) : Option Scanner :=
  if s.keyAllowed then
    (s.dropKey).map fun t => t.setKey (some {
      token := s.nextNumber
      required := s.depth = 0 && s.indent = s.cursor.column
      index := s.cursor.index, line := s.cursor.line, column := s.cursor.column })
  else some s

/-- Whether a possible key is still one: its colon has to follow on the same line and not too far.
A required one that is no longer possible is an error. -/
def isFresh (s : Scanner) (k : KeyPlace) : Option Bool :=
  if k.line < s.cursor.line || k.index + maxKeyLength < s.cursor.index then
    if k.required then none else some false
  else some true

/-- Closes the block collections further in than a column. -/
def closeBlocks (s : Scanner) (column : Int) : Scanner :=
  if s.depth = 0 then go s.outer s else s
where
  /-- Closes collections as long as there are any. -/
  go : List Int → Scanner → Scanner
    | [], s => s
    | indent :: outer, s =>
      if column < s.indent then go outer { s.emit .blockEnd with indent, outer } else s

/-- Opens a block collection in a column that is further in than the current one. Its token gets
the given number, or comes last. -/
def openBlock (s : Scanner) (column : Nat) (number : Option Nat) (t : Token) : Option Scanner :=
  if s.depth = 0 && s.indent < column then
    if maxNesting ≤ s.outer.length then none
    else
      let s := { s with indent := column, outer := s.indent :: s.outer }
      some (match number with
        | some n => s.emitAt n t
        | none => s.emit t)
  else some s

/-- Passes comment lines from a comment mark on; the blanks and empty lines between two of them
belong to them. -/
def passComments : (fuel : Nat) → Cursor → Cursor
  | 0, c => c
  | fuel + 1, c =>
    let c := c.pass (!isBreak ·)
    let gap := c.run fun ch => isBlank ch || isBreak ch
    let c := c.need ((gap.map width).sum + 1)
    let after := c.skip gap.length
    if after.at_ '#' then passComments fuel after else c

/-- Passes blanks, comments and line ends up to the next token, and what is taken for a byte order
mark at the start of a line. In block context a tab is no blank where a key may start, and a line
end makes a key possible. -/
def passGap : (fuel : Nat) → Scanner → Scanner
  | 0, s => s
  | fuel + 1, s =>
    let c := s.cursor
    let c := if c.column = 0 && c.window.isMarked then c.leaveOut else c
    let tabs := 0 < s.depth || !s.keyAllowed
    let c := c.pass fun ch => ch = ' ' || (tabs && ch = '\t')
    let c := if c.at_ '#' then passComments (c.rest.length + 1) c else c
    if !c.rest.isEmpty && c.atBreak then
      passGap fuel { s with cursor := (c.need 2).next, keyAllowed := s.keyAllowed || s.depth = 0 }
    else { s with cursor := c }

/-- Passes a comment on the line of a token that was just read. -/
def passLineComment (s : Scanner) : Scanner :=
  if s.cursor.column = 0 then s
  else
    let blanks := s.cursor.run isBlank
    let c := s.cursor.need (blanks.length + 1)
    let after := c.skip blanks.length
    { s with cursor := if after.at_ '#' then after.pass (!isBreak ·) else c }

/-- Emits a token of so many characters. -/
def mark (s : Scanner) (n : Nat) (t : Token) : Scanner :=
  { s with cursor := s.cursor.skip n }.emit t

def atEnd (s : Scanner) : Option Scanner := do
  let c := s.cursor
  let c := if c.column = 0 then c else { c with column := 0, line := c.line + 1 }
  let s ← ({ s with cursor := c }.closeBlocks (-1)).dropKey
  return { s with keyAllowed := false }.emit .streamEnd

/-- A directive or a document marker: all block collections end before it. -/
def between_ (s : Scanner) : Option Scanner := do
  let s ← (s.closeBlocks (-1)).dropKey
  return { s with keyAllowed := false }

def openBracket (s : Scanner) (t : Token) : Option Scanner := do
  let s ← s.noteKey
  if maxNesting ≤ s.depth then none
  return { s with depth := s.depth + 1, keys := none :: s.keys, keyAllowed := true }.mark 1 t

def closeBracket (s : Scanner) (t : Token) : Option Scanner := do
  let s ← s.dropKey
  let s := if s.depth = 0 then s else { s with depth := s.depth - 1, keys := s.keys.drop 1 }
  return { s with keyAllowed := false }.mark 1 t

def comma (s : Scanner) : Option Scanner := do
  let s ← s.dropKey
  return { s with keyAllowed := true }.mark 1 .flowEntry

def dash (s : Scanner) : Option Scanner := do
  if s.depth = 0 && !s.keyAllowed then none
  let s ← s.openBlock s.cursor.column none .sequenceStart
  let s ← s.dropKey
  return { s with keyAllowed := true }.mark 1 .blockEntry

def question (s : Scanner) : Option Scanner := do
  if s.depth = 0 && !s.keyAllowed then none
  let s ← s.openBlock s.cursor.column none .mappingStart
  let s ← s.dropKey
  return { s with keyAllowed := s.depth = 0 }.mark 1 .key

/-- The colon of a value. If a key may have started on this line, it did. -/
def colon (s : Scanner) : Option Scanner := do
  let found ← match s.possibleKey with
    | some k => (s.isFresh k).map fun fresh => if fresh then some k else none
    | none => some none
  match found with
  | some k =>
    let s := s.emitAt k.token .key
    let s ← s.openBlock k.column (some k.token) .mappingStart
    return { s.setKey none with keyAllowed := false }.mark 1 .value
  | none =>
    if s.depth = 0 && !s.keyAllowed then none
    let s ← (s.setKey none).openBlock s.cursor.column none .mappingStart
    return { s with keyAllowed := s.depth = 0 }.mark 1 .value

/-- A token that may start a key but after which none can. -/
def word (s : Scanner) (read : Cursor → Option (Token × Cursor)) : Option Scanner := do
  let s ← s.noteKey
  let (t, cursor) ← read s.cursor
  return { s with cursor, keyAllowed := false }.emit t

/-- A plain text. After one that ended with its line a key may start. -/
def plainWord (s : Scanner) : Option Scanner := do
  let s ← s.noteKey
  let (text, crossed, cursor) ←
    plain (0 < s.depth) (s.indent + 1) (s.cursor.rest.length + 1) [] {} s.cursor
  return { s with cursor, keyAllowed := crossed }.emit (.scalar true text)

def block (s : Scanner) (isFolded : Bool) : Option Scanner := do
  let s ← s.dropKey
  let (text, cursor) ← blockText isFolded s.indent s.cursor.next
  return { s with cursor, keyAllowed := true }.emit (.scalar false text)

/-- The marks that cannot start a plain text, or only before something that is no blank. -/
def marks : List Char :=
  ['-', '?', ':', ',', '[', ']', '\x7b', '\x7d', '#', '&', '*', '!', '|', '>', '\'', '"', '%', '@',
    grave]

def startsPlain (s : Scanner) : Bool :=
  match s.cursor.rest with
  | [] => false
  | ch :: rest =>
    let nextBlank := (rest.head?.map isBlank).getD false
    !(isBlank ch || isBreak ch || ch ∈ marks) || (ch = '-' && !nextBlank)
      || (s.depth = 0 && (ch = '?' || ch = ':') && !blankNext rest)

/-- Reads the token that starts with the given character, before what follows it. -/
def token (s : Scanner) (ch : Char) (rest : List Char) : Option Scanner :=
  let named (make : List Char → Token) (c : Cursor) : Option (Token × Cursor) :=
    (anchorName c.next).map fun (name, c) => (make name, c)
  let quotedBy (c : Cursor) : Option (Token × Cursor) :=
    (quoted ch (c.rest.length + 1) [] (c.next.need 4)).map fun (text, c) => (.scalar false text, c)
  let flow := 0 < s.depth
  if ch = '[' then s.openBracket .flowSequenceStart
  else if ch = '\x7b' then s.openBracket .flowMappingStart
  else if ch = ']' then s.closeBracket .flowSequenceEnd
  else if ch = '\x7d' then s.closeBracket .flowMappingEnd
  else if ch = ',' then s.comma
  else if ch = '-' && blankNext rest then s.dash
  else if ch = '?' && (flow || blankNext rest) then s.question
  else if ch = ':' && (flow || blankNext rest) then s.colon
  else if ch = '*' then s.word (named .reference)
  else if ch = '&' then s.word (named .anchor)
  else if ch = '!' then s.word tag
  else if ch = '|' && !flow then s.block false
  else if ch = '>' && !flow then s.block true
  else if ch = '\'' || ch = '"' then s.word quotedBy
  else if s.startsPlain then s.plainWord
  else none

def fetch (s : Scanner) : Option Scanner :=
  let s := passGap (s.cursor.rest.length + 1) s
  let s := s.closeBlocks s.cursor.column
  let s := { s with cursor := s.cursor.need 4 }
  match s.cursor.rest with
  | [] => s.atEnd
  | ch :: rest =>
    if s.cursor.column = 0 && ch = '%' then do
      let s ← s.between_
      let (t, cursor) ← directive s.cursor.next
      return { s with cursor }.emit t
    else if s.cursor.atMarkerOf '-' then (s.between_).map fun s => s.mark 3 .documentStart
    else if s.cursor.atMarkerOf '.' then (s.between_).map fun s => s.mark 3 .documentEnd
    else do
      let s ← s.token ch rest
      return if s.queue.getLast? = some .blockEntry then s else s.passLineComment

/-- The number of tokens that wait before the next one is looked at. -/
def lookahead : Nat := 3

/-- Fills the queue: as far as it is kept, and until its first token is known to start no key. -/
def fill : (fuel : Nat) → Scanner → Option Scanner
  | 0, _ => none
  | fuel + 1, s => do
    let startsKey ←
      if s.queue.length < lookahead then some true
      else
        match s.keys.findSome? fun k => k.filter (·.token = s.taken) with
        | some k => s.isFresh k
        | none => some false
    if startsKey then fill fuel (← s.fetch) else return { s with ready := true }

def peek (s : Scanner) : Option (Token × Scanner) := do
  let s ← if s.ready then some s else s.fill (2 * s.cursor.rest.length + 16)
  let t ← s.queue.head?
  return (t, s)

def take (s : Scanner) : Scanner :=
  { s with queue := s.queue.drop 1, taken := s.taken + 1, ready := false }

/-- The scanner of a text that is looked at through a window. -/
def ofText (text : List Char) (window : Window) : Scanner :=
  { cursor := { rest := text, window }, queue := [.streamStart] }

end Scanner

end EggLang.Yaml
