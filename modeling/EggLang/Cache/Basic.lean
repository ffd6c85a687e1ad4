import EggLang.Cache.Digest

/-!
# The cache of compiled programs

A cache maps keys to the outcome of a compilation: the code and the names it registered. A key is
the digest of all that the outcome depends on. Names are stored as one text with commas between
them. A closed cache answers nothing but keeps its rows for the next opening.
-/

namespace EggLang

/-- What a compilation gave: its code and the names it registered. -/
structure CacheEntry where
  output : Bytes
  functions : List Bytes
  deriving DecidableEq, Repr

structure CacheRow where
  output : Bytes
  /-- The registered names with commas between them. -/
  functions : Bytes
  deriving DecidableEq, Repr

structure Cache where
  path : Bytes
  rows : List (Bytes × CacheRow) := []
  isOpen : Bool := true
  /-- Whether the rows go back into the file. -/
  isKept : Bool := true
  deriving DecidableEq, Repr

/-- The operations that a closed cache refuses. -/
inductive CacheRefusal where
  | reading
  | writing
  | counting
  deriving DecidableEq, Repr

namespace CacheRefusal

def message (r : CacheRefusal) : Bytes :=
  let act := match r with
    | reading => "reading cache"
    | writing => "writing cache"
    | counting => "counting cache entries"
  utf8 act ++ utf8 ": sql: database is closed"

end CacheRefusal

namespace CacheEntry

def joinNames (names : List Bytes) : Bytes := Bytes.join (utf8 ",") names

/-- The names of a text; no text is no name. -/
def splitNames (text : Bytes) : List Bytes := if text.isEmpty then [] else Bytes.splitOn 44 text

def toRow (e : CacheEntry) : CacheRow := ⟨e.output, joinNames e.functions⟩

def ofRow (r : CacheRow) : CacheEntry := ⟨r.output, splitNames r.functions⟩

end CacheEntry

namespace Cache

/-- One part of a key's text: its length before it makes the parts come apart. -/
def keyPart (part : Bytes) : Bytes := Bytes.ofNat part.length ++ utf8 ":" ++ part ++ utf8 ";"

def keyText (indent : Bytes) (functions : List Bytes) (source : Bytes) : Bytes :=
  keyPart indent ++ keyPart (CacheEntry.joinNames functions) ++ keyPart source

def key (indent : Bytes) (functions : List Bytes) (source : Bytes) : Bytes :=
  Digest.hex (keyText indent functions source)

def setRow (key : Bytes) (row : CacheRow) : List (Bytes × CacheRow) → List (Bytes × CacheRow)
  | [] => [(key, row)]
  | (k, r) :: rest => if k = key then (key, row) :: rest else (k, r) :: setRow key row rest

/-- The entry under a key, if there is one. -/
def get (c : Cache) (key : Bytes) : Except CacheRefusal (Option CacheEntry) :=
  if c.isOpen then .ok ((c.rows.lookup key).map .ofRow) else .error .reading

/-- The cache with an entry under a key, in place of the one before. -/
def put (c : Cache) (key : Bytes) (e : CacheEntry) : Except CacheRefusal Cache :=
  if c.isOpen then .ok { c with rows := setRow key e.toRow c.rows } else .error .writing

def size (c : Cache) : Except CacheRefusal Nat :=
  if c.isOpen then .ok c.rows.length else .error .counting

def close (c : Cache) : Cache := { c with isOpen := false }

def reopen (c : Cache) : Cache := { c with isOpen := true }

end Cache

end EggLang

/-!
## Cache files

The rows of a cache as the text of a file: a first line that says what the file is, then the
parts of each row with their lengths before them.
-/

namespace EggLang.Cache

def fileHeader : Bytes := utf8 "egg cache\n"

def encodeRow (row : Bytes × CacheRow) : Bytes :=
  keyPart row.1 ++ keyPart row.2.output ++ keyPart row.2.functions

def encodeRows (rows : List (Bytes × CacheRow)) : Bytes := fileHeader ++ rows.flatMap encodeRow

def decodePart? (text : Bytes) : Option (Bytes × Bytes) :=
  let digits := text.takeWhile Bytes.isDigit
  match text.drop digits.length with
  | 58 :: rest =>
    let n := Bytes.digitsValue digits
    match rest.drop n with
    | 59 :: after => if n ≤ rest.length then some (rest.take n, after) else none
    | _ => none
  | _ => none

def decodeRows? : (fuel : Nat) → Bytes → Option (List (Bytes × CacheRow))
  | 0, text => if text.isEmpty then some [] else none
  | fuel + 1, text =>
    if text.isEmpty then some []
    else do
      let (key, text) ← decodePart? text
      let (output, text) ← decodePart? text
      let (functions, text) ← decodePart? text
      let rows ← decodeRows? fuel text
      return (key, ⟨output, functions⟩) :: rows

/-- The rows of a file, or nothing if it is no cache file. -/
def decodeFile? (content : Bytes) : Option (List (Bytes × CacheRow)) :=
  (Bytes.dropLead? fileHeader content).bind fun text => decodeRows? text.length text

end EggLang.Cache
