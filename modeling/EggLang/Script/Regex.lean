import EggLang.Text.Blank
import EggLang.Text.Units

/-!
# Regular expressions

Patterns as trees, the reader of their text, and a matcher that backtracks: it takes the first
match in the order of the alternatives, and of repetitions the longest first unless they are lazy.
Patterns and texts are taken in sixteen-bit units.
-/

namespace EggLang.Script.Regex

inductive ClassItem where
  | range (least most : Nat)
  | digit (negated : Bool)
  | word (negated : Bool)
  | space (negated : Bool)
  deriving DecidableEq, Repr

inductive Node where
  | empty
  | unit (u : UInt16)
  /-- Any unit but a line end. -/
  | any
  | set (negated : Bool) (items : List ClassItem)
  | sequence (first second : Node)
  | choice (first second : Node)
  /-- What a group matches is kept under its number. -/
  | group (number : Nat) (inner : Node)
  | repeat (least : Nat) (most : Option Nat) (isLazy : Bool) (inner : Node)
  | start
  | stop
  | boundary (negated : Bool)
  | reference (number : Nat)
  /-- Looks ahead or behind without taking anything. -/
  | look (behind negated : Bool) (inner : Node)
  deriving DecidableEq, Repr, Inhabited

structure Flags where
  isGlobal : Bool := false
  ignoresCase : Bool := false
  isMultiline : Bool := false
  dotAll : Bool := false
  isUnicode : Bool := false
  isSticky : Bool := false
  deriving DecidableEq, Repr, Inhabited

/-- Takes one more flag; no flag may come twice. -/
def Flags.add? (f : Flags) (c : Char) : Option Flags :=
  match c with
  | 'g' => if f.isGlobal then none else some { f with isGlobal := true }
  | 'i' => if f.ignoresCase then none else some { f with ignoresCase := true }
  | 'm' => if f.isMultiline then none else some { f with isMultiline := true }
  | 's' => if f.dotAll then none else some { f with dotAll := true }
  | 'u' => if f.isUnicode then none else some { f with isUnicode := true }
  | 'y' => if f.isSticky then none else some { f with isSticky := true }
  | _ => none

def Flags.ofChars? (cs : List Char) : Option Flags := cs.foldlM Flags.add? {}

structure Pattern where
  root : Node
  flags : Flags
  /-- The number of its groups. -/
  groups : Nat
  /-- The names of groups. -/
  names : List (Units × Nat) := []
  deriving DecidableEq, Repr, Inhabited

/-! ## Reading -/

/-- A unit as a character, for comparison with ASCII characters. -/
def charOf (u : UInt16) : Char := if u < 128 then Char.ofNat u.toNat else Char.ofNat 0xFFFD

structure Reader where
  rest : Units
  /-- The number of groups opened. -/
  groups : Nat := 0
  names : List (Units × Nat) := []

/-- A reading step: it may find the pattern malformed. -/
abbrev Reading := StateT Reader Option

def malformed {α : Type} : Reading α := fun _ => none

def peek : Reading (Option Char) := return ((← get).rest.head?).map charOf

def skip (n : Nat) : Reading Unit := modify fun r => { r with rest := r.rest.drop n }

/-- Whether the pattern goes on with an ASCII text. -/
def atText (text : String) : Reading Bool :=
  return (Units.ofString text).isPrefixOf (← get).rest

def digitOf? (base : Nat) (u : UInt16) : Option Nat :=
  let c := charOf u
  let v := if c.isDigit then c.toNat - 48
    else if c.isLower then c.toNat - 87
    else if c.isUpper then c.toNat - 55
    else 36
  if v < base then some v else none

/-- The value of a fixed number of hexadecimal digits at the front of a text. -/
def hex? (count : Nat) (u : Units) : Option Nat := do
  let ds ← (u.take count).mapM (digitOf? 16)
  if ds.length < count then none else some (ds.foldl (fun n d => n * 16 + d) 0)

/-- The numbers at the front of a text, with their length. -/
def decimal (u : Units) : Option (Nat × Nat) :=
  let ds := u.takeWhile fun x => (digitOf? 10 x).isSome
  if ds.isEmpty then none
  else some (ds.foldl (fun n d => n * 10 + (d.toNat - 48)) 0, ds.length)

/-- The most repetitions that a pattern may ask for. -/
def maxCount : Nat := 1000

/-- A counted repetition such as `\x7b2,3\x7d` at the front of a text: the counts and its
length. -/
def counts? (u : Units) : Option (Nat × Option Nat × Nat) := do
  if u.head? != some 123 then none
  let (least, n) ← decimal (u.drop 1)
  match u.drop (1 + n) with
  | 125 :: _ => return (least, some least, n + 2)
  | 44 :: 125 :: _ => return (least, none, n + 3)
  | 44 :: rest =>
    let (most, m) ← decimal rest
    if (rest.drop m).head? = some 125 then return (least, some most, n + m + 3) else none
  | _ => none

def quantifier? (u : Units) : Option (Nat × Option Nat × Nat) :=
  match u.head?.map charOf with
  | some '*' => some (0, none, 1)
  | some '+' => some (1, none, 1)
  | some '?' => some (0, some 1, 1)
  | some '\x7b' => counts? u
  | _ => none

def letterEscapes : List (Char × UInt16) :=
  [('f', 12), ('n', 10), ('r', 13), ('t', 9), ('v', 11)]

/-- What an escape stands for: a class, or one unit. Reads behind the backslash. -/
def classEscape : Reading ClassItem := do
  let r ← get
  match r.rest with
  | [] => malformed
  | u :: rest =>
    skip 1
    let single (n : Nat) : ClassItem := .range n n
    match charOf u with
    | 'd' => return .digit false
    | 'D' => return .digit true
    | 'w' => return .word false
    | 'W' => return .word true
    | 's' => return .space false
    | 'S' => return .space true
    | 'x' =>
      match hex? 2 rest with
      | some n =>
        skip 2
        return single n
      | none => return single u.toNat
    | 'u' =>
      match hex? 4 rest with
      | some n =>
        skip 4
        return single n
      | none => return single u.toNat
    | 'c' =>
      match rest.head?.map charOf with
      | some l =>
        if l.isAlpha then do
          skip 1
          return single (l.toNat % 32)
        else return single u.toNat
      | none => return single u.toNat
    | c =>
      match letterEscapes.lookup c with
      | some v => return single v.toNat
      | none =>
        if c.isDigit && c < '8' then
          let digits := (u :: rest).takeWhile fun x => (digitOf? 8 x).isSome
          skip (digits.length - 1)
          return single (digits.foldl (fun n d => n * 8 + (d.toNat - 48)) 0)
        else return single u.toNat

/-- Reads one part of a class in brackets: an escape or a unit. -/
def classAtom : Reading ClassItem := do
  let r ← get
  match r.rest with
  | [] => malformed
  | 92 :: 98 :: _ =>
    skip 2
    return .range 8 8
  | 92 :: _ =>
    skip 1
    classEscape
  | u :: _ =>
    skip 1
    return .range u.toNat u.toNat

/-- Reads a class up to its closing bracket. -/
def classItems : (fuel : Nat) → List ClassItem → Reading (List ClassItem)
  | 0, _ => malformed
  | fuel + 1, items => do
    let r ← get
    match r.rest with
    | [] => malformed
    | 93 :: _ =>
      skip 1
      return items.reverse
    | _ =>
      let low ← classAtom
      match (← get).rest with
      | 45 :: next :: _ =>
        match low with
        | .range a _ =>
          if next = 93 then classItems fuel (low :: items)
          else
            skip 1
            match ← classAtom with
            | .range b _ => if a ≤ b then classItems fuel (.range a b :: items) else malformed
            | _ => malformed
        | _ => classItems fuel (low :: items)
      | _ => classItems fuel (low :: items)

/-- Reads a class in brackets. Empty brackets match nothing, and negated ones anything. -/
def classNode (fuel : Nat) : Reading Node := do
  skip 1
  if ← atText "^]" then
    skip 2
    return .set true []
  if ← atText "]" then
    skip 1
    return .set false []
  let negated ← atText "^"
  if negated then skip 1
  return .set negated (← classItems fuel [])

/-- Reads an escape outside of brackets, behind its backslash. -/
def escapeNode : Reading Node := do
  let r ← get
  match r.rest.head?.map charOf with
  | none => malformed
  | some 'b' =>
    skip 1
    return .boundary false
  | some 'B' =>
    skip 1
    return .boundary true
  | some c =>
    match decimal r.rest with
    | some (n, size) =>
      if c != '0' && (size = 1 || !(r.rest.take size).all fun u => u < 56) then
        skip size
        return .reference n
      else return asNode (← classEscape)
    | none => return asNode (← classEscape)
where
  /-- A part of a class alone. -/
  asNode : ClassItem → Node
    | .range a b => if a = b then .unit a.toUInt16 else .set false [.range a b]
    | item => .set false [item]

mutual

def choices : (fuel : Nat) → Reading Node
  | 0 => malformed
  | fuel + 1 => do
    let first ← terms fuel
    if (← peek) = some '|' then
      skip 1
      return .choice first (← choices fuel)
    else return first

def terms : (fuel : Nat) → Reading Node
  | 0 => malformed
  | fuel + 1 => do
    match ← peek with
    | none | some '|' | some ')' => return .empty
    | some _ =>
      let first ← term fuel
      return .sequence first (← terms fuel)

/-- Reads a term with its quantifier, of which there is one at most. -/
def term : (fuel : Nat) → Reading Node
  | 0 => malformed
  | fuel + 1 => do
    if (quantifier? (← get).rest).isSome then malformed
    let inner ← atom fuel
    match quantifier? (← get).rest with
    | none => return inner
    | some (least, most, size) =>
      if maxCount < least || (most.any fun m => maxCount < m || m < least) then malformed
      skip size
      let isLazy := (← peek) = some '?'
      if isLazy then skip 1
      if (quantifier? (← get).rest).isSome then malformed
      return .repeat least most isLazy inner

/-- Reads a term without its quantifier. -/
def atom : (fuel : Nat) → Reading Node
  | 0 => malformed
  | fuel + 1 => do
    let r ← get
    match r.rest with
    | [] => malformed
    | u :: _ =>
      match charOf u with
      | '^' =>
        skip 1
        return .start
      | '$' =>
        skip 1
        return .stop
      | '.' =>
        skip 1
        return .any
      | '[' => classNode fuel
      | '\\' =>
        skip 1
        escapeNode
      | '(' => do
        skip 1
        groupNode fuel
      | _ =>
        skip 1
        return .unit u

def groupNode : (fuel : Nat) → Reading Node
  | 0 => malformed
  | fuel + 1 => do
    let close (n : Node) : Reading Node := do
      if (← peek) = some ')' then do
        skip 1
        return n
      else malformed
    if ← atText "?:" then
      skip 2
      close (← choices fuel)
    else if ← atText "?=" then
      skip 2
      close (.look false false (← choices fuel))
    else if ← atText "?!" then
      skip 2
      close (.look false true (← choices fuel))
    else if ← atText "?<=" then
      skip 3
      close (.look true false (← choices fuel))
    else if ← atText "?<!" then
      skip 3
      close (.look true true (← choices fuel))
    else if ← atText "?<" then
      skip 2
      let name := (← get).rest.takeWhile (· != 62)
      skip (name.length + 1)
      if name.isEmpty then malformed
      let number := (← get).groups + 1
      modify fun r => { r with groups := number, names := r.names ++ [(name, number)] }
      close (.group number (← choices fuel))
    else if ← atText "?" then malformed
    else
      let number := (← get).groups + 1
      modify fun r => { r with groups := number }
      close (.group number (← choices fuel))

end

/-- The pattern of a text and flags, if they are well formed. -/
def parse? (text : Units) (flags : List Char) : Option Pattern := do
  let flags ← Flags.ofChars? flags
  let (root, r) ← (choices (4 * text.length + 8)).run { rest := text }
  if r.rest.isEmpty then return { root, flags, groups := r.groups, names := r.names } else none

/-! ## Matching -/

/-- What the groups matched, by their numbers: start and end. -/
abbrev Captures := List (Nat × Nat × Nat)

/-- A match so far: the place reached and what the groups matched. -/
abbrev Reached := Nat × Captures

/-- A unit without its case. -/
def folded (u : UInt16) : UInt16 :=
  if 97 ≤ u && u ≤ 122 then u - 32
  else if 0xE0 ≤ u && u ≤ 0xFE && u != 0xF7 then u - 32
  else if 0x3B1 ≤ u && u ≤ 0x3C9 && u != 0x3C2 then u - 32
  else if 0x430 ≤ u && u ≤ 0x44F then u - 32
  else u

/-- Whether a unit is a letter, a digit or an underscore. -/
def isWord (u : UInt16) : Bool := (charOf u).isAlphanum || u = 95

def isSpace (u : UInt16) : Bool :=
  let c := Units.single u
  Text.isWhite c && c.toNat != 0x85 || c.toNat = 0xFEFF

def isLineEnd (u : UInt16) : Bool := Text.isLineBreak (Units.single u)

def ClassItem.has (u : UInt16) : ClassItem → Bool
  | range least most => least ≤ u.toNat && u.toNat ≤ most
  | digit negated => (charOf u).isDigit != negated
  | word negated => isWord u != negated
  | space negated => isSpace u != negated

def inClass (f : Flags) (items : List ClassItem) (u : UInt16) : Bool :=
  items.any (·.has u)
    || (f.ignoresCase && (items.any (·.has (folded u)) || items.any fun i => i.has (lowered u)))
where
  /-- The other case of an ASCII letter. -/
  lowered (u : UInt16) : UInt16 := if 65 ≤ u && u ≤ 90 then u + 32 else u

/-- Repeats a matcher. What is repeated beyond the least count has to take something. -/
def repeated (body : (Reached → Option Reached) → Reached → Option Reached) (most : Option Nat)
    (isLazy : Bool) : (fuel least done : Nat) → (Reached → Option Reached) → Reached →
    Option Reached
  | 0, _, _, k, at_ => k at_
  | fuel + 1, least, done, k, at_ =>
    if done < least then body (repeated body most isLazy fuel least (done + 1) k) at_
    else
      let more (_ : Unit) : Option Reached :=
        if most.all (done < ·) then
          body (fun next =>
            if next.1 = at_.1 then none else repeated body most isLazy fuel least (done + 1) k next)
            at_
        else none
      if isLazy then (k at_).orElse more else (more ()).orElse fun _ => k at_

/-- Matches a pattern at a place of a text, and goes on with what follows. -/
def run (text : Array UInt16) (f : Flags) : Node → (Reached → Option Reached) → Reached →
    Option Reached
  | .empty, k, at_ => k at_
  | .unit u, k, (i, c) =>
    match text[i]? with
    | some v => if u = v || (f.ignoresCase && folded u = folded v) then k (i + 1, c) else none
    | none => none
  | .any, k, (i, c) =>
    match text[i]? with
    | some v => if f.dotAll || !isLineEnd v then k (i + 1, c) else none
    | none => none
  | .set negated items, k, (i, c) =>
    match text[i]? with
    | some v => if inClass f items v != negated then k (i + 1, c) else none
    | none => none
  | .sequence a b, k, at_ => run text f a (run text f b k) at_
  | .choice a b, k, at_ => (run text f a k at_).orElse fun _ => run text f b k at_
  | .group n inner, k, (i, c) =>
    run text f inner (fun (j, c) => k (j, (n, i, j) :: c.filter (·.1 != n))) (i, c)
  | .repeat least most isLazy inner, k, at_ =>
    repeated (run text f inner) most isLazy (least + text.size + 2) least 0 k at_
  | .start, k, (i, c) =>
    if i = 0 || (f.isMultiline && (text[i - 1]?.map isLineEnd).getD false) then k (i, c) else none
  | .stop, k, (i, c) =>
    if i = text.size || (f.isMultiline && (text[i]?.map isLineEnd).getD false) then k (i, c)
    else none
  | .boundary negated, k, (i, c) =>
    let before := i != 0 && (text[i - 1]?.map isWord).getD false
    let after := (text[i]?.map isWord).getD false
    if (before != after) != negated then k (i, c) else none
  | .reference n, k, (i, c) =>
    match c.lookup n with
    | none => k (i, c)
    | some (a, b) =>
      let size := b - a
      let same := (List.range size).all fun d =>
        match text[a + d]?, text[i + d]? with
        | some u, some v => u = v || (f.ignoresCase && folded u = folded v)
        | _, _ => false
      if same then k (i + size, c) else none
  | .look false negated inner, k, (i, c) =>
    match run text f inner some (i, c) with
    | some (_, c') => if negated then none else k (i, c')
    | none => if negated then k (i, c) else none
  | .look true negated inner, k, (i, c) =>
    let found := (List.range (i + 1)).findSome? fun d =>
      run text f inner (fun (j, c) => if j = i then some (j, c) else none) (i - d, c)
    match found with
    | some (_, c') => if negated then none else k (i, c')
    | none => if negated then k (i, c) else none

/-- A match: where it starts and ends, and what the groups matched. -/
structure Match where
  start : Nat
  stop : Nat
  captures : Captures
  deriving Repr

def Pattern.find? (p : Pattern) (text : Array UInt16) : (fuel from_ : Nat) → Option Match
  | 0, _ => none
  | fuel + 1, i =>
    if text.size < i then none
    else
      match run text p.flags p.root some (i, []) with
      | some (j, c) => some ⟨i, j, c⟩
      | none => if p.flags.isSticky then none else p.find? text fuel (i + 1)

end EggLang.Script.Regex
