import EggLang.Yaml.Basic
import EggLang.Yaml.Scanner

/-!
# Reading documents

The first document of a text as a tree. Its tokens are taken one at a time, and a token after the
document is looked at only to see where the document ends. An anchor is known from where it
stands, inside its own node too, and a later anchor of the same name takes its place.
-/

namespace EggLang.Yaml

structure Reader where
  scanner : Scanner
  /-- What the handles of tags stand for. -/
  handles : List (List Char × List Char) := []
  /-- The numbers of the anchors by name, the latest one first. -/
  names : List (List Char × Nat) := []
  /-- How many anchors there are. -/
  count : Nat := 0
  /-- The anchored nodes that are read. -/
  anchored : List (Nat × Yaml) := []

/-- A reading step: it may find the text malformed. -/
abbrev Reading := StateT Reader Option

namespace Reading

def peek : Reading Token := do
  let r ← get
  let (t, scanner) ← r.scanner.peek
  set { r with scanner }
  return t

def skip : Reading Unit := modify fun r => { r with scanner := r.scanner.take }

def malformed {α : Type} : Reading α := fun _ => none

def declare (name : List Char) : Reading Nat := do
  let r ← get
  set { r with names := (name, r.count) :: r.names, count := r.count + 1 }
  return r.count

def keep (anchor : Option Nat) (node : Yaml) : Reading Yaml := do
  if let some n := anchor then
    modify fun r => { r with anchored := (n, node) :: r.anchored }
  return node

end Reading

open EggLang.Yaml.Reading

def standardLead : List Char := "tag:yaml.org,2002:".toList

/-- What the handles of tags stand for by themselves. -/
def standardHandles : List (List Char × List Char) :=
  [(['!'], ['!']), (['!', '!'], standardLead)]

def shortTag (tag : List Char) : List Char :=
  if standardLead.isPrefixOf tag then "!!".toList ++ tag.drop standardLead.length else tag

/-- The tag of a handle and what follows it; a lone mark is none. -/
def resolveTag (handle suffix : List Char) : Reading (Option (List Char)) := do
  let full ←
    if handle.isEmpty then pure suffix
    else
      match (← get).handles.lookup handle with
      | some lead => pure (lead ++ suffix)
      | none => malformed
  return if full = ['!'] then none else some (shortTag full)

structure Properties where
  anchor : Option Nat := none
  tag : Option (List Char) := none
  /-- Whether there is an anchor or a tag. -/
  given : Bool := false

/-- Reads an anchor and a tag, in either order. -/
def properties : Reading Properties := do
  let readTag (p : Properties) : Reading Properties := do
    match ← peek with
    | .tag handle suffix =>
      skip
      return { p with tag := ← resolveTag handle suffix, given := true }
    | _ => return p
  let readAnchor (p : Properties) : Reading Properties := do
    match ← peek with
    | .anchor name =>
      skip
      return { p with anchor := some (← declare name), given := true }
    | _ => return p
  match ← peek with
  | .anchor _ => readTag (← readAnchor {})
  | _ => readAnchor (← readTag {})

mutual

/-- Reads a node. Block collections are read only where `isBlock` holds, and a sequence in the
column of its mapping only where `indentless` does. -/
def readNode (isBlock indentless : Bool) : (fuel : Nat) → Reading Yaml
  | 0 => malformed
  | fuel + 1 => do
    if let .reference name := ← peek then
      skip
      match (← get).names.lookup name with
      | some n => return .reference name n
      | none => malformed
    else
      let p ← properties
      match ← peek with
      | .blockEntry =>
        if indentless then keep p.anchor (.sequence (← indentlessItems fuel []))
        else emptyNode p
      | .scalar isPlain text =>
        skip
        keep p.anchor (.scalar p.tag isPlain text)
      | .flowSequenceStart =>
        skip
        keep p.anchor (.sequence (← flowItems true fuel []))
      | .flowMappingStart =>
        skip
        keep p.anchor (.mapping (← flowMembers true fuel []))
      | .sequenceStart =>
        if isBlock then
          skip
          keep p.anchor (.sequence (← blockItems fuel []))
        else emptyNode p
      | .mappingStart =>
        if isBlock then
          skip
          keep p.anchor (.mapping (← blockMembers fuel []))
        else emptyNode p
      | _ => emptyNode p
where
  /-- The node of an anchor or a tag alone. -/
  emptyNode (p : Properties) : Reading Yaml :=
    if p.given then keep p.anchor (.scalar p.tag true []) else malformed

/-- Reads a node unless one of the given tokens is next. -/
def nodeUnless (stops : List Token) (isBlock indentless : Bool) : (fuel : Nat) → Reading Yaml
  | 0 => malformed
  | fuel + 1 => do
    if stops.contains (← peek) then return nothing
    readNode isBlock indentless fuel

def blockItems : (fuel : Nat) → List Yaml → Reading (List Yaml)
  | 0, _ => malformed
  | fuel + 1, items => do
    match ← peek with
    | .blockEntry =>
      skip
      let item ← nodeUnless [.blockEntry, .blockEnd] true false fuel
      blockItems fuel (item :: items)
    | .blockEnd =>
      skip
      return items.reverse
    | _ => malformed

/-- Reads the items of a sequence in the column of its mapping. -/
def indentlessItems : (fuel : Nat) → List Yaml → Reading (List Yaml)
  | 0, _ => malformed
  | fuel + 1, items => do
    match ← peek with
    | .blockEntry =>
      skip
      let item ← nodeUnless [.blockEntry, .key, .value, .blockEnd] true false fuel
      indentlessItems fuel (item :: items)
    | _ => return items.reverse

def blockMembers : (fuel : Nat) → List (Yaml × Yaml) → Reading (List (Yaml × Yaml))
  | 0, _ => malformed
  | fuel + 1, members => do
    match ← peek with
    | .key =>
      skip
      let key ← nodeUnless [.key, .value, .blockEnd] true true fuel
      if (← peek) = .value then
        skip
        let value ← nodeUnless [.key, .value, .blockEnd] true true fuel
        blockMembers fuel ((key, value) :: members)
      else blockMembers fuel ((key, nothing) :: members)
    | .blockEnd =>
      skip
      return members.reverse
    | _ => malformed

/-- Reads the items of a sequence in brackets. A key among them starts a mapping of one member;
where its text is missing, the token there is passed. -/
def flowItems (first : Bool) : (fuel : Nat) → List Yaml → Reading (List Yaml)
  | 0, _ => malformed
  | fuel + 1, items => do
    if !first && (← peek) != .flowSequenceEnd then
      if (← peek) = .flowEntry then skip else malformed
    match ← peek with
    | .flowSequenceEnd =>
      skip
      return items.reverse
    | .key =>
      skip
      let key ←
        if [.value, .flowEntry, .flowSequenceEnd].contains (← peek) then do
          skip
          pure nothing
        else readNode false false fuel
      let value ←
        if (← peek) = .value then do
          skip
          nodeUnless [.flowEntry, .flowSequenceEnd] false false fuel
        else pure nothing
      flowItems false fuel (.mapping [(key, value)] :: items)
    | _ =>
      let item ← readNode false false fuel
      flowItems false fuel (item :: items)

def flowMembers (first : Bool) : (fuel : Nat) → List (Yaml × Yaml) → Reading (List (Yaml × Yaml))
  | 0, _ => malformed
  | fuel + 1, members => do
    if !first && (← peek) != .flowMappingEnd then
      if (← peek) = .flowEntry then skip else malformed
    match ← peek with
    | .flowMappingEnd =>
      skip
      return members.reverse
    | .key =>
      skip
      let key ← nodeUnless [.value, .flowEntry, .flowMappingEnd] false false fuel
      let value ←
        if (← peek) = .value then do
          skip
          nodeUnless [.flowEntry, .flowMappingEnd] false false fuel
        else pure nothing
      flowMembers false fuel ((key, value) :: members)
    | _ =>
      let key ← readNode false false fuel
      flowMembers false fuel ((key, nothing) :: members)

end

/-- Reads the directives before a document. Of the version there is one at most, and a handle has
one meaning. -/
def directives (versioned : Bool) : (fuel : Nat) → Reading Unit
  | 0 => malformed
  | fuel + 1 => do
    match ← peek with
    | .version major minor =>
      if versioned || major != 1 || minor != 1 then malformed
      skip
      directives true fuel
    | .tagMeaning handle lead =>
      if ((← get).handles.lookup handle).isSome then malformed
      skip
      modify fun r => { r with handles := r.handles ++ [(handle, lead)] }
      directives versioned fuel
    | _ => modify fun r => { r with handles := r.handles ++ standardHandles }

/-- Reads the first document up to its end; nothing where there is none. -/
def document (fuel : Nat) : Reading (Option Yaml) := do
  skip
  match ← peek with
  | .streamEnd => return none
  | .version .. | .tagMeaning .. | .documentStart =>
    directives false fuel
    if (← peek) != .documentStart then malformed
    skip
    let isOver : Token → Bool
      | .version .. | .tagMeaning .. | .documentStart | .documentEnd | .streamEnd => true
      | _ => false
    let root ← if isOver (← peek) then pure nothing else readNode true false fuel
    let _ ← peek
    return some root
  | _ =>
    directives false fuel
    let root ← readNode true false fuel
    let _ ← peek
    return some root

/-! ## Texts -/

def isAllowed (c : Char) : Bool :=
  let n := c.toNat
  n = 9 || n = 10 || n = 13 || (0x20 ≤ n && n ≤ 0x7E) || n = 0x85
    || (0xA0 ≤ n && n ≠ 0xFFFE && n ≠ 0xFFFF)

/-- A text with one character for each line end: a carriage return for a pair, and a line feed for
others. -/
def normalize : List Char → List Char
  | '\r' :: '\n' :: rest => '\r' :: normalize rest
  | '\r' :: rest => '\n' :: normalize rest
  | c :: rest => (if c.toNat = 0x85 then '\n' else c) :: normalize rest
  | [] => []

/-- The first document of a text, which may start with a byte order mark. A text without one
stands for nothing. -/
def read? (text : List Char) : Option Document :=
  let isMarked := Window.startsMarked text
  let text := if isMarked then text.drop 1 else text
  if text.all isAllowed then
    let window := Window.ofText (if isMarked then 3 else 0) text
    let text := normalize text
    let start : Reader := { scanner := .ofText text window }
    (document (4 * text.length + 64) start).map fun (root, r) =>
      { root := root.getD nothing, anchors := r.anchored }
  else none

end EggLang.Yaml
