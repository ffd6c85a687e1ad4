import EggLang.Bytes

/-!
# YAML documents

What a YAML document says: texts, sequences, mappings, and aliases of nodes that carry an anchor.
A text knows its tag and whether it was written plainly, because only a plain text without a tag
can stand for something other than itself.
-/

namespace EggLang

inductive Yaml where
  /-- A text with its tag, if it has one. -/
  | scalar (tag : Option (List Char)) (isPlain : Bool) (text : List Char)
  | sequence (items : List Yaml)
  | mapping (members : List (Yaml × Yaml))
  /-- A reference by name to the anchored node with the given number. -/
  | reference (name : List Char) (target : Nat)
  deriving Repr, Inhabited

namespace Yaml

/-- The node of a place where nothing is written. -/
def nothing : Yaml := scalar none true []

mutual

def size : Yaml → Nat
  | scalar .. => 1
  | reference .. => 1
  | sequence items => sizeAll items + 1
  | mapping members => sizeMembers members + 1

def sizeAll : List Yaml → Nat
  | [] => 0
  | node :: rest => size node + sizeAll rest

/-- The number of nodes of the members of a mapping. -/
def sizeMembers : List (Yaml × Yaml) → Nat
  | [] => 0
  | (key, value) :: rest => size key + size value + sizeMembers rest

end

/-- A document: its content and the anchored nodes in order. -/
structure Document where
  root : Yaml
  anchors : List (Nat × Yaml) := []
  deriving Repr, Inhabited

/-- A bound on how far a walk through a document leads before it meets a node again. -/
def Document.size (d : Document) : Nat := d.root.size + sizeAll (d.anchors.map (·.2))

def Document.target? (d : Document) (n : Nat) : Option Yaml := d.anchors.lookup n

end Yaml

end EggLang
