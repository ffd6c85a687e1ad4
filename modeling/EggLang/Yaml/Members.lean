import EggLang.Yaml.Scalar

/-!
# Members by name

A mapping read as a record: its members by the text of their keys. The plain key `<<` merges the
members of another mapping, or of several in order, behind its own, so that of two members with
one name the first is the one that counts. Aliases stand for their nodes, and a document that
consists of little else than what its aliases bring in is refused.
-/

namespace EggLang.Yaml

/-- How many nodes were decoded, and how many of them by way of an alias. -/
structure Tally where
  decoded : Nat := 0
  aliased : Nat := 0
  deriving DecidableEq, Repr

/-- Whether too large a share of the nodes came by way of aliases. The share allowed is 99 in a
hundred up to 400,000 nodes, falls evenly, and is 10 in a hundred from 4,000,000 on. -/
def Tally.isExcessive (t : Tally) : Bool :=
  let n : Int := t.decoded
  let a : Int := t.aliased
  100 < a && 1000 < n &&
    if n ≤ 400000 then 99 * n < 100 * a
    else if 4000000 ≤ n then n < 10 * a
    else n * (99 * 3600000 - 89 * (n - 400000)) < 360000000 * a

abbrev Decoding := StateT Tally Option

def count (byAlias : Bool) : Decoding Unit := do
  modify fun t => { decoded := t.decoded + 1, aliased := t.aliased + if byAlias then 1 else 0 }
  if (← get).isExcessive then failure

/-- Whether two keys are written alike. All sequences are, and so are all mappings. -/
def sameKey : Yaml → Yaml → Bool
  | .scalar _ _ a, .scalar _ _ b => a = b
  | .reference a _, .reference b _ => a = b
  | .sequence _, .sequence _ => true
  | .mapping _, .mapping _ => true
  | _, _ => false

/-- Whether two keys of a mapping are written alike. -/
def hasRepeatedKey : List (Yaml × Yaml) → Bool
  | [] => false
  | m :: ms => ms.any (fun n => sameKey m.1 n.1) || hasRepeatedKey ms

namespace Document

def follow (d : Document) (byAlias : Bool) : Yaml → Decoding (Bool × Yaml)
  | .reference _ n => do
    count byAlias
    match d.target? n with
    | some node =>
      count true
      return (true, node)
    | none => failure
  | node => do
    count byAlias
    return (byAlias, node)

/-- The name that a key gives; none if it stands for nothing. -/
def keyName (d : Document) (byAlias : Bool) (key : Yaml) : Decoding (Option Bytes) := do
  match (← d.follow byAlias key).2 with
  | .scalar tag isPlain text =>
    match meaning? tag isPlain text with
    | some .null => return none
    | some (.text t) | some (.other t) => return some t
    | none => failure
  | _ => failure

/-- The members that stand under keys of their own. -/
def ownMembers (d : Document) (byAlias : Bool) :
    List (Yaml × Yaml) → Decoding (List (Bytes × Yaml))
  | [] => return []
  | (key, value) :: ms => do
    if key.isMerge then d.ownMembers byAlias ms
    else
      match ← d.keyName byAlias key with
      | some n => return (n, value) :: (← d.ownMembers byAlias ms)
      | none => d.ownMembers byAlias ms

def isMergeable (d : Document) : Yaml → Bool
  | .mapping _ => true
  | .reference _ n =>
    match d.target? n with
    | some (.mapping _) => true
    | _ => false
  | _ => false

/-- The nodes that the merge key of a mapping brings in. -/
def mergedNodes (d : Document) (ms : List (Yaml × Yaml)) : Decoding (List Yaml) :=
  match ms.find? (·.1.isMerge) with
  | none => return []
  | some (_, value) =>
    let nodes := match value with
      | .sequence items => items
      | value => [value]
    if nodes.all d.isMergeable then return nodes else failure

def repeatsKnown (known : List Bytes) (ms : List (Bytes × Yaml)) : Bool :=
  let names := (ms.map (·.1)).filter known.contains
  names.eraseDups.length != names.length

/-- The members of a mapping and behind them those that it merges; a node that stands for nothing
has none. No known name may occur twice, except among members that are merged. An alias that
leads back to itself is refused with the fuel. -/
def membersOf (d : Document) (known : List Bytes) : (fuel : Nat) → (isMerged byAlias : Bool) →
    Yaml → Decoding (List (Bytes × Yaml))
  | 0, _, _, _ => failure
  | fuel + 1, isMerged, byAlias, node => do
    let (byAlias, node) ← d.follow byAlias node
    match node with
    | .mapping ms =>
      if hasRepeatedKey ms then failure
      let own ← d.ownMembers byAlias ms
      if !isMerged && repeatsKnown known own then failure
      let nodes ← d.mergedNodes ms
      let merged ← nodes.mapM (d.membersOf known fuel true byAlias)
      return own ++ merged.flatten
    | .scalar tag isPlain text =>
      if meaning? tag isPlain text = some .null then return [] else failure
    | _ => failure

def record (d : Document) (known : List Bytes) (node : Yaml) : Decoding (List (Bytes × Yaml)) :=
  d.membersOf known (d.size + 1) false false node

def text (d : Document) (node : Yaml) : Decoding Meaning := do
  match (← d.follow false node).2 with
  | .scalar tag isPlain text =>
    match meaning? tag isPlain text with
    | some m => return m
    | none => failure
  | _ => failure

end Document

end EggLang.Yaml
