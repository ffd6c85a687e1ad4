import EggLang.Proofs.Script.Start
import EggLang.Proofs.Script.Twins

/-!
# A store and one with more in it

Statements that are executed behind others find what the others have made: more objects and
scopes, and lines on the console. What they make themselves is made in the same order as when they
are executed alone, so that each object and each scope of their own has a place that is moved by
the number of those that were there.
-/

namespace EggLang.Script

/-! ## Stores that grow -/

/-- All names are those of variables in a scope or in those around it. In a call `arguments` is
none. -/
structure Store.Binds (s : Store) (scope : Nat) (names : List String) : Prop where
  below : scope < s.scopes.size
  found : ∀ name ∈ names, name ≠ "arguments" →
    ∃ owner x, s.find? scope name = some (owner, some x)

/-- A scope after its variables have got other values. -/
structure Scope.Turns (sc sd : Scope) : Prop where
  outer : sd.outer = sc.outer
  frame : sd.frame = sc.frame
  names (name : String) : (sd.variables_.lookup name).isSome = (sc.variables_.lookup name).isSome

theorem Scope.Turns.refl (sc : Scope) : sc.Turns sc := ⟨rfl, rfl, fun _ => rfl⟩

theorem Scope.Turns.trans {sc sd se : Scope} (h : sc.Turns sd) (g : sd.Turns se) : sc.Turns se :=
  ⟨g.outer.trans h.outer, g.frame.trans h.frame, fun name => (g.names name).trans (h.names name)⟩

/-- What is done between two stores keeps the scopes. A function is made only together with a new
keeper. -/
structure Store.Grows (s u : Store) : Prop where
  scopes {i : Nat} {sc : Scope} : s.scopes[i]? = some sc →
    ∃ sd, u.scopes[i]? = some sd ∧ sc.Turns sd
  keepers : s.keepers ≤ u.keepers
  closures : u.keepers = s.keepers → ∀ r f i, (u.object r).kind = .closure f i →
    (s.object r).kind = .closure f i

namespace Store

variable {s t u : Store} {i : Nat} {name : String} {names : List String}

theorem Grows.refl (s : Store) : s.Grows s :=
  ⟨fun at_i => ⟨_, at_i, .refl _⟩, Nat.le_refl _, fun _ _ _ _ kind => kind⟩

theorem Grows.trans (h : s.Grows t) (g : t.Grows u) : s.Grows u where
  scopes at_i := by
    obtain ⟨sd, at_t, first⟩ := h.scopes at_i
    obtain ⟨se, at_u, second⟩ := g.scopes at_t
    exact ⟨se, at_u, first.trans second⟩
  keepers := Nat.le_trans h.keepers g.keepers
  closures same r f i kind := by
    have fewer := h.keepers
    have more := g.keepers
    exact h.closures (by omega) r f i (g.closures (by omega) r f i kind)

theorem lt_size_of_scope {sc : Scope} (at_i : s.scopes[i]? = some sc) : i < s.scopes.size :=
  (Array.getElem?_eq_some_iff.1 at_i).1

/-- A variable of the name is found where one was found, or one nearer. -/
theorem Grows.find? (h : s.Grows u) {owner : Nat} {x : Variable}
    (found : s.find? i name = some (owner, some x)) :
    ∃ owner x, u.find? i name = some (owner, some x) := by
  induction i using Nat.strongRecOn with
  | ind i ih =>
    rw [Store.find?] at found
    cases at_i : s.scopes[i]? with
    | none =>
      rw [at_i] at found
      cases found
    | some sc =>
      obtain ⟨sd, at_u, turns⟩ := h.scopes at_i
      rw [at_i] at found
      rw [Store.find?, at_u]
      dsimp only at found ⊢
      cases now : sd.variables_.lookup name with
      | some y => exact ⟨i, y, rfl⟩
      | none =>
        have before : sc.variables_.lookup name = none := by
          have same := turns.names name
          rw [now] at same
          exact Option.isNone_iff_eq_none.1 (by simpa using same.symm)
        rw [before] at found
        rw [turns.frame, turns.outer]
        dsimp only at found ⊢
        split_ifs at found ⊢ with hidden
        · cases found
        cases at_outer : sc.outer with
        | none =>
          rw [at_outer] at found
          cases found
        | some outer =>
          rw [at_outer] at found
          dsimp only at found ⊢
          split_ifs at found ⊢ with inside
          exact ih outer inside found

theorem Binds.grows (h : s.Binds i names) (grows : s.Grows u) : u.Binds i names where
  below := by
    obtain ⟨sd, at_u, -⟩ := grows.scopes (Array.getElem?_eq_getElem h.below)
    exact lt_size_of_scope at_u
  found name mem other := by
    obtain ⟨owner, x, found⟩ := h.found name mem other
    exact grows.find? found

/-- Names of variables depend on the scopes up to the one where they are looked up. -/
theorem Binds.congr (h : s.Binds i names) {n : Nat}
    (same : ∀ j < n, u.scopes[j]? = s.scopes[j]?) (below : i < n) : u.Binds i names where
  below := lt_size_of_scope ((same i below).trans (Array.getElem?_eq_getElem h.below))
  found name mem other := by
    obtain ⟨owner, x, found⟩ := h.found name mem other
    exact ⟨owner, x, (find?_congr same below).trans found⟩

end Store

/-! ## What corresponds -/

/-- What a store has that another one has not. Both have the objects of `start` first, and then
the function around the statements. -/
structure Shift where
  start : Store
  objects : Nat
  scopes : Nat
  keepers : Nat
  /-- How many scopes are in both: the outermost one, and that of the statements while they are
  executed. -/
  inner : Nat
  /-- The names that other statements declare. -/
  others : List String
  /-- The scope of the statements when the first of them is executed. -/
  home : Scope
  /-- The lines that were written before, the last one first. -/
  written : List Bytes

namespace Shift

variable (w : Shift)

/-- The place of the function around the statements. -/
def host : Nat := w.start.objects.size

def ref (r : Nat) : Nat := if r < w.host then r else r + w.objects

def scope (i : Nat) : Nat := if i < w.inner then i else i + w.scopes

/-- The function around the statements is no value that they get hold of. -/
inductive Values : Value → Value → Prop where
  | undefined : Values .undefined .undefined
  | null : Values .null .null
  | bool (b : Bool) : Values (.bool b) (.bool b)
  | number (x : Numeric) : Values (.number x) (.number x)
  | string (u : Units) : Values (.string u) (.string u)
  | symbol (id : Nat) : Values (.symbol id) (.symbol id)
  | object {r : Nat} : r ≠ w.host → Values (.object r) (.object (w.ref r))

/-- Functions that give the value of a member are found only in what was there. -/
inductive Slots : Slot → Slot → Prop where
  | value {v v' : Value} (writable : Bool) : w.Values v v' →
      Slots (.value v writable) (.value v' writable)
  | accessor {g t : Option Nat} : (∀ r ∈ g, r < w.host) → Slots (.accessor g t) (.accessor g t)
  | unmade : Slots .unmade .unmade

structure Properties (p p' : Property) : Prop where
  slot : w.Slots p.slot p'.slot
  enumerable : p'.enumerable = p.enumerable
  configurable : p'.configurable = p.configurable

inductive Kinds : ObjectKind → ObjectKind → Prop where
  | plain : Kinds .plain .plain
  | array {es es' : Array (Option Value)} (length : Nat) (fixed : Bool) :
      List.Forall₂ (Option.Rel w.Values) es.toList es'.toList →
      Kinds (.array es length fixed) (.array es' length fixed)
  | closure (f g : Function) (i j : Nat) : Kinds (.closure f i) (.closure g j)
  | native (f : Native) : Kinds (.native f) (.native f)
  | boxed {v : Value} : v.isPrimitive = true → Kinds (.boxed v) (.boxed v)
  | error : Kinds .error .error

def Members : Key × Property → Key × Property → Prop
  | (k, p), (k', p') => k' = k ∧ w.Properties p p'

/-- Only what was there is a prototype. -/
structure Objects (o o' : Object) : Prop where
  kind : w.Kinds o.kind o'.kind
  proto : o'.proto = o.proto
  below {p : Nat} : o.proto = some p → p < w.host
  members : List.Forall₂ w.Members o.members.toList o'.members.toList

structure Variables (x x' : Variable) : Prop where
  value : Option.Rel w.Values x.value x'.value
  mutability : x'.mutability = x.mutability

/-- Calls have as many arguments, and nobody has looked at these as an object. -/
structure CallFrames (f f' : Frame) : Prop where
  count : f'.args.length = f.args.length
  unseen : f.arguments = none ∧ f'.arguments = none

/-- The scopes agree on all names but some. -/
structure Scopes (hidden : List String) (sc sc' : Scope) : Prop where
  outer : sc'.outer = sc.outer.map w.scope
  frame : Option.Rel CallFrames sc.frame sc'.frame
  variables_ {name : String} : name ∉ hidden →
    Option.Rel w.Variables (sc.variables_.lookup name) (sc'.variables_.lookup name)

/-- What other statements declare is seen in the scope of the statements, and in no call. -/
def hidden (i : Nat) : List String := if i < w.inner then w.others else []

/-! ## Corresponding stores -/

/-- The keys of the members of what statements make. -/
def madeKeys : List Key := [lengthKey, nameKey, prototypeKey, constructorKey, messageKey]

/-- The members of an object that statements have made have one of those keys, and no functions
that give their values. -/
structure IsMade (o : Object) : Prop where
  keys {e : Key × Property} : e ∈ o.members → e.1 ∈ madeKeys
  data {e : Key × Property} : e ∈ o.members → ∀ g t, e.2.slot ≠ .accessor g t

/-- Two stores have the same objects, apart from their places. -/
structure Heaps (s t : Store) : Prop where
  ready : Start.IsReady w.start
  more : w.host < s.objects.size
  size : t.objects.size = s.objects.size + w.objects
  kept {r : Nat} : r < w.host → s.object r = w.start.object r ∧ t.object r = w.start.object r
  made {r : Nat} : w.host < r → IsMade (s.object r)
  objects {r : Nat} : w.host < r → w.Objects (s.object r) (t.object (w.ref r))

/-- Two stores have the same scopes, apart from their places and from the variables that other
statements have declared. -/
structure Chains (s t : Store) : Prop where
  outer : 0 < w.inner
  enough : w.inner ≤ s.scopes.size
  size : t.scopes.size = s.scopes.size + w.scopes
  outermost : s.scopes[0]? = some ({} : Scope) ∧ t.scopes[0]? = some ({} : Scope)
  scopes {i : Nat} {sc : Scope} : s.scopes[i]? = some sc →
    ∃ sc', t.scopes[w.scope i]? = some sc' ∧ w.Scopes (w.hidden i) sc sc'
  alone {i : Nat} {sc : Scope} : i < w.inner → s.scopes[i]? = some sc →
    ∀ name ∈ w.others, sc.variables_.lookup name = none
  home : 1 < w.inner → ∃ sc, t.scopes[1]? = some sc ∧ w.home.Turns sc
    ∧ ∀ name ∈ w.others, sc.variables_.lookup name = w.home.variables_.lookup name

/-- A store, and one that has more in it: the statements find the same in both. -/
structure Meet (s t : Store) : Prop where
  heaps : w.Heaps s t
  chains : w.Chains s t
  closures {r : Nat} {f : Function} {i : Nat} : w.host < r → (s.object r).kind = .closure f i →
    ∃ g bound, (t.object (w.ref r)).kind = .closure g (w.scope i)
      ∧ Function.Twins w.others bound f g ∧ s.Binds i bound
  symbols : s.symbols = w.start.symbols ∧ t.symbols = w.start.symbols
  keepers : t.keepers = s.keepers + w.keepers
  console : t.console = s.console ++ w.written

variable {w} {s t : Store} {r i : Nat} {key : Key} {name : String}

theorem ref_of_lt (below : r < w.host) : w.ref r = r := if_pos below

theorem ref_of_le (beyond : w.host ≤ r) : w.ref r = r + w.objects := if_neg (by omega)

theorem ref_injective {r r' : Nat} : w.ref r = w.ref r' ↔ r = r' := by
  unfold ref
  split_ifs <;> omega

theorem scope_lt {i j : Nat} : w.scope i < w.scope j ↔ i < j := by
  unfold scope
  split_ifs <;> omega

theorem scope_of_le (beyond : w.inner ≤ i) : w.scope i = i + w.scopes := if_neg (by omega)

/-! ## Objects -/

theorem values_of_below {v : Value} (below : v.Below w.host) : w.Values v v := by
  cases v with
  | object r =>
    have small := below r rfl
    have same := Values.object (w := w) (Nat.ne_of_lt small)
    rwa [ref_of_lt small] at same
  | undefined => exact .undefined
  | null => exact .null
  | bool b => exact .bool b
  | number x => exact .number x
  | string u => exact .string u
  | symbol id => exact .symbol id

theorem values_of_primitive {v : Value} (primitive : v.isPrimitive = true) : w.Values v v :=
  values_of_below (Value.below_of_primitive primitive _)

theorem properties_of_builtIn {p : Property} (builtIn : p.IsBuiltIn w.host key) :
    w.Properties p p := by
  refine ⟨?_, rfl, rfl⟩
  cases slot : p.slot with
  | value v b => exact .value b (values_of_below (builtIn.value slot))
  | accessor g u => exact .accessor (builtIn.accessor slot).1
  | unmade => exact absurd slot builtIn.made

/-- An object that was there corresponds to itself. -/
theorem objects_of_builtIn {o : Object} (builtIn : o.IsBuiltIn w.host)
    (protos : ∀ p, o.proto = some p → p < w.host) : w.Objects o o := by
  refine ⟨?_, rfl, protos _, ?_⟩
  · cases kind : o.kind with
    | plain => exact .plain
    | native f => exact .native f
    | array es length fixed =>
      have sort := builtIn.kind
      rw [kind] at sort
      cases sort with
      | array _ _ each =>
        refine .array length fixed (List.forall₂_same.2 fun e mem => ?_)
        cases e with
        | none => exact .none
        | some v => exact .some (values_of_below (each v (Array.mem_toList_iff.1 mem)))
    | boxed v =>
      have sort := builtIn.kind
      rw [kind] at sort
      cases sort with
      | boxed primitive => exact .boxed primitive
    | _ =>
      have sort := builtIn.kind
      rw [kind] at sort
      cases sort
  · exact List.forall₂_same.2 fun e mem =>
      ⟨rfl, properties_of_builtIn (builtIn.members e (Array.mem_toList_iff.1 mem))⟩

namespace Heaps

theorem object (h : w.Heaps s t) (other : r ≠ w.host) :
    w.Objects (s.object r) (t.object (w.ref r)) := by
  rcases Nat.lt_or_gt_of_ne other with below | beyond
  · rw [ref_of_lt below, (h.kept below).1, (h.kept below).2]
    exact objects_of_builtIn (h.ready.builtIn.objects r) fun p proto =>
      (h.ready.builtIn.protos proto).1
  · exact h.objects beyond

end Heaps

theorem Members.member? {ms ms' : List (Key × Property)} (same : List.Forall₂ w.Members ms ms')
    (key : Key) : Option.Rel w.Properties ((ms.find? (·.1 == key)).map (·.2))
      ((ms'.find? (·.1 == key)).map (·.2)) := by
  induction same with
  | nil => exact .none
  | @cons e e' _ _ first _ ih =>
    obtain ⟨k, p⟩ := e
    obtain ⟨k', p'⟩ := e'
    obtain ⟨rfl, first⟩ := first
    rw [List.find?_cons, List.find?_cons]
    cases k' == key with
    | true => exact .some first
    | false => exact ih

theorem Objects.member? {o o' : Object} (h : w.Objects o o') (key : Key) :
    Option.Rel w.Properties (o.member? key) (o'.member? key) := by
  rw [Object.member?, Object.member?, ← Array.find?_toList, ← Array.find?_toList]
  exact Members.member? h.members key

theorem Objects.isEmpty {o o' : Object} (h : w.Objects o o') :
    o'.members.isEmpty = o.members.isEmpty := by
  rw [Array.isEmpty, Array.isEmpty, ← Array.length_toList, ← Array.length_toList,
    h.members.length_eq]

theorem properties_plain {v v' : Value} (h : w.Values v v') :
    w.Properties (.plain v) (.plain v') :=
  ⟨.value true h, rfl, rfl⟩

theorem element_rel {es es' : List (Option Value)}
    (same : List.Forall₂ (Option.Rel w.Values) es es') (i : Nat) :
    Option.Rel (Option.Rel w.Values) es[i]? es'[i]? := by
  induction same generalizing i with
  | nil => exact .none
  | cons first _ ih =>
    cases i with
    | zero => exact .some first
    | succ i => exact ih i

theorem held_rel {x x' : Option (Option Value)} {p p' : Option Property} :
    Option.Rel (Option.Rel w.Values) x x' → Option.Rel w.Properties p p' →
    Option.Rel w.Properties (match x with | some (some v) => some (.plain v) | _ => p)
      (match x' with | some (some v) => some (.plain v) | _ => p') := by
  intro same rest
  cases same with
  | none => exact rest
  | some inner =>
    cases inner with
    | none => exact rest
    | some value => exact .some (properties_plain value)

/-- Corresponding objects have corresponding members. -/
theorem Objects.own? {o o' : Object} (h : w.Objects o o') (key : Key) :
    Option.Rel w.Properties (o.own? key) (o'.own? key) := by
  have member := h.member? key
  have empty := h.isEmpty
  have kind := h.kind
  have constant {v : Value} (primitive : v.isPrimitive = true) {p : Property} {b : Bool}
      (slot : p.slot = .value v b) : Option.Rel w.Properties (some p) (some p) := by
    refine .some ⟨?_, rfl, rfl⟩
    rw [slot]
    exact .value b (values_of_primitive primitive)
  rw [Object.own?, Object.own?]
  generalize o.kind = sort, o'.kind = sort' at kind
  cases kind with
  | @array es es' length fixed elements =>
    dsimp only
    cases key.index? with
    | some i =>
      have element := element_rel elements i
      rw [Array.getElem?_toList, Array.getElem?_toList] at element
      dsimp only
      refine held_rel element ?_
      rw [empty]
      split_ifs
      · exact .none
      · exact member
    | none =>
      dsimp only
      split_ifs
      · exact constant rfl rfl
      · exact member
  | @boxed v primitive =>
    cases v with
    | string u =>
      dsimp only
      cases key.index? with
      | some i =>
        dsimp only
        cases at_i : Object.unitAt? u i with
        | none => exact member
        | some v =>
          obtain ⟨x, -, rfl⟩ := Option.map_eq_some_iff.1 at_i
          exact constant rfl rfl
      | none =>
        dsimp only
        split_ifs
        · exact constant rfl rfl
        · exact member
    | _ => exact member
  | plain | closure | native | error => all_goals exact member

theorem Kinds.unmapped {kind kind' : ObjectKind} (h : w.Kinds kind kind') :
    (∀ i names, kind ≠ .arguments i names) ∧ ∀ i names, kind' ≠ .arguments i names := by
  cases h <;> exact ⟨fun _ _ => ObjectKind.noConfusion, fun _ _ => ObjectKind.noConfusion⟩

theorem parameter?_none {o : Object} (other : ∀ i names, o.kind ≠ .arguments i names) (s : Store)
    (key : Key) : s.parameter? o key = none := by
  rw [Store.parameter?]
  split
  · rename_i kind
    exact absurd kind (other _ _)
  · rfl

theorem own?_eq {o : Object} (same : s.object r = o)
    (other : ∀ i names, o.kind ≠ .arguments i names) (key : Key) : s.own? r key = o.own? key := by
  rw [Store.own?, same]
  cases o.own? key <;> simp [parameter?_none other]

theorem Heaps.own? (h : w.Heaps s t) (other : r ≠ w.host) (key : Key) :
    Option.Rel w.Properties (s.own? r key) (t.own? (w.ref r) key) := by
  have same := h.object other
  rw [own?_eq rfl same.kind.unmapped.1, own?_eq rfl same.kind.unmapped.2]
  exact same.own? key

end Shift

end EggLang.Script
