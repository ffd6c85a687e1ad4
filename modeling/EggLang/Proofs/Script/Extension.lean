import EggLang.Script.Machine
import Mathlib.Data.List.Basic

/-!
# What running leaves as it is

An action that needs nothing from the machine goes straight on with a value in a store. What it
makes on the way is added to the store: the objects and the scopes that were there stay, and so
does what names stand for.
-/

namespace EggLang.Script

/-- An action goes straight on with a value in a store. -/
def Action.Yields {α : Type} (m : Action α) (s : Store) (a : α) (t : Store) : Prop :=
  ∀ k h, m k h s = k a t

namespace Action

variable {α β : Type} {m : Action α} {f : α → Action β} {s t u : Store} {a : α} {b : β}

theorem bind_run (m : Action α) (f : α → Action β) (k : β → Store → Run)
    (h : Value → Store → Run) (s : Store) :
    (m >>= f) k h s = m (fun a s => f a k h s) h s := rfl

theorem pure_run (a : α) (k : α → Store → Run) (h : Value → Store → Run) (s : Store) :
    (pure a : Action α) k h s = k a s := rfl

theorem yields_pure (a : α) (s : Store) : (pure a : Action α).Yields s a s := fun _ _ => rfl

theorem Yields.run (first : m.Yields s a t) (f : α → Action β) (k : β → Store → Run)
    (h : Value → Store → Run) : (m >>= f) k h s = f a k h t :=
  first _ _

theorem Yields.bind (first : m.Yields s a t) (second : (f a).Yields t b u) :
    (m >>= f).Yields s b u := fun k h => (first.run f k h).trans (second k h)

end Action

namespace Store

variable {s t u : Store} {n ref scope i : Nat} {key : Key} {v : Value} {name : String}

/-! ## Stores that go on others -/

/-- A store with more objects and scopes than another one. The objects are as they were there, and
so are the first `n` scopes. Nothing more has been written. -/
structure Extends (n : Nat) (s t : Store) : Prop where
  objects : ∀ r < s.objects.size, t.objects[r]? = s.objects[r]?
  scopes : ∀ i < n, t.scopes[i]? = s.scopes[i]?
  moreObjects : s.objects.size ≤ t.objects.size
  moreScopes : s.scopes.size ≤ t.scopes.size
  console : t.console = s.console

theorem Extends.refl (n : Nat) (s : Store) : Extends n s s :=
  ⟨fun _ _ => rfl, fun _ _ => rfl, Nat.le_refl _, Nat.le_refl _, rfl⟩

theorem Extends.trans (h : Extends n s t) (g : Extends n t u) : Extends n s u where
  objects r below :=
    (g.objects r (Nat.lt_of_lt_of_le below h.moreObjects)).trans (h.objects r below)
  scopes i below := (g.scopes i below).trans (h.scopes i below)
  moreObjects := Nat.le_trans h.moreObjects g.moreObjects
  moreScopes := Nat.le_trans h.moreScopes g.moreScopes
  console := g.console.trans h.console

theorem extends_alloc (n : Nat) (s : Store) (o : Object) : Extends n s (s.alloc o).2 where
  objects r below := by rw [alloc, Array.getElem?_push_lt below, Array.getElem?_eq_getElem below]
  scopes _ _ := rfl
  moreObjects := by simp [alloc]
  moreScopes := Nat.le_refl _
  console := rfl

theorem extends_openScope (s : Store) (sc : Scope) :
    Extends s.scopes.size s (s.openScope sc).2 where
  objects _ _ := rfl
  scopes i below := by rw [openScope, Array.getElem?_push_lt below, Array.getElem?_eq_getElem below]
  moreObjects := Nat.le_refl _
  moreScopes := by simp [openScope]
  console := rfl

theorem extends_keepScope (n : Nat) (s : Store) : Extends n s s.keepScope :=
  ⟨fun _ _ => rfl, fun _ _ => rfl, Nat.le_refl _, Nat.le_refl _, rfl⟩

/-- A scope that was not there may change. -/
theorem extends_modifyScope (new : n ≤ i) (s : Store) (f : Scope → Scope) :
    Extends n s { s with scopes := s.scopes.modify i f } where
  objects _ _ := rfl
  scopes j below := by rw [Array.getElem?_modify, if_neg (by omega)]
  moreObjects := Nat.le_refl _
  moreScopes := by simp
  console := rfl

theorem Extends.object (h : Extends n s t) (below : ref < s.objects.size) :
    t.object ref = s.object ref := by
  rw [Store.object, Store.object, h.objects ref below]

/-! ## Members -/

/-- An object has a value as a member of its own. -/
def Holds (s : Store) (ref : Nat) (key : Key) (v : Value) : Prop :=
  ∃ p w, s.own? ref key = some p ∧ p.slot = .value v w

theorem own?_of_name (noIndex : key.index? = none) : s.own? ref key = (s.object ref).own? key := by
  have unmapped : s.parameter? (s.object ref) key = none := by
    rw [parameter?]
    split
    · simp [noIndex]
    · rfl
  rw [Store.own?]
  cases (s.object ref).own? key <;> simp [unmapped]

theorem Holds.lt_size (h : s.Holds ref key v) : ref < s.objects.size := by
  by_contra beyond
  obtain ⟨p, w, own, -⟩ := h
  have absent : s.object ref = {} := by
    rw [Store.object, Array.getElem?_eq_none (Nat.le_of_not_lt beyond)]
    rfl
  simp [Store.own?, absent, Object.own?, Object.member?] at own

theorem Holds.extends (h : s.Holds ref key v) (noIndex : key.index? = none)
    (more : Extends n s t) : t.Holds ref key v := by
  have below := h.lt_size
  obtain ⟨p, w, own, value⟩ := h
  rw [own?_of_name noIndex] at own
  exact ⟨p, w, by rw [own?_of_name noIndex, more.object below, own], value⟩

theorem Holds.lookup? (h : s.Holds ref key v) :
    ∃ p w, s.lookup? ref key = some (ref, p) ∧ p.slot = .value v w := by
  have below := h.lt_size
  obtain ⟨p, w, own, value⟩ := h
  obtain ⟨n, size⟩ : ∃ n, s.objects.size = n + 1 := ⟨s.objects.size - 1, by omega⟩
  exact ⟨p, w, by rw [Store.lookup?, size, Store.lookup, own], value⟩

theorem Holds.find (h : s.Holds ref key v) (receiver : Value) :
    (Action.find ref key receiver).Yields s (some v) s := by
  obtain ⟨p, w, found, value⟩ := h.lookup?
  intro k h
  simp only [Action.find, Action.bind_run, Action.read, found, value]
  rfl

theorem Holds.get (h : s.Holds ref key v) : (Action.get ref key).Yields s v s :=
  (h.find (.object ref)).bind (Action.yields_pure _ s)

/-! ## Names -/

/-- A name stands for a value: it is that of a variable, or of a member of the global object. -/
inductive Finds (s : Store) (scope : Nat) (name : String) (v : Value) : Prop where
  | bound {owner : Nat} {w : Variable} (found : s.find? scope name = some (owner, some w))
      (value : w.value = some v)
  | global (unbound : s.find? scope name = none)
      (held : s.Holds Intrinsic.global.ref (.ofString name) v)

theorem current?_eq (s : Store) (scope : Nat) (name : String) :
    s.current? scope name = (s.find? scope name).bind fun e => e.2.bind (·.value) := by
  induction scope using Nat.strongRecOn with
  | ind scope ih =>
    rw [current?, find?]
    cases s.scopes[scope]? with
    | none => rfl
    | some sc =>
      dsimp only
      cases sc.variables_.lookup name with
      | some w => rfl
      | none =>
        dsimp only
        split_ifs
        · rfl
        cases sc.outer with
        | none => rfl
        | some outer =>
          dsimp only
          split_ifs with inside
          · exact ih outer inside
          · rfl

theorem find?_congr (same : ∀ i < n, t.scopes[i]? = s.scopes[i]?) (below : scope < n) :
    t.find? scope name = s.find? scope name := by
  induction scope using Nat.strongRecOn with
  | ind scope ih =>
    rw [find?, find?, same scope below]
    cases s.scopes[scope]? with
    | none => rfl
    | some sc =>
      dsimp only
      cases sc.variables_.lookup name with
      | some w => rfl
      | none =>
        dsimp only
        split_ifs
        · rfl
        cases sc.outer with
        | none => rfl
        | some outer =>
          dsimp only
          split_ifs with inside
          · exact ih outer inside (Nat.lt_trans inside below)
          · rfl

theorem find?_extends (more : Extends n s t) (below : scope < n) :
    t.find? scope name = s.find? scope name := find?_congr more.scopes below

theorem lt_size_of_find? {e : Nat × Option Variable} (found : s.find? scope name = some e) :
    scope < s.scopes.size := by
  by_contra beyond
  rw [find?, Array.getElem?_eq_none (Nat.le_of_not_lt beyond)] at found
  cases found

theorem Finds.extends (h : s.Finds scope name v) (noIndex : (Key.ofString name).index? = none)
    (more : Extends n s t) (below : scope < n) : t.Finds scope name v := by
  cases h with
  | bound found value => exact .bound ((find?_extends more below).trans found) value
  | global unbound held =>
    exact .global ((find?_extends more below).trans unbound) (held.extends noIndex more)

/-- A scope without the name asks the one around it. -/
theorem find?_outer {sc : Scope} (at_i : s.scopes[i]? = some sc) (outer : sc.outer = some scope)
    (free : sc.variables_.lookup name = none) (other : name ≠ "arguments") :
    s.find? i name = if scope < i then s.find? scope name else none := by
  rw [find?, at_i]
  simp [outer, free, other]

/-- What a name stands for where a function was made, it stands for in a call of it that has no
variable of that name. -/
theorem Finds.inner {sc : Scope} (h : s.Finds scope name v)
    (noIndex : (Key.ofString name).index? = none) (more : Extends s.scopes.size s t)
    (at_inner : t.scopes[s.scopes.size]? = some sc) (outer : sc.outer = some scope)
    (free : sc.variables_.lookup name = none) (other : name ≠ "arguments") :
    t.Finds s.scopes.size name v := by
  have asks := find?_outer at_inner outer free other
  cases h with
  | bound found value =>
    have below := lt_size_of_find? found
    rw [if_pos below, find?_extends more below, found] at asks
    exact .bound asks value
  | global unbound held =>
    refine .global (asks.trans ?_) (held.extends noIndex more)
    split_ifs with below
    · rw [find?_extends more below, unbound]
    · rfl

theorem Finds.lookup (h : s.Finds scope name v) :
    (Action.lookup scope name).Yields s v s := by
  intro k h'
  rw [Action.lookup, current?_eq]
  cases h with
  | bound found value => simp [found, value]
  | global unbound held =>
    have read := held.find (.object Intrinsic.global.ref)
    simp only [unbound, Option.bind_none, Action.resolveOther, Action.bind_run, Action.read]
    exact read _ _

end Store

end EggLang.Script
