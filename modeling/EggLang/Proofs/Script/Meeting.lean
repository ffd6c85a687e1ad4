import EggLang.Proofs.Script.Shift

/-!
# What is read and changed in corresponding stores

Two stores that correspond give the same for the same member and the same name, and still
correspond when the same has been done in both.
-/

namespace EggLang.Script

namespace Shift

variable {w : Shift} {s t : Store} {r i : Nat} {key : Key} {name : String} {p p' : Property}
  {o o' : Object}

/-! ## Members -/

theorem own?_cases (found : o.own? key = some p) :
    (∃ v b, p.slot = .value v b) ∨ o.member? key = some p := by
  rw [Object.own?] at found
  split at found
  · split at found
    · split at found
      · cases found
        exact .inl ⟨_, _, rfl⟩
      · split_ifs at found
        exact .inr found
    · split_ifs at found
      · cases found
        exact .inl ⟨_, _, rfl⟩
      · exact .inr found
  · split at found
    · split at found
      · cases found
        exact .inl ⟨_, _, rfl⟩
      · exact .inr found
    · split_ifs at found
      · cases found
        exact .inl ⟨_, _, rfl⟩
      · exact .inr found
  · exact .inr found

theorem mem_of_member? (found : o.member? key = some p) : (key, p) ∈ o.members := by
  obtain ⟨e, at_e, rfl⟩ := Option.map_eq_some_iff.1 found
  have same : e.1 = key := by simpa using Array.find?_some at_e
  exact same ▸ Array.mem_of_find?_eq_some at_e

/-- A member that an object has of its own or from its prototypes. -/
structure Found (w : Shift) (s : Store) (key : Key) (e e' : Nat × Property) : Prop where
  other : e.1 ≠ w.host
  holder : e'.1 = w.ref e.1
  own : s.own? e.1 key = some e.2
  same : w.Properties e.2 e'.2

theorem Heaps.two_le (h : w.Heaps s t) : 2 ≤ w.host :=
  Nat.le_trans (by decide) h.ready.builtIn.enough

/-- How many prototypes may follow on each other from an object on. -/
def rank (w : Shift) (r : Nat) : Nat := if r < w.host then chainBound r else w.host

theorem Heaps.rank_lt (h : w.Heaps s t) (r : Nat) : w.rank r < s.objects.size := by
  have more := h.more
  unfold rank
  split_ifs with below
  · exact Nat.lt_trans (chainBound_lt below h.two_le) more
  · exact more

theorem Heaps.proto (h : w.Heaps s t) (other : r ≠ w.host) {q : Nat}
    (proto : (s.object r).proto = some q) : q < w.host ∧ w.rank q < w.rank r := by
  have below := (h.object other).below proto
  refine ⟨below, ?_⟩
  rw [rank, if_pos below, rank]
  split_ifs with there
  · rw [(h.kept there).1] at proto
    exact (h.ready.builtIn.protos proto).2
  · exact chainBound_lt below h.two_le

theorem Heaps.lookup (h : w.Heaps s t) (key : Key) {n m : Nat} (other : r ≠ w.host)
    (enough : w.rank r < n) (enough' : w.rank r < m) :
    Option.Rel (w.Found s key) (s.lookup key n r) (t.lookup key m (w.ref r)) := by
  induction n generalizing m r with
  | zero => cases enough
  | succ n ih =>
    obtain ⟨m, rfl⟩ : ∃ l, m = l + 1 := ⟨m - 1, by omega⟩
    have own := h.own? other key
    have proto := (h.object other).proto
    rw [Store.lookup, Store.lookup, proto]
    cases at_s : s.own? r key with
    | some p =>
      rw [at_s] at own
      cases at_t : t.own? (w.ref r) key with
      | none =>
        rw [at_t] at own
        cases own
      | some p' =>
        rw [at_t] at own
        cases own with
        | some same => exact .some ⟨other, rfl, at_s, same⟩
    | none =>
      rw [at_s] at own
      cases at_t : t.own? (w.ref r) key with
      | some p' =>
        rw [at_t] at own
        cases own
      | none =>
        cases next : (s.object r).proto with
        | none => exact .none
        | some q =>
          obtain ⟨below, less⟩ := h.proto other next
          have rest := ih (r := q) (m := m) (Nat.ne_of_lt below) (by omega) (by omega)
          rwa [ref_of_lt below] at rest

theorem Heaps.lookup? (h : w.Heaps s t) (other : r ≠ w.host) (key : Key) :
    Option.Rel (w.Found s key) (s.lookup? r key) (t.lookup? (w.ref r) key) := by
  have enough := h.rank_lt r
  refine h.lookup key other enough ?_
  rw [h.size]
  omega

/-- A value that is one of those that were there, if it is an object, and does not write. -/
def Silent (w : Shift) (v : Value) : Prop := ∀ r, v = .object r → r < w.host ∧ w.start.IsMute r

theorem silent_of_primitive {v : Value} (primitive : v.isPrimitive = true) : w.Silent v := by
  rintro r rfl
  cases primitive

theorem conversionKeys_other : ∀ key ∈ conversionKeys,
    key.index? = none ∧ key ∉ madeKeys ∧ key ≠ .ofString "log" := by decide

/-- Under the keys of conversions there are only values that were there. -/
theorem Found.conversion {e e' : Nat × Property} (h : w.Heaps s t) (found : w.Found s key e e')
    (mem : key ∈ conversionKeys) : ∃ v b, e.2.slot = .value v b ∧ w.Silent v := by
  obtain ⟨noIndex, free, other⟩ := conversionKeys_other key mem
  have own := found.own
  rw [Store.own?_eq_member? noIndex fun same => free (same ▸ List.mem_cons_self)] at own
  have mem_s := mem_of_member? own
  have below : e.1 < w.host := by
    by_contra beyond
    have far : w.host < e.1 := Nat.lt_of_le_of_ne (Nat.le_of_not_lt beyond) (Ne.symm found.other)
    exact free ((h.made far).keys mem_s)
  rw [(h.kept below).1] at mem_s
  have builtIn := (h.ready.builtIn.objects e.1).members _ mem_s
  cases slot : e.2.slot with
  | value v b =>
    refine ⟨v, b, rfl, ?_⟩
    rintro r rfl
    exact ⟨builtIn.value slot r rfl, (h.ready.mute e.1 mem_s).value other slot⟩
  | accessor g u => exact absurd mem (builtIn.other slot)
  | unmade => exact absurd slot builtIn.made

/-- Functions that give the value of a member were there, and do not write. -/
theorem Found.getter {e e' : Nat × Property} {g u : Option Nat} (h : w.Heaps s t)
    (found : w.Found s key e e') (slot : e.2.slot = .accessor g u) :
    ∀ r ∈ g, w.start.IsMute r := by
  have own := found.own
  rw [own?_eq rfl (h.object found.other).kind.unmapped.1] at own
  rcases own?_cases own with ⟨v, b, value⟩ | member
  · rw [slot] at value
    cases value
  have mem := mem_of_member? member
  rcases Nat.lt_or_gt_of_ne found.other with below | beyond
  · rw [(h.kept below).1] at mem
    exact fun r there => (h.ready.mute e.1 mem).getter slot there
  · exact absurd slot ((h.made beyond).data mem g u)

/-! ## New objects and members -/

theorem Heaps.alloc (h : w.Heaps s t) (same : w.Objects o o') (made : IsMade o) :
    w.Heaps (s.alloc o).2 (t.alloc o').2 := by
  have more := h.more
  have size := h.size
  have moved {r : Nat} (beyond : w.host < r) :
      w.ref r = t.objects.size ↔ r = s.objects.size := by
    rw [ref_of_le (Nat.le_of_lt beyond)]
    omega
  refine ⟨h.ready, ?_, ?_, fun {r} below => ?_, fun {r} beyond => ?_, fun {r} beyond => ?_⟩
  · rw [Store.size_alloc]
    omega
  · rw [Store.size_alloc, Store.size_alloc]
    omega
  · rw [Store.object_alloc, Store.object_alloc, if_neg (by omega), if_neg (by omega)]
    exact h.kept below
  · rw [Store.object_alloc]
    split_ifs
    · exact made
    · exact h.made beyond
  · rw [Store.object_alloc, Store.object_alloc]
    split_ifs with here there there
    · exact same
    · exact absurd ((moved beyond).2 here) there
    · exact absurd ((moved beyond).1 there) here
    · exact h.objects beyond

theorem Heaps.ref_size (h : w.Heaps s t) : w.ref s.objects.size = t.objects.size := by
  rw [ref_of_le (Nat.le_of_lt h.more), h.size]

theorem Members.findIdx? {ms ms' : List (Key × Property)} (same : List.Forall₂ w.Members ms ms')
    (key : Key) : ms'.findIdx? (·.1 == key) = ms.findIdx? (·.1 == key) := by
  induction same with
  | nil => rfl
  | @cons e e' _ _ first _ ih =>
    obtain ⟨k, p⟩ := e
    obtain ⟨k', p'⟩ := e'
    obtain ⟨rfl, -⟩ := first
    rw [List.findIdx?_cons, List.findIdx?_cons, ih]

theorem Members.modify {ms ms' : List (Key × Property)} (same : List.Forall₂ w.Members ms ms')
    (now : w.Properties p p') (i : Nat) :
    List.Forall₂ w.Members (ms.modify i fun _ => (key, p)) (ms'.modify i fun _ => (key, p')) := by
  induction same generalizing i with
  | nil => simp
  | cons first rest ih =>
    cases i with
    | zero => exact .cons ⟨rfl, now⟩ rest
    | succ i => exact .cons first (ih i)

theorem Objects.putMember (h : w.Objects o o') (now : w.Properties p p') (key : Key) :
    w.Objects (o.putMember key p) (o'.putMember key p') := by
  refine ⟨?_, ?_, ?_, ?_⟩
  · rw [Object.kind_putMember, Object.kind_putMember]
    exact h.kind
  · rw [Object.proto_putMember, Object.proto_putMember, h.proto]
  · rw [Object.proto_putMember]
    exact h.below
  · have place : o'.find? key = o.find? key := by
      have same := Members.findIdx? h.members key
      rwa [← List.findIdx?_toArray, ← List.findIdx?_toArray] at same
    rw [Object.putMember, Object.putMember, place]
    cases o.find? key with
    | none =>
      simp only [Array.toList_push]
      exact List.rel_append h.members (.cons ⟨rfl, now⟩ .nil)
    | some i =>
      simp only [Array.toList_modify]
      exact Members.modify h.members now i

theorem madeKeys_noIndex : ∀ key ∈ madeKeys, key.index? = none := by decide

theorem put_eq (mem : key ∈ madeKeys) (o : Object) (p : Property) :
    o.put key p = o.putMember key p := by
  obtain same | ⟨_, _, _, _, _, _, i, -, rfl⟩ := Object.put_cases o key p
  · exact same
  · cases madeKeys_noIndex _ mem

theorem IsMade.put (h : IsMade o) (mem : key ∈ madeKeys) (data : ∀ g u, p.slot ≠ .accessor g u) :
    IsMade (o.put key p) where
  keys there := by
    rcases Object.mem_put there with old | rfl
    · exact h.keys old
    · exact mem
  data there := by
    rcases Object.mem_put there with old | rfl
    · exact h.data old
    · exact data

theorem Heaps.congr {u v : Store} (h : w.Heaps s t) (same : u.objects = s.objects)
    (same' : v.objects = t.objects) : w.Heaps u v := by
  have object_u (r : Nat) : u.object r = s.object r := by rw [Store.object, same, Store.object]
  have object_v (r : Nat) : v.object r = t.object r := by rw [Store.object, same', Store.object]
  refine ⟨h.ready, same ▸ h.more, ?_, fun {r} => ?_, fun {r} => ?_, fun {r} => ?_⟩
  · rw [same, same']
    exact h.size
  · rw [object_u, object_v]
    exact h.kept
  · rw [object_u]
    exact h.made
  · rw [object_u, object_v]
    exact h.objects

theorem put_of_size_le (beyond : s.objects.size ≤ r) (key : Key) (p : Property) :
    (s.put r key p).objects = s.objects := by
  rw [Store.put_objects]
  refine Array.ext_getElem? fun i => ?_
  rw [Array.getElem?_modify]
  split_ifs with same
  · rw [← same, Array.getElem?_eq_none beyond]
    rfl
  · rfl

theorem object_put_made (mem : key ∈ madeKeys) (there : r < s.objects.size) (q : Nat) :
    (s.put r key p).object q = if q = r then (s.object r).putMember key p else s.object q := by
  by_cases below : q < s.objects.size
  · rw [Store.object_put below, put_eq mem]
    split_ifs with same
    · rw [same]
    · rfl
  · rw [if_neg (by omega), Store.object_of_size_le (by rw [Store.size_put]; omega),
      Store.object_of_size_le (by omega)]

/-- A member of an object that the statements have made is set. -/
theorem Heaps.put (h : w.Heaps s t) (beyond : w.host < r) (mem : key ∈ madeKeys)
    (now : w.Properties p p') (data : ∀ g u, p.slot ≠ .accessor g u) :
    w.Heaps (s.put r key p) (t.put (w.ref r) key p') := by
  have size := h.size
  have moved := ref_of_le (Nat.le_of_lt beyond)
  by_cases there : r < s.objects.size
  · have object_s (q : Nat) := object_put_made (p := p) mem there q
    have object_t (q : Nat) := object_put_made (s := t) (r := w.ref r) (p := p') mem (by omega) q
    refine ⟨h.ready, ?_, ?_, fun {q} below => ?_, fun {q} far => ?_, fun {q} far => ?_⟩
    · rw [Store.size_put]
      exact h.more
    · rw [Store.size_put, Store.size_put, size]
    · rw [object_s, object_t, if_neg (by omega), if_neg (by omega)]
      exact h.kept below
    · rw [object_s, ← put_eq mem]
      split_ifs
      · exact (h.made beyond).put mem data
      · exact h.made far
    · rw [object_s, object_t]
      simp only [ref_injective]
      split_ifs
      · exact (h.objects beyond).putMember now key
      · exact h.objects far
  · exact h.congr (put_of_size_le (by omega) key p) (put_of_size_le (by omega) key p')

/-! ## Names -/

theorem hidden_of_lt (below : i < w.inner) : w.hidden i = w.others := if_pos below

theorem hidden_of_le (beyond : w.inner ≤ i) : w.hidden i = [] := if_neg (by omega)

theorem owner_at {s : Store} {e : Nat × Option Variable} (found : s.find? i name = some e) :
    ∃ sc, s.scopes[e.1]? = some sc ∧ (e.2 = sc.variables_.lookup name)
      ∧ (e.2 = none → sc.frame.isSome) ∧ e.1 ≤ i := by
  induction i using Nat.strongRecOn with
  | ind i ih =>
    rw [Store.find?] at found
    cases at_i : s.scopes[i]? with
    | none =>
      rw [at_i] at found
      cases found
    | some sc =>
      rw [at_i] at found
      dsimp only at found
      cases named : sc.variables_.lookup name with
      | some x =>
        rw [named] at found
        cases found
        exact ⟨sc, at_i, named.symm, by simp, Nat.le_refl i⟩
      | none =>
        rw [named] at found
        dsimp only at found
        split_ifs at found with hidden
        · cases found
          simp only [Bool.and_eq_true] at hidden
          exact ⟨sc, at_i, named.symm, fun _ => hidden.1, Nat.le_refl i⟩
        cases outer : sc.outer with
        | none =>
          rw [outer] at found
          cases found
        | some j =>
          rw [outer] at found
          dsimp only at found
          split_ifs at found with inside
          obtain ⟨sd, at_e, value, frame, le⟩ := ih j inside found
          exact ⟨sd, at_e, value, frame, by omega⟩

/-- The outermost scope has no variables. -/
theorem Chains.owner_ne (h : w.Chains s t) {e : Nat × Option Variable}
    (found : s.find? i name = some e) : e.1 ≠ 0 ∧ e.1 < s.scopes.size := by
  obtain ⟨sc, at_owner, value, frame, -⟩ := owner_at found
  refine ⟨fun zero => ?_, Store.lt_size_of_scope at_owner⟩
  rw [zero, h.outermost.1] at at_owner
  cases at_owner
  cases frame value

/-- A variable with a name that other statements declare belongs to a call. -/
theorem Chains.owner_of_hidden (h : w.Chains s t) (mem : name ∈ w.others) {o : Nat} {x : Variable}
    (found : s.find? i name = some (o, some x)) : w.inner ≤ o := by
  by_contra low
  obtain ⟨sc, at_owner, value, -⟩ := owner_at found
  rw [h.alone (Nat.lt_of_not_le low) at_owner name mem] at value
  cases value

/-- A name that other statements do not declare, or that a variable nearer than theirs has. -/
def Visible (w : Shift) (s : Store) (i : Nat) (name : String) : Prop :=
  name ∉ w.others ∨ ∃ o x, s.find? i name = some (o, some x)

/-- What a visible name stands for. -/
theorem Chains.find? (h : w.Chains s t) (visible : w.Visible s i name) (below : i < s.scopes.size) :
    Option.Rel (fun e e' => e'.1 = w.scope e.1 ∧ Option.Rel w.Variables e.2 e'.2)
      (s.find? i name) (t.find? (w.scope i) name) := by
  induction i using Nat.strongRecOn with
  | ind i ih =>
    obtain ⟨sc, at_i⟩ : ∃ sc, s.scopes[i]? = some sc := ⟨_, Array.getElem?_eq_getElem below⟩
    obtain ⟨sc', at_t, same⟩ := h.scopes at_i
    have shown : name ∉ w.hidden i := by
      intro mem
      rcases Nat.lt_or_ge i w.inner with low | high
      · rw [hidden_of_lt low] at mem
        obtain ⟨o, x, found⟩ := visible.resolve_left (absurd mem)
        have le : o ≤ i := (owner_at found).choose_spec.2.2.2
        have high := h.owner_of_hidden mem found
        omega
      · rw [hidden_of_le high] at mem
        cases mem
    have values := same.variables_ shown
    have onward (absent : sc.variables_.lookup name = none)
        (open_ : ¬ (sc.frame.isSome && name == "arguments") = true) {outer : Nat}
        (outer_eq : sc.outer = some outer) (inside : outer < i) : w.Visible s outer name := by
      refine visible.imp_right fun ⟨o, x, found⟩ => ⟨o, x, ?_⟩
      rw [Store.find?, at_i] at found
      dsimp only at found
      rw [absent] at found
      dsimp only at found
      rw [if_neg open_, outer_eq] at found
      dsimp only at found
      rwa [if_pos inside] at found
    rw [Store.find?, Store.find?, at_i, at_t]
    dsimp only
    generalize value : sc.variables_.lookup name = x, sc'.variables_.lookup name = x' at values
    cases values with
    | some related => exact .some ⟨rfl, .some related⟩
    | none =>
      have frames : sc'.frame.isSome = sc.frame.isSome := by
        have frame := same.frame
        generalize sc.frame = f, sc'.frame = f' at frame
        cases frame <;> rfl
      dsimp only
      rw [frames, same.outer]
      split_ifs with open_
      · exact .some ⟨rfl, .none⟩
      cases outer_eq : sc.outer with
      | none => exact .none
      | some outer =>
        simp only [Option.map_some, scope_lt]
        split_ifs with inside
        · exact ih outer inside (onward value open_ outer_eq inside) (Nat.lt_trans inside below)
        · exact .none

theorem Chains.current? (h : w.Chains s t) (visible : w.Visible s i name)
    (below : i < s.scopes.size) :
    Option.Rel w.Values (s.current? i name) (t.current? (w.scope i) name) := by
  rw [Store.current?_eq, Store.current?_eq]
  have same := h.find? visible below
  generalize s.find? i name = e, t.find? (w.scope i) name = e' at same
  cases same with
  | none => exact .none
  | @some e e' related =>
    obtain ⟨owner, x⟩ := e
    obtain ⟨owner', x'⟩ := e'
    obtain ⟨-, inner⟩ := related
    cases inner with
    | none => exact .none
    | some same => exact same.value

theorem turns_setNamed {sc : Scope} (there : (sc.variables_.lookup name).isSome) (x : Variable) :
    sc.Turns { sc with variables_ := Store.setNamed name x sc.variables_ } := by
  refine ⟨rfl, rfl, fun n => ?_⟩
  rw [lookup_setNamed]
  split_ifs with same
  · rw [same, there]
    rfl
  · rfl

/-- A variable that a name stands for is set. -/
theorem Chains.setVariable (h : w.Chains s t) {j : Nat} {z : Variable}
    (found : s.find? j name = some (i, some z)) {x x' : Variable} (now : w.Variables x x') :
    w.Chains (s.setVariable i name x) (t.setVariable (w.scope i) name x') := by
  have own (mem : name ∈ w.others) := h.owner_of_hidden mem found
  have inner : i ≠ 0 := (h.owner_ne found).1
  have outermost : w.scope i ≠ 0 := by
    unfold scope
    split_ifs <;> omega
  have kept {n : String} (mem : n ∈ w.others) (low : i < w.inner) : n ≠ name := by
    rintro rfl
    have high := own mem
    omega
  refine ⟨h.outer, ?_, ?_, ?_, fun {j sc} at_j => ?_, fun {j sc} low at_j n mem => ?_,
    fun more => ?_⟩
  · simpa [Store.setVariable] using h.enough
  · simpa [Store.setVariable] using h.size
  · simpa [Store.setVariable, Array.getElem?_modify, inner, outermost] using h.outermost
  · simp only [Store.setVariable, Array.getElem?_modify] at at_j ⊢
    have moved : w.scope i = w.scope j ↔ i = j := by
      unfold scope
      split_ifs <;> omega
    simp only [moved]
    split_ifs at at_j ⊢ with here
    · obtain ⟨sd, at_s, rfl⟩ := Option.map_eq_some_iff.1 at_j
      obtain ⟨sd', at_t, same⟩ := h.scopes at_s
      refine ⟨_, Option.map_eq_some_iff.2 ⟨sd', at_t, rfl⟩, same.outer, same.frame,
        fun {n} out => ?_⟩
      rw [lookup_setNamed, lookup_setNamed]
      split_ifs
      · exact .some now
      · exact same.variables_ out
    · exact h.scopes at_j
  · simp only [Store.setVariable, Array.getElem?_modify] at at_j
    split_ifs at at_j with same
    · obtain ⟨sd, at_s, rfl⟩ := Option.map_eq_some_iff.1 at_j
      rw [lookup_setNamed, if_neg (kept mem (same ▸ low))]
      exact h.alone low at_s n mem
    · exact h.alone low at_j n mem
  · obtain ⟨sc, at_home, turns, others⟩ := h.home more
    simp only [Store.setVariable, Array.getElem?_modify]
    split_ifs with home
    · have low : i < w.inner := by
        unfold scope at home
        split_ifs at home <;> omega
      have there : (sc.variables_.lookup name).isSome := by
        obtain ⟨sd, at_s, value, -⟩ := owner_at found
        obtain ⟨sd', at_t, same⟩ := h.scopes at_s
        rw [home, at_home] at at_t
        cases at_t
        have shown : name ∉ w.hidden i := by
          rw [hidden_of_lt low]
          exact fun mem => Nat.not_le.2 low (own mem)
        have values := same.variables_ shown
        rw [← value] at values
        generalize sc.variables_.lookup name = b at values ⊢
        cases values
        rfl
      refine ⟨_, Option.map_eq_some_iff.2 ⟨sc, at_home, rfl⟩, turns.trans (turns_setNamed there _),
        fun n mem => ?_⟩
      rw [lookup_setNamed, if_neg (kept mem low)]
      exact others n mem
    · exact ⟨sc, at_home, turns, others⟩

theorem Chains.openScope (h : w.Chains s t) {sc sc' : Scope} (same : w.Scopes [] sc sc') :
    w.Chains (s.openScope sc).2 (t.openScope sc').2 := by
  have outer := h.outer
  have enough := h.enough
  have size := h.size
  refine ⟨outer, ?_, ?_, ?_, fun {j sd} at_j => ?_, fun {j sd} low at_j => ?_, fun more => ?_⟩
  · simp only [Store.openScope, Array.size_push]
    omega
  · simp only [Store.openScope, Array.size_push]
    omega
  · simp only [Store.openScope, Array.getElem?_push]
    rw [if_neg (by omega), if_neg (by omega)]
    exact h.outermost
  · simp only [Store.openScope, Array.getElem?_push] at at_j ⊢
    have moved : w.scope j = t.scopes.size ↔ j = s.scopes.size := by
      unfold scope
      split_ifs <;> omega
    simp only [moved]
    split_ifs at at_j ⊢ with last
    · cases at_j
      rw [hidden_of_le (last ▸ enough)]
      exact ⟨sc', rfl, same⟩
    · exact h.scopes at_j
  · simp only [Store.openScope, Array.getElem?_push] at at_j
    rw [if_neg (by omega)] at at_j
    exact h.alone low at_j
  · simp only [Store.openScope, Array.getElem?_push]
    rw [if_neg (by omega)]
    exact h.home more

theorem Chains.pop (h : w.Chains s t) (inner : w.inner < s.scopes.size) :
    w.Chains { s with scopes := s.scopes.pop } { t with scopes := t.scopes.pop } := by
  have outer := h.outer
  have size := h.size
  refine ⟨outer, ?_, ?_, ?_, fun {j sc} at_j => ?_, fun {j sc} low at_j => ?_, fun more => ?_⟩
  · simp only [Array.size_pop]
    omega
  · simp only [Array.size_pop]
    omega
  · simp only [Array.getElem?_pop]
    rw [if_pos (by omega), if_pos (by omega)]
    exact h.outermost
  · simp only [Array.getElem?_pop] at at_j ⊢
    split_ifs at at_j with below
    rw [if_pos (by unfold scope; split_ifs <;> omega)]
    exact h.scopes at_j
  · simp only [Array.getElem?_pop] at at_j
    rw [if_pos (by omega)] at at_j
    exact h.alone low at_j
  · simp only [Array.getElem?_pop]
    rw [if_pos (by omega)]
    exact h.home more

/-! ## What is done in both -/

theorem Chains.congr {u v : Store} (h : w.Chains s t) (same : u.scopes = s.scopes)
    (same' : v.scopes = t.scopes) : w.Chains u v := by
  refine ⟨h.outer, same ▸ h.enough, ?_, ?_, fun {i sc} => ?_, fun {i sc} => same ▸ h.alone, ?_⟩
  all_goals rw [same']
  · rw [same]
    exact h.size
  · rw [same]
    exact h.outermost
  · rw [same]
    exact h.scopes
  · exact h.home

theorem kind_put_of_closure {f : Function} {j : Nat}
    (closure : (o.put key p).kind = .closure f j) : o.kind = .closure f j := by
  obtain same | ⟨_, _, _, _, _, _, i, rfl, rfl⟩ := Object.put_cases o key p
  · rwa [same, Object.kind_putMember] at closure
  · cases closure

theorem put_eq_modifyObject (other : ∀ i names, (s.object r).kind ≠ .arguments i names)
    (key : Key) (p : Property) : s.put r key p = s.modifyObject r (·.put key p) := by
  rw [Store.put, parameter?_none other]

theorem grows_of_closures {u : Store} (scopes : u.scopes = s.scopes)
    (keepers : u.keepers = s.keepers)
    (closures : ∀ r f i, (u.object r).kind = .closure f i → (s.object r).kind = .closure f i) :
    s.Grows u :=
  ⟨fun at_i => ⟨_, scopes ▸ at_i, .refl _⟩, Nat.le_of_eq keepers.symm, fun _ => closures⟩

theorem grows_alloc (plain : ∀ f i, o.kind ≠ .closure f i) : s.Grows (s.alloc o).2 := by
  refine grows_of_closures rfl rfl fun r f i kind => ?_
  rw [Store.object_alloc] at kind
  split_ifs at kind
  · exact absurd kind (plain f i)
  · exact kind

theorem grows_put (other : ∀ i names, (s.object r).kind ≠ .arguments i names) :
    s.Grows (s.put r key p) := by
  rw [put_eq_modifyObject other]
  refine grows_of_closures rfl rfl fun q f i kind => ?_
  rw [← put_eq_modifyObject other] at kind
  obtain same | same := Store.object_put_cases s r key p q
  · rwa [same] at kind
  · rw [same] at kind
    exact kind_put_of_closure kind

theorem grows_keeping (more : s.keepers < t.keepers) (scopes : t.scopes = s.scopes) :
    s.Grows t :=
  ⟨fun at_i => ⟨_, scopes ▸ at_i, .refl _⟩, Nat.le_of_lt more, fun same => by omega⟩

theorem grows_setVariable {j : Nat} {z : Variable} (found : s.find? j name = some (i, some z))
    (x : Variable) : s.Grows (s.setVariable i name x) where
  scopes {k sc} at_k := by
    simp only [Store.setVariable, Array.getElem?_modify]
    split_ifs with same
    · obtain ⟨sd, at_i, value, -⟩ := owner_at found
      obtain rfl : sc = sd := Option.some.inj (at_k.symm.trans (same ▸ at_i))
      exact ⟨_, Option.map_eq_some_iff.2 ⟨sc, at_k, rfl⟩, turns_setNamed (by rw [← value]; rfl) x⟩
    · exact ⟨sc, at_k, .refl sc⟩
  keepers := Nat.le_refl _
  closures _ _ _ _ kind := kind

theorem grows_openScope (sc : Scope) : s.Grows (s.openScope sc).2 where
  scopes {i sd} at_i := by
    have below := Store.lt_size_of_scope at_i
    refine ⟨sd, ?_, .refl sd⟩
    rw [Store.openScope, Array.getElem?_push_lt below, ← Array.getElem?_eq_getElem below, at_i]
  keepers := Nat.le_refl _
  closures _ _ _ _ kind := kind

namespace Meet

theorem alloc (m : w.Meet s t) (same : w.Objects o o') (made : IsMade o)
    (plain : ∀ f i, o.kind ≠ .closure f i) : w.Meet (s.alloc o).2 (t.alloc o').2 where
  heaps := m.heaps.alloc same made
  chains := m.chains.congr rfl rfl
  closures {r f i} beyond kind := by
    rw [Store.object_alloc] at kind
    split_ifs at kind with here
    · exact absurd kind (plain f i)
    · obtain ⟨g, bound, there, twins, binds⟩ := m.closures beyond kind
      have other : w.ref r ≠ t.objects.size := by
        rw [← m.heaps.ref_size]
        exact fun same => here (ref_injective.1 same)
      refine ⟨g, bound, ?_, twins, binds.grows (grows_alloc plain)⟩
      rwa [Store.object_alloc, if_neg other]
  symbols := m.symbols
  keepers := m.keepers
  console := m.console

/-- A function is made. -/
theorem keep (m : w.Meet s t) (same : w.Objects o o') (made : IsMade o) {f g : Function}
    {bound : List String} (kind : o.kind = .closure f i) (kind' : o'.kind = .closure g (w.scope i))
    (twins : Function.Twins w.others bound f g) (binds : s.Binds i bound) :
    w.Meet (s.keepScope.alloc o).2 (t.keepScope.alloc o').2 where
  heaps := (m.heaps.alloc same made).congr rfl rfl
  chains := m.chains.congr rfl rfl
  closures {r f' j} beyond closure := by
    have grows : s.Grows (s.keepScope.alloc o).2 := grows_keeping (Nat.lt_succ_self _) rfl
    have made_s : (s.keepScope.alloc o).2.object r
        = if r = s.objects.size then o else s.object r := Store.object_alloc s.keepScope o r
    have made_t : (t.keepScope.alloc o').2.object (w.ref r)
        = if w.ref r = t.objects.size then o' else t.object (w.ref r) :=
      Store.object_alloc t.keepScope o' (w.ref r)
    rw [made_s] at closure
    rw [made_t, ← m.heaps.ref_size]
    simp only [ref_injective]
    split_ifs at closure ⊢
    · cases kind.symm.trans closure
      exact ⟨g, bound, kind', twins, binds.grows grows⟩
    · obtain ⟨g, bound, there, twins, binds⟩ := m.closures beyond closure
      exact ⟨g, bound, there, twins, binds.grows grows⟩
  symbols := m.symbols
  keepers := by
    have same := m.keepers
    change t.keepers + 1 = s.keepers + 1 + w.keepers
    omega
  console := m.console

theorem unmapped (m : w.Meet s t) (other : r ≠ w.host) :
    (∀ i names, (s.object r).kind ≠ .arguments i names)
      ∧ ∀ i names, (t.object (w.ref r)).kind ≠ .arguments i names :=
  (m.heaps.object other).kind.unmapped

theorem put (m : w.Meet s t) (beyond : w.host < r) (mem : key ∈ madeKeys) (now : w.Properties p p')
    (data : ∀ g u, p.slot ≠ .accessor g u) :
    w.Meet (s.put r key p) (t.put (w.ref r) key p') := by
  have other := m.unmapped (Nat.ne_of_gt beyond)
  have heaps := m.heaps.put beyond mem now data
  have grows : s.Grows (s.put r key p) := grows_put other.1
  have kept (q : Nat) : ((t.put (w.ref r) key p').object q).kind = (t.object q).kind := by
    obtain same | same := Store.object_put_cases t (w.ref r) key p' q
    · rw [same]
    · rw [same, put_eq mem, Object.kind_putMember]
  have closures {q : Nat} {f : Function} {i : Nat} (far : w.host < q)
      (kind : ((s.put r key p).object q).kind = .closure f i) :
      ∃ g bound, ((t.put (w.ref r) key p').object (w.ref q)).kind = .closure g (w.scope i)
        ∧ Function.Twins w.others bound f g ∧ (s.put r key p).Binds i bound := by
    have before : (s.object q).kind = .closure f i := by
      obtain same | same := Store.object_put_cases s r key p q
      · rwa [same] at kind
      · rw [same] at kind
        exact kind_put_of_closure kind
    obtain ⟨g, bound, at_t, twins, binds⟩ := m.closures far before
    exact ⟨g, bound, (kept _).trans at_t, twins, binds.grows grows⟩
  rw [put_eq_modifyObject other.1] at heaps closures ⊢
  rw [put_eq_modifyObject other.2] at heaps closures ⊢
  exact ⟨heaps, m.chains.congr rfl rfl, closures, m.symbols, m.keepers, m.console⟩

theorem log (m : w.Meet s t) (line : Bytes) : w.Meet (s.log line) (t.log line) where
  heaps := m.heaps.congr rfl rfl
  chains := m.chains.congr rfl rfl
  closures beyond kind := by
    obtain ⟨g, bound, at_t, twins, binds⟩ := m.closures beyond kind
    exact ⟨g, bound, at_t, twins,
      binds.grows (grows_of_closures rfl rfl fun _ _ _ kind => kind)⟩
  symbols := m.symbols
  keepers := m.keepers
  console := congrArg (line :: ·) m.console

theorem setVariable (m : w.Meet s t) {j : Nat} {z : Variable}
    (found : s.find? j name = some (i, some z)) {x x' : Variable} (now : w.Variables x x') :
    w.Meet (s.setVariable i name x) (t.setVariable (w.scope i) name x') where
  heaps := m.heaps.congr rfl rfl
  chains := m.chains.setVariable found now
  closures beyond kind := by
    obtain ⟨g, bound, at_t, twins, binds⟩ := m.closures beyond kind
    exact ⟨g, bound, at_t, twins, binds.grows (grows_setVariable found x)⟩
  symbols := m.symbols
  keepers := m.keepers
  console := m.console

theorem openScope (m : w.Meet s t) {sc sc' : Scope} (same : w.Scopes [] sc sc') :
    w.Meet (s.openScope sc).2 (t.openScope sc').2 where
  heaps := m.heaps.congr rfl rfl
  chains := m.chains.openScope same
  closures beyond kind := by
    obtain ⟨g, bound, at_t, twins, binds⟩ := m.closures beyond kind
    exact ⟨g, bound, at_t, twins, binds.grows (grows_openScope sc)⟩
  symbols := m.symbols
  keepers := m.keepers
  console := m.console

theorem scope_size (m : w.Meet s t) : w.scope s.scopes.size = t.scopes.size := by
  rw [scope_of_le m.chains.enough, m.chains.size]

/-- A scope is given up in one store if it is in the other. No function that is left was made in
it. -/
theorem closeScope (m : w.Meet s t) {sc : Scope} {u v : Store} (after : w.Meet u v)
    (grows : (s.openScope sc).2.Grows u) :
    w.Meet (u.closeScope s.scopes.size s.keepers) (v.closeScope t.scopes.size t.keepers)
      ∧ s.Grows (u.closeScope s.scopes.size s.keepers) := by
  have enough := m.chains.enough
  have size := m.chains.size
  have size' := after.chains.size
  have keepers := m.keepers
  have keepers' := after.keepers
  have whole : s.Grows u := (grows_openScope sc).trans grows
  rw [Store.closeScope, Store.closeScope]
  by_cases last : u.keepers = s.keepers ∧ u.scopes.size = s.scopes.size + 1
  · have last' : v.keepers = t.keepers ∧ v.scopes.size = t.scopes.size + 1 := by omega
    have below {i : Nat} (before : i < s.scopes.size) :
        (u.scopes.pop)[i]? = u.scopes[i]? := by
      rw [Array.getElem?_pop, if_pos (by omega)]
    have kept {r : Nat} {f : Function} {i : Nat} (kind : (u.object r).kind = .closure f i) :
        (s.object r).kind = .closure f i := grows.closures last.1 r f i kind
    rw [if_pos (by simpa using last), if_pos (by simpa using last')]
    refine ⟨⟨after.heaps.congr rfl rfl, after.chains.pop (by omega), fun {r f i} beyond kind => ?_,
      after.symbols, after.keepers, after.console⟩, ⟨fun {i sd} at_i => ?_, whole.keepers,
        fun _ r f i kind => kept kind⟩⟩
    · obtain ⟨g, bound, at_t, twins, binds⟩ := after.closures beyond kind
      obtain ⟨_, _, -, -, before⟩ := m.closures beyond (kept kind)
      exact ⟨g, bound, at_t, twins, binds.congr (fun j => below) before.below⟩
    · obtain ⟨se, at_u, widens⟩ := whole.scopes at_i
      exact ⟨se, (below (Store.lt_size_of_scope at_i)).trans at_u, widens⟩
  · have last' : ¬ (v.keepers = t.keepers ∧ v.scopes.size = t.scopes.size + 1) := by omega
    rw [if_neg (by simpa using last), if_neg (by simpa using last')]
    exact ⟨after, whole⟩

end Meet

end Shift

end EggLang.Script
