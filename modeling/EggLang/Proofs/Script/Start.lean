import EggLang.Proofs.Script.BuiltIn

/-!
# What every script finds

The store in which scripts start is made member by member. Nothing has been written in it, no name
is that of a variable, arrays can be gone through, and there is a console.
-/

namespace EggLang.Script

/-! ## Members -/

namespace Object

theorem find?_modify {m : Key} {ms : List (Key × Property)} {i : Nat}
    (first : ms.findIdx? (·.1 == m) = some i) (key : Key) (p : Property) :
    (ms.modify i fun _ => (m, p)).find? (·.1 == key)
      = if key = m then some (m, p) else ms.find? (·.1 == key) := by
  induction ms generalizing i with
  | nil => cases first
  | cons e ms ih =>
    obtain ⟨n, q⟩ := e
    rw [List.findIdx?_cons] at first
    by_cases here : n = m
    · subst here
      rw [if_pos (beq_self_eq_true n)] at first
      cases first
      rw [List.modify_zero_cons, List.find?_cons, List.find?_cons]
      by_cases same : key = n
      · rw [if_pos same, beq_iff_eq.2 same.symm]
      · rw [if_neg same, beq_eq_false_iff_ne.2 (Ne.symm same)]
    · rw [if_neg (by simpa using here)] at first
      obtain ⟨j, found, rfl⟩ := Option.map_eq_some_iff.1 first
      rw [List.modify_succ_cons, List.find?_cons, List.find?_cons, ih found]
      by_cases there : n = key
      · subst there
        rw [beq_self_eq_true, if_neg here, if_neg here]
      · rw [beq_eq_false_iff_ne.2 there]

theorem member?_putMember (o : Object) (m key : Key) (p : Property) :
    (o.putMember m p).member? key = if key = m then some p else o.member? key := by
  rw [putMember]
  cases found : o.find? m with
  | some i =>
    have first : o.members.toList.findIdx? (·.1 == m) = some i := by
      rw [← found, find?, List.findIdx?_toArray]
    simp only [member?, ← Array.find?_toList, Array.toList_modify, find?_modify first]
    split_ifs <;> rfl
  | none =>
    have absent : o.members.find? (·.1 == m) = none := by simpa [find?] using found
    simp only [member?, Array.find?_push]
    by_cases same : key = m
    · subst same
      simp [absent]
    · simp [same, Ne.symm same]

/-- What is under a key that names no place is among the members, whatever the sort of the
object, but for the length of some. -/
theorem own?_eq_member? {key : Key} (noIndex : key.index? = none) (other : key ≠ lengthKey)
    (o : Object) : o.own? key = o.member? key := by
  rw [own?]
  split
  · simp [noIndex, other]
  · simp [noIndex, other]
  · rfl

theorem member?_put {key : Key} (noIndex : key.index? = none) (o : Object) (m : Key)
    (p : Property) :
    (o.put m p).member? key = if key = m then some p else o.member? key := by
  cases m with
  | name | symbol =>
    all_goals
      rw [put]
      · exact member?_putMember o _ _ p
      · simp
  | index i =>
    obtain ⟨kind, proto, members, isExtensible⟩ := o
    cases kind with
    | array elements length fixed =>
      have other : key ≠ .index i := by
        rintro rfl
        cases noIndex
      -- The element leaves the members, and comes back if it is not kept with the others.
      have filtered : (members.filter (·.1 != Key.index i)).find? (·.1 == key)
          = members.find? (·.1 == key) := by
        rw [Array.find?_filter]
        congr
        funext e
        by_cases here : e.1 = key
        · simp [here, other]
        · simp [here]
      rw [if_neg other, put]
      simp only [member?]
      split_ifs
      · rw [filtered]
      · rw [Array.find?_push, filtered]
        simp [Ne.symm other]
    | _ => exact member?_putMember _ _ _ p

/-- Whether parameters of a call stand for members of the object. -/
def isMapped (o : Object) : Bool :=
  match o.kind with
  | .arguments .. => true
  | _ => false

theorem isMapped_put (o : Object) (key : Key) (p : Property) :
    (o.put key p).isMapped = o.isMapped := by
  have member : (o.putMember key p).isMapped = o.isMapped := by
    rw [putMember]
    split <;> rfl
  obtain ⟨kind, proto, members, isExtensible⟩ := o
  cases key with
  | index i => cases kind <;> first | exact member | rfl
  | name | symbol => all_goals cases kind <;> exact member

end Object

theorem symbol_ne_lengthKey (id : Nat) : Key.symbol id ≠ lengthKey := by
  rw [lengthKey, Key.ofString, Key.ofUnits]
  split <;> exact Key.noConfusion

/-! ## Stores with more members -/

namespace Store

variable {s t u : Store} {ref id : Nat} {key : Key} {p : Property} {v : Value}

theorem own?_eq_member? (noIndex : key.index? = none) (other : key ≠ lengthKey) (s : Store)
    (ref : Nat) : s.own? ref key = (s.object ref).member? key :=
  (own?_of_name noIndex).trans (Object.own?_eq_member? noIndex other _)

theorem put_objects (s : Store) (ref : Nat) (key : Key) (p : Property) :
    (s.put ref key p).objects = s.objects.modify ref (·.put key p) := by
  rw [put]
  split <;> rfl

theorem object_put {r : Nat} (below : r < s.objects.size) (ref : Nat) (key : Key) (p : Property) :
    (s.put ref key p).object r = if r = ref then (s.object r).put key p else s.object r := by
  rw [object, put_objects, Array.getElem?_modify]
  by_cases here : ref = r
  · subst here
    simp [object, below]
  · rw [if_neg here, if_neg (Ne.symm here), object]

theorem own?_put (noIndex : key.index? = none) (other : key ≠ lengthKey)
    (below : ref < s.objects.size) (r : Nat) (m : Key) (p : Property) :
    (s.put r m p).own? ref key = if ref = r ∧ key = m then some p else s.own? ref key := by
  rw [own?_eq_member? noIndex other, own?_eq_member? noIndex other, object_put below]
  by_cases here : ref = r
  · simp [here, Object.member?_put noIndex]
  · simp [here]

theorem put_console (s : Store) (ref : Nat) (key : Key) (p : Property) :
    (s.put ref key p).console = s.console := by
  rw [put]
  split <;> rfl

theorem put_scopes (plain : (s.object ref).isMapped = false) (key : Key) (p : Property) :
    (s.put ref key p).scopes = s.scopes := by
  have unmapped : s.parameter? (s.object ref) key = none := by
    rw [parameter?]
    split
    · rename_i scope names kind
      rw [Object.isMapped, kind] at plain
      cases plain
    · rfl
  rw [put, unmapped]
  rfl

/-- A store has what another one has, and more objects and members. Nothing more has been written,
the scopes are the same, and what has a value under a symbol still has one. -/
structure Furnishes (s t : Store) : Prop where
  console : t.console = s.console
  scopes : (∀ r, (s.object r).isMapped = false) →
    (∀ r, (t.object r).isMapped = false) ∧ t.scopes = s.scopes
  size : s.objects.size ≤ t.objects.size
  held {ref id : Nat} {v : Value} : s.Holds ref (.symbol id) v → ∃ v, t.Holds ref (.symbol id) v
  builtIn : s.IsBuiltIn → t.IsBuiltIn
  mute : (∀ r, s.IsMute r) → ∀ r, t.IsMute r

theorem Furnishes.refl (s : Store) : Furnishes s s :=
  ⟨rfl, fun plain => ⟨plain, rfl⟩, Nat.le_refl _, fun held => ⟨_, held⟩, id, id⟩

theorem Furnishes.trans (h : Furnishes s t) (g : Furnishes t u) : Furnishes s u where
  console := g.console.trans h.console
  scopes plain := by
    obtain ⟨plain, same⟩ := h.scopes plain
    exact ⟨(g.scopes plain).1, (g.scopes plain).2.trans same⟩
  size := Nat.le_trans h.size g.size
  held held := by
    obtain ⟨v, held⟩ := h.held held
    exact g.held held
  builtIn found := g.builtIn (h.builtIn found)
  mute silent := g.mute (h.mute silent)

theorem object_alloc (s : Store) (o : Object) (ref : Nat) :
    (s.alloc o).2.object ref = if ref = s.objects.size then o else s.object ref := by
  rw [object, alloc, Array.getElem?_push]
  split_ifs <;> rfl

theorem size_alloc (s : Store) (o : Object) : (s.alloc o).2.objects.size = s.objects.size + 1 :=
  Array.size_push _

theorem size_put (s : Store) (ref : Nat) (key : Key) (p : Property) :
    (s.put ref key p).objects.size = s.objects.size := by
  rw [put_objects, Array.size_modify]

theorem object_of_size_le {r : Nat} (beyond : s.objects.size ≤ r) : s.object r = {} := by
  rw [object, Array.getElem?_eq_none beyond]
  rfl

/-- An object after a member of one was set. -/
theorem object_put_cases (s : Store) (ref : Nat) (key : Key) (p : Property) (r : Nat) :
    (s.put ref key p).object r = s.object r
      ∨ (s.put ref key p).object r = (s.object r).put key p := by
  by_cases below : r < s.objects.size
  · rw [object_put below]
    split_ifs
    · exact .inr rfl
    · exact .inl rfl
  · have beyond := Nat.le_of_not_lt below
    rw [object_of_size_le beyond, object_of_size_le (by rwa [size_put])]
    exact .inl rfl

/-- An object that is made for scripts to find: its prototype is one of those that the rules refer
to. -/
structure IsFixture (n : Nat) (o : Object) : Prop where
  builtIn : o.IsBuiltIn n
  proto : ∃ i : Intrinsic, o.proto = some i.ref
  unmapped : o.isMapped = false

theorem Intrinsic.ref_lt (i : Intrinsic) : i.ref < 24 := by cases i <;> decide

theorem IsBuiltIn.alloc (h : s.IsBuiltIn) {o : Object} (made : IsFixture (s.objects.size + 1) o) :
    (s.alloc o).2.IsBuiltIn := by
  have enough := h.enough
  refine ⟨by rw [size_alloc]; omega, fun r => ?_, fun {r p} => ?_⟩
  all_goals rw [object_alloc, size_alloc]
  · split_ifs
    · exact made.builtIn
    · exact (h.objects r).mono (Nat.le_succ _)
  · split_ifs with here
    · obtain ⟨i, proto⟩ := made.proto
      intro same
      obtain rfl : i.ref = p := Option.some.inj (proto.symm.trans same)
      have below := Intrinsic.ref_lt i
      refine ⟨by omega, ?_⟩
      have last : chainBound s.objects.size = s.objects.size := chainBound_of_two_le (by omega)
      rw [here, last]
      exact chainBound_lt (by omega) (by omega)
    · exact fun same => ⟨Nat.lt_succ_of_lt (h.protos same).1, (h.protos same).2⟩

theorem IsBuiltIn.put (h : s.IsBuiltIn) (ref : Nat)
    (builtIn : p.IsBuiltIn s.objects.size key) : (s.put ref key p).IsBuiltIn := by
  refine ⟨(size_put s ref key p).symm ▸ h.enough, fun r => ?_, fun {r q} => ?_⟩
  all_goals rw [size_put]; obtain same | same := object_put_cases s ref key p r
  · exact same ▸ h.objects r
  · exact same ▸ (h.objects r).put builtIn
  · exact same ▸ h.protos
  · rw [same, Object.proto_put]
    exact h.protos

theorem isMute_alloc {o : Object} (silent : o.kind ≠ .native .log) {r : Nat} (mute : s.IsMute r) :
    (s.alloc o).2.IsMute r := by
  rw [IsMute, object_alloc]
  split_ifs
  · exact silent
  · exact mute

theorem isMute_put {r : Nat} (mute : s.IsMute r) (ref : Nat) (key : Key) (p : Property) :
    (s.put ref key p).IsMute r := by
  obtain same | same := object_put_cases s ref key p r
  · rwa [IsMute, same]
  · rw [IsMute, same]
    exact fun native => mute (Object.kind_put_of_native native)

theorem Furnishes.alloc (h : Furnishes s t) {o : Object} (made : IsFixture (t.objects.size + 1) o)
    (silent : o.kind ≠ .native .log) : Furnishes s (t.alloc o).2 := by
  have more := extends_alloc 0 t o
  refine h.trans ⟨rfl, fun others => ⟨fun r => ?_, rfl⟩, more.moreObjects,
    fun held => ⟨_, held.extends rfl more⟩, fun found => found.alloc made,
    fun mute r => isMute_alloc silent (mute r)⟩
  rw [object_alloc]
  split_ifs
  · exact made.unmapped
  · exact others r

theorem isMapped_put {r : Nat} (plain : (s.object r).isMapped = false) (ref : Nat) (key : Key)
    (p : Property) : ((s.put ref key p).object r).isMapped = false := by
  by_cases below : r < s.objects.size
  · rw [object_put below]
    split_ifs
    · rw [Object.isMapped_put, plain]
    · exact plain
  · rw [object, put_objects, Array.getElem?_eq_none (by simpa using below)]
    rfl

theorem put_held (valued : key.isSymbol = true → ∃ v w, p.slot = .value v w) {r : Nat}
    (held : s.Holds r (.symbol id) v) : ∃ v, (s.put ref key p).Holds r (.symbol id) v := by
  have below := held.lt_size
  obtain ⟨q, w, own, value⟩ := held
  have now := own?_put (show (Key.symbol id).index? = none from rfl) (symbol_ne_lengthKey id) below
    ref key p
  split_ifs at now with there
  · obtain ⟨-, rfl⟩ := there
    obtain ⟨v, w, value⟩ := valued rfl
    exact ⟨v, p, w, now, value⟩
  · exact ⟨v, q, w, now.trans own, value⟩

/-- A member that is under no symbol unless it has a value. -/
theorem Furnishes.put (h : Furnishes s t)
    (valued : key.isSymbol = true → ∃ v w, p.slot = .value v w)
    (builtIn : t.IsBuiltIn → p.IsBuiltIn t.objects.size key) : Furnishes s (t.put ref key p) :=
  h.trans ⟨put_console t ref key p,
    fun plain => ⟨fun r => isMapped_put (plain r) ref key p, put_scopes (plain ref) key p⟩,
    by simp [put_objects], put_held valued, fun found => found.put ref (builtIn found),
    fun mute r => isMute_put (mute r) ref key p⟩

theorem Furnishes.put_value (h : Furnishes s t) {w : Bool} (value : p.slot = .value v w)
    (below : t.IsBuiltIn → v.Below t.objects.size) : Furnishes s (t.put ref key p) :=
  h.put (fun _ => ⟨v, w, value⟩) fun found => Property.isBuiltIn_of_value value (below found)

theorem ofString_not_symbol (name : String) : (Key.ofString name).isSymbol = false := by
  rw [Key.ofString, Key.ofUnits]
  split <;> rfl

theorem Furnishes.put_accessor (h : Furnishes s t) {name : String} {g u : Option Nat}
    (other : Key.ofString name ∉ conversionKeys) (slot : p.slot = .accessor g u)
    (getter : ∀ r ∈ g, r < t.objects.size)
    (setter : ∀ r ∈ u, r < t.objects.size) : Furnishes s (t.put ref (.ofString name) p) := by
  refine h.put (fun symbol => by simp [ofString_not_symbol] at symbol) fun _ =>
    ⟨?_, ?_, ?_, fun _ => other⟩
  · simp [slot]
  · simp [slot]
  · intro g' u' same
    rw [slot] at same
    cases same
    exact ⟨getter, setter⟩

end Store

/-! ## How the first store is made -/

namespace Start

open Store (Furnishes size_alloc size_put)

variable {s t : Store} {holder arity : Nat} {key : Key} {name word : String} {v : Value}
  {f : Native} {i : Intrinsic} {c : Constructor}

theorem furnishes_foldl {α : Type} {make : Store → α → Store} {as : List α} (h : Furnishes s t)
    (each : ∀ t, ∀ a ∈ as, Furnishes s t → Furnishes s (make t a)) :
    Furnishes s (as.foldl make t) := by
  induction as generalizing t with
  | nil => exact h
  | cons a as ih =>
    exact ih (each t a List.mem_cons_self h) fun t b mem => each t b (List.mem_cons_of_mem a mem)

theorem isBuiltIn_native (f : Native) (proto : Option Nat) (arity n : Nat) (name : Units) :
    Object.IsBuiltIn n
      { kind := .native f, proto, members := Action.functionMembers arity name } := by
  refine ⟨.native f, fun e mem => ?_⟩
  simp only [Action.functionMembers, List.mem_toArray, List.mem_cons, List.not_mem_nil,
    or_false] at mem
  rcases mem with rfl | rfl
  all_goals exact Property.isBuiltIn_of_value rfl (Value.below_of_primitive rfl n)

theorem isFixture_function (f : Native) (name : String) (arity n : Nat) :
    Store.IsFixture n
      { kind := .native f, proto := some Intrinsic.functionPrototype.ref
        members := Action.functionMembers arity (Units.ofString name) } where
  builtIn := isBuiltIn_native f _ arity n _
  proto := ⟨.functionPrototype, rfl⟩
  unmapped := rfl

theorem furnishes_function (h : Furnishes s t)
    (silent : f ≠ .log := by exact Native.noConfusion) :
    Furnishes s (function f name arity t).2 :=
  h.alloc (isFixture_function f name arity _) fun same => silent (ObjectKind.native.inj same)

theorem furnishes_give (h : Furnishes s t) (below : t.IsBuiltIn → v.Below t.objects.size) :
    Furnishes s (give holder key v t) :=
  h.put_value rfl below

theorem furnishes_giveConstant (h : Furnishes s t) (below : t.IsBuiltIn → v.Below t.objects.size) :
    Furnishes s (giveConstant holder key v t) :=
  h.put_value rfl below

theorem furnishes_readOnly (h : Furnishes s t) (primitive : v.isPrimitive = true) :
    Furnishes s (t.put holder key (.readOnly v)) :=
  h.put_value rfl fun _ => Value.below_of_primitive primitive _

theorem below_object {ref n : Nat} (below : ref < n) : (Value.object ref).Below n := by
  rintro r ⟨⟩
  exact below

theorem size_function (f : Native) (name : String) (arity : Nat) (s : Store) :
    (function f name arity s).2.objects.size = s.objects.size + 1 := size_alloc s _

theorem lt_size_function (f : Native) (name : String) (arity : Nat) (s : Store) :
    (function f name arity s).1 < (function f name arity s).2.objects.size := by
  rw [size_function]
  exact Nat.lt_succ_self _

theorem furnishes_giveFunction (h : Furnishes s t)
    (silent : f ≠ .log := by exact Native.noConfusion) :
    Furnishes s (giveFunction holder key f name arity t) :=
  furnishes_give (furnishes_function h silent) fun _ =>
    below_object (lt_size_function f name arity t)

theorem furnishes_giveTable {α : Type} {make : α → Native} {table : List (α × String × Nat)}
    (h : Furnishes s t) (silent : ∀ a, make a ≠ .log := by exact fun _ => Native.noConfusion) :
    Furnishes s (giveTable holder make table t) :=
  furnishes_foldl h fun _ e _ more => furnishes_giveFunction more (silent e.1)

theorem furnishes_giveGetter (h : Furnishes s t)
    (silent : f ≠ .log := by exact Native.noConfusion)
    (other : Key.ofString name ∉ conversionKeys := by decide) :
    Furnishes s (giveGetter holder name f t) := by
  refine (furnishes_function h silent).put_accessor other rfl ?_ (by simp)
  rintro r ⟨⟩
  exact lt_size_function f _ 0 t

theorem furnishes_constructor (h : Furnishes s t) : Furnishes s (constructor c t).2 := by
  have size : (function (.construct c) c.name c.arity t).2.objects.size = t.objects.size + 1 :=
    size_function _ _ _ t
  rw [constructor]
  dsimp only
  refine furnishes_give (furnishes_give (furnishes_giveConstant
    (furnishes_function h) fun found => ?_) fun _ => ?_) fun _ => ?_
  · exact below_object (Nat.lt_of_lt_of_le (Store.Intrinsic.ref_lt _) found.enough)
  · refine below_object ?_
    rw [giveConstant, size_put, size]
    exact Nat.lt_succ_self _
  · refine below_object ?_
    rw [give, size_put, giveConstant, size_put, size]
    exact Nat.lt_succ_self _

theorem isFixture_plain {n : Nat} :
    Store.IsFixture n { proto := some Intrinsic.objectPrototype.ref } :=
  ⟨⟨.plain, by simp⟩, ⟨_, rfl⟩, rfl⟩

theorem furnishes_named (h : Furnishes s t) : Furnishes s (named name t).2 := by
  have size : (t.alloc { proto := some Intrinsic.objectPrototype.ref }).2.objects.size
      = t.objects.size + 1 := size_alloc t _
  exact furnishes_give (h.alloc isFixture_plain (by simp)) fun _ =>
    below_object (Nat.lt_of_lt_of_eq (Nat.lt_succ_self _) size.symm)

theorem furnishes_withObjects (h : Furnishes s t) : Furnishes s (withObjects t) := by
  rw [withObjects]
  dsimp only
  refine furnishes_giveConstant (furnishes_function (furnishes_giveTable ?_)) fun _ =>
    below_object (lt_size_function _ _ _ _)
  refine furnishes_constructor (Furnishes.put_accessor ?_ (by decide) rfl ?_ ?_)
  · refine furnishes_function (furnishes_function (furnishes_giveTable (furnishes_giveTable ?_)))
    exact furnishes_constructor h
  · intro r same
    rw [← Option.mem_some.1 same, size_function]
    exact Nat.lt_succ_of_lt (lt_size_function _ _ _ _)
  · intro r same
    rw [← Option.mem_some.1 same]
    exact lt_size_function _ _ _ _

theorem below_primitive (primitive : v.isPrimitive = true) : t.IsBuiltIn → v.Below t.objects.size :=
  fun _ => Value.below_of_primitive primitive _

theorem furnishes_withPrimitives (h : Furnishes s t) : Furnishes s (withPrimitives t) := by
  rw [withPrimitives]
  dsimp only
  refine furnishes_readOnly
    (furnishes_giveGetter (furnishes_giveTable (furnishes_giveTable ?_))) rfl
  refine furnishes_foldl (furnishes_constructor ?_) fun _ _ _ more =>
    furnishes_giveConstant more (below_primitive rfl)
  refine furnishes_giveTable (furnishes_constructor ?_)
  refine furnishes_giveFunction (furnishes_giveFunction ?_)
  refine furnishes_foldl ?_ fun _ _ _ more => furnishes_giveConstant more (below_primitive rfl)
  refine furnishes_giveTable (furnishes_giveTable (furnishes_constructor ?_))
  exact furnishes_giveFunction (furnishes_giveTable (furnishes_giveTable (furnishes_constructor h)))

theorem furnishes_withErrors (h : Furnishes s t) : Furnishes s (withErrors t) := by
  refine furnishes_giveFunction (furnishes_foldl h fun t kind _ h => ?_)
  dsimp only
  exact furnishes_give (furnishes_give (furnishes_constructor h) (below_primitive rfl))
    (below_primitive rfl)

theorem furnishes_withCollections (h : Furnishes s t) : Furnishes s (withCollections t) := by
  rw [withCollections]
  dsimp only
  refine furnishes_foldl (furnishes_giveFunction (furnishes_readOnly ?_ rfl)) fun t _ _ h =>
    furnishes_readOnly (furnishes_giveFunction h) rfl
  refine furnishes_giveFunction (furnishes_giveFunction (furnishes_giveGetter ?_))
  refine furnishes_giveTable (furnishes_constructor (furnishes_readOnly
    (furnishes_giveFunction ?_) rfl))
  refine furnishes_giveGetter (furnishes_giveTable (furnishes_constructor ?_))
  have flags : ∀ e ∈ withCollections.flagNames, Key.ofString e.2 ∉ conversionKeys := by decide
  refine furnishes_foldl ?_ fun _ e mem more =>
    furnishes_giveGetter more Native.noConfusion (flags e mem)
  refine furnishes_giveGetter (furnishes_giveGetter (furnishes_giveTable ?_))
  exact furnishes_constructor h

/-- The object that is the console, with the function that writes a line. -/
def consoleObject (log : Nat) : Object where
  proto := some Intrinsic.objectPrototype.ref
  members := #[(.ofString "log", .plain (.object log))]

/-- What is made last. -/
def withConsole (s : Store) : Store :=
  let log := function .log "log" 0 s
  let console := log.2.alloc (consoleObject log.1)
  console.2.put Intrinsic.global.ref (.ofString "console") (.plain (.object console.1))

theorem withGlobals_eq (h : Furnishes s t) :
    ∃ u, Furnishes s u ∧ withGlobals t = withConsole u := by
  have made (u : Store) : withConsole u
      = ((function .log "log" 0 u).2.alloc (consoleObject (function .log "log" 0 u).1)).2.put
          Intrinsic.global.ref (.ofString "console") (.plain (.object
            ((function .log "log" 0 u).2.alloc (consoleObject (function .log "log" 0 u).1)).1)) :=
    rfl
  rw [withGlobals]
  dsimp only
  refine ⟨_, ?_, (made _).symm⟩
  refine furnishes_giveConstant (furnishes_giveConstant (furnishes_giveConstant ?_
    (below_primitive rfl)) (below_primitive rfl)) (below_primitive rfl)
  refine furnishes_give (furnishes_giveTable (furnishes_readOnly (furnishes_giveTable ?_) rfl))
    fun found => below_object (Nat.lt_of_lt_of_le (by decide) found.enough)
  refine furnishes_named (furnishes_readOnly ?_ rfl)
  refine furnishes_foldl ?_ fun _ _ _ more => furnishes_giveConstant more (below_primitive rfl)
  exact furnishes_giveTable (furnishes_named h)

/-- The console is put to what is there without another change. -/
theorem withConsole_keeps (t : Store) :
    (withConsole t).console = t.console
      ∧ ((∀ r, (t.object r).isMapped = false) → (withConsole t).scopes = t.scopes)
      ∧ ∀ {ref id : Nat} {v : Value}, t.Holds ref (.symbol id) v →
        ∃ v, (withConsole t).Holds ref (.symbol id) v := by
  let made := (function .log "log" 0 t).2
  let both := (made.alloc (consoleObject t.objects.size)).2
  have more : Store.Extends 0 t both :=
    (Store.extends_alloc 0 t _).trans (Store.extends_alloc 0 made _)
  have named (symbol : (Key.ofString "console").isSymbol = true) : ∃ v w,
      (Property.plain (.object made.objects.size)).slot = .value v w := by
    rw [Store.ofString_not_symbol] at symbol
    cases symbol
  refine ⟨Store.put_console both _ _ _, fun plain => ?_, fun held =>
    Store.put_held named (held.extends rfl more)⟩
  refine (Store.put_scopes (s := both) ?_ _ _).trans rfl
  rw [Store.object_alloc]
  split_ifs
  · rfl
  rw [show made.object _ = _ from Store.object_alloc t _ _]
  split_ifs
  · rfl
  · exact plain _

theorem put_holds {ref : Nat} (noIndex : key.index? = none) (other : key ≠ lengthKey)
    (below : ref < s.objects.size) {p : Property} {w : Bool} (value : p.slot = .value v w) :
    (s.put ref key p).Holds ref key v :=
  ⟨p, w, (Store.own?_put noIndex other below ref key p).trans (if_pos ⟨rfl, rfl⟩), value⟩

/-- The prototype of arrays gets the function that goes through an array. -/
theorem withArrays_iterator (below : Intrinsic.arrayPrototype.ref < s.objects.size) :
    ∃ v, (withArrays s).Holds Intrinsic.arrayPrototype.ref WellKnown.iterator.key v
      ∧ Furnishes s (withArrays s) := by
  rw [withArrays]
  dsimp only
  have tables : Furnishes s (giveTable Intrinsic.arrayPrototype.ref Native.array ArrayMethod.table
      (giveTable (constructor .array s).1 Native.arrayFn ArrayFn.table (constructor .array s).2)) :=
    furnishes_giveTable (furnishes_giveTable (furnishes_constructor (.refl s))
)
  exact ⟨_, put_holds rfl (symbol_ne_lengthKey _) (Nat.lt_of_lt_of_le below tables.size) rfl,
    furnishes_give tables fun found => found.below_value _ _⟩

/-- There is an object by the name `console` with a function that writes a line. -/
def HasConsole (s : Store) : Prop :=
  ∃ console log, s.Holds Intrinsic.global.ref (.ofString "console") (.object console)
    ∧ s.Holds console (.ofString "log") (.object log) ∧ (s.object log).kind = .native .log

theorem withConsole_has (below : Intrinsic.global.ref < s.objects.size) :
    HasConsole (withConsole s) := by
  have global : Intrinsic.global.ref = 0 := rfl
  let made := (function .log "log" 0 s).2
  let both := (made.alloc (consoleObject s.objects.size)).2
  have made_size : made.objects.size = s.objects.size + 1 := Array.size_push _
  have size : both.objects.size = s.objects.size + 2 := (Array.size_push _).trans (by omega)
  change HasConsole (both.put Intrinsic.global.ref (.ofString "console")
    (.plain (.object made.objects.size)))
  refine ⟨made.objects.size, s.objects.size,
    put_holds (by decide) (by decide) (by rw [size]; omega) rfl,
    ⟨.plain (.object s.objects.size), true, ?_, rfl⟩, ?_⟩
  · rw [Store.own?_put (by decide) (by decide) (by omega), if_neg (by omega),
      Store.own?_eq_member? (by decide) (by decide), Store.object_alloc, if_pos rfl]
    rfl
  · rw [Store.object_put (by omega), if_neg (by omega), Store.object_alloc, if_neg (by omega),
      show made.object s.objects.size = _ from Store.object_alloc s _ _, if_pos rfl]

/-- What is so in the store in which every script starts. -/
structure IsReady (s : Store) : Prop where
  builtIn : s.IsBuiltIn
  /-- Nothing but the function of the console writes to it, and that is found under its name
  only. -/
  mute (ref : Nat) {e : Key × Property} : e ∈ (s.object ref).members → e.2.IsMute s e.1
  silent : s.output = []
  scopes : s.scopes = #[{}]
  iterator : ∃ v, s.Holds Intrinsic.arrayPrototype.ref WellKnown.iterator.key v
  console : HasConsole s

theorem IsReady.idle (h : IsReady s) : s.frame? 0 = none := by
  rw [Store.frame?, h.scopes]
  rfl

/-- A value that refers to what was there before the console was made does not write. -/
theorem isMute_withConsole {r : Nat} (mute : ∀ r, s.IsMute r) (other : r ≠ s.objects.size) :
    (withConsole s).IsMute r := by
  refine Store.isMute_put (Store.isMute_alloc (by simp [consoleObject]) ?_) _ _ _
  rw [Store.IsMute, function, Store.object_alloc, if_neg other]
  exact mute r

theorem isBuiltIn_consoleObject {log n : Nat} (below : log < n) :
    (consoleObject log).IsBuiltIn n := by
  refine ⟨.plain, fun e mem => ?_⟩
  obtain rfl : e = _ := List.mem_singleton.1 (by simpa [consoleObject] using mem)
  exact Property.isBuiltIn_of_value rfl (below_object below)

theorem isBuiltIn_withConsole (h : s.IsBuiltIn) : (withConsole s).IsBuiltIn := by
  have made : (function .log "log" 0 s).2.IsBuiltIn := h.alloc (isFixture_function _ _ _ _)
  have both := made.alloc (o := consoleObject (function .log "log" 0 s).1)
    ⟨isBuiltIn_consoleObject (Nat.lt_succ_of_lt (lt_size_function _ _ _ _)), ⟨_, rfl⟩, rfl⟩
  refine both.put _ (Property.isBuiltIn_of_value rfl (below_object ?_))
  rw [size_alloc]
  exact Nat.lt_succ_self _

/-- What the members refer to does not write, but for one of the console. -/
theorem withConsole_mute (h : s.IsBuiltIn) (mute : ∀ r, s.IsMute r) (ref : Nat)
    {e : Key × Property} (mem : e ∈ ((withConsole s).object ref).members) :
    e.2.IsMute (withConsole s) e.1 := by
  let made := (function .log "log" 0 s).2
  let both := (made.alloc (consoleObject s.objects.size)).2
  have made_size : made.objects.size = s.objects.size + 1 := size_alloc s _
  have within (mem : e ∈ (both.object ref).members) :
      e = (.ofString "log", .plain (.object s.objects.size))
        ∨ e.2.IsBuiltIn s.objects.size e.1 := by
    rw [Store.object_alloc] at mem
    split_ifs at mem
    · exact .inl (List.mem_singleton.1 (by simpa [consoleObject] using mem))
    rw [show made.object ref = _ from Store.object_alloc s _ ref] at mem
    split_ifs at mem
    · exact .inr ((isFixture_function .log "log" 0 _).builtIn.members e mem)
    · exact .inr ((h.objects ref).members e mem)
  have old : e ∈ (both.object ref).members
      ∨ e = (.ofString "console", .plain (.object made.objects.size)) := by
    obtain same | same := Store.object_put_cases both Intrinsic.global.ref (.ofString "console")
      (.plain (.object made.objects.size)) ref
    · exact .inl (same ▸ mem)
    · exact Object.mem_put (same ▸ mem)
  rcases old with old | rfl
  · rcases within old with rfl | builtIn
    · exact ⟨fun other => absurd rfl other, fun slot => by cases slot⟩
    refine ⟨fun {r w} _ slot => ?_, fun {g u r} slot inside => ?_⟩
    · exact isMute_withConsole mute (Nat.ne_of_lt (builtIn.value slot r rfl))
    · exact isMute_withConsole mute (Nat.ne_of_lt ((builtIn.accessor slot).1 r inside))
  · refine ⟨fun {r w} _ slot => ?_, fun slot => by cases slot⟩
    obtain ⟨rfl⟩ : made.objects.size = r := Value.object.inj (Slot.value.inj slot).1
    exact isMute_withConsole mute (by omega)

theorem intrinsics_ref : intrinsics.map Intrinsic.ref = List.range 24 := by decide

/-- What is there first: no object has a member, but for the functions' prototype. -/
theorem isBuiltIn_bare {s : Store} (objects : s.objects = (intrinsics.map object).toArray) :
    s.IsBuiltIn ∧ ∀ r, s.IsMute r := by
  have size : s.objects.size = 24 := by rw [objects]; rfl
  have cases_ (r : Nat) : s.object r = {} ∨ ∃ i : Intrinsic, i.ref = r ∧ s.object r = object i := by
    rw [Store.object, objects, List.getElem?_toArray, List.getElem?_map]
    cases at_r : intrinsics[r]? with
    | none => exact .inl rfl
    | some i =>
      have same := congrArg (·[r]?) intrinsics_ref
      simp only [List.getElem?_map, at_r, Option.map_some] at same
      have below : r < 24 := (List.getElem?_eq_some_iff.1 at_r).1
      rw [List.getElem?_range below] at same
      exact .inr ⟨i, Option.some.inj same, rfl⟩
  refine ⟨⟨Nat.le_of_eq size.symm, fun r => ?_, fun {r p} proto => ?_⟩, fun r => ?_⟩
  · obtain same | ⟨i, -, same⟩ := cases_ r
    · exact same ▸ Object.isBuiltIn_absent _
    · rw [same]
      cases i with
      | functionPrototype => exact isBuiltIn_native .nothing _ 0 _ []
      | arrayPrototype => exact ⟨.array 0 false (by simp), by simp [object]⟩
      | stringPrototype | numberPrototype | booleanPrototype =>
        all_goals exact ⟨.boxed rfl, by simp [object]⟩
      | _ => exact ⟨.plain, by simp [object]⟩
  · obtain same | ⟨i, rfl, same⟩ := cases_ r
    · rw [same] at proto
      cases proto
    · rw [same] at proto
      cases i <;> cases proto <;> rw [size] <;> decide
  · obtain same | ⟨i, -, same⟩ := cases_ r
    · rw [Store.IsMute, same]
      exact ObjectKind.noConfusion
    · rw [Store.IsMute, same]
      cases i <;> simp [object]

theorem store_ready : IsReady store := by
  let bare : Store :=
    { objects := (intrinsics.map object).toArray, scopes := #[{}], symbols := symbolTexts.toArray }
  have objects : Furnishes bare (withObjects bare) := furnishes_withObjects (.refl bare)
  have enough : 24 ≤ (withObjects bare).objects.size :=
    Nat.le_trans (show 24 ≤ bare.objects.size by decide) objects.size
  obtain ⟨v, held, arrays⟩ := withArrays_iterator (Nat.lt_of_lt_of_le (by decide) enough)
  have later (t : Store) : Furnishes t (withCollections (withErrors (withPrimitives t))) :=
    furnishes_withCollections (furnishes_withErrors (furnishes_withPrimitives (.refl t)))
  obtain ⟨last, furnishes, made⟩ := withGlobals_eq (later (withArrays (withObjects bare)))
  have whole : store = withConsole last := made
  have before : Furnishes bare last := (objects.trans arrays).trans furnishes
  have plain (r : Nat) : (bare.object r).isMapped = false := by
    change (((intrinsics.map object).toArray[r]?).getD {}).isMapped = false
    rw [List.getElem?_toArray, List.getElem?_map]
    cases intrinsics[r]? with
    | none => rfl
    | some i => cases i <;> rfl
  obtain ⟨console, scopes, keeps⟩ := withConsole_keeps last
  obtain ⟨bare_builtIn, bare_mute⟩ := isBuiltIn_bare (s := bare) rfl
  have builtIn := before.builtIn bare_builtIn
  rw [whole]
  refine ⟨isBuiltIn_withConsole builtIn, withConsole_mute builtIn (before.mute bare_mute), ?_,
    (scopes (before.scopes plain).1).trans (before.scopes plain).2,
    keeps (furnishes.held held).choose_spec,
    withConsole_has (Nat.lt_of_lt_of_le (by decide) before.size)⟩
  rw [Store.output, console, before.console]
  rfl

end Start

end EggLang.Script
