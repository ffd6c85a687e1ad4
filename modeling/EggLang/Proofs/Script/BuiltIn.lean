import EggLang.Proofs.Script.Extension

/-!
# Objects as scripts find them

An object that is there before a script starts is a function of the library, an array, a boxed
primitive value or nothing special. What it refers to is there as well, and each of its members has
a value or functions that give it.
-/

namespace EggLang.Script

variable {n m : Nat} {v : Value} {p : Property} {o : Object} {key : Key} {s : Store}

/-- A value refers to one of the first `n` objects, if to any. -/
def Value.Below (n : Nat) (v : Value) : Prop := ∀ r, v = .object r → r < n

theorem Value.Below.mono (h : v.Below n) (more : n ≤ m) : v.Below m := fun r same =>
  Nat.lt_of_lt_of_le (h r same) more

/-- Whether a value is no object. -/
def Value.isPrimitive : Value → Bool
  | .object _ => false
  | _ => true

theorem Value.below_of_primitive (primitive : v.isPrimitive = true) (n : Nat) : v.Below n := by
  rintro r rfl
  cases primitive

/-- The keys under which conversions look for functions. -/
def conversionKeys : List Key :=
  [WellKnown.toPrimitive.key, .ofString "toString", .ofString "valueOf", .ofString "join",
    WellKnown.toStringTag.key]

/-- A member under a key that has a value or functions for it among the first `n` objects. What
conversions look for is a value. -/
structure Property.IsBuiltIn (n : Nat) (key : Key) (p : Property) : Prop where
  made : p.slot ≠ .unmade
  value {v : Value} {w : Bool} : p.slot = .value v w → v.Below n
  accessor {g t : Option Nat} : p.slot = .accessor g t → (∀ r ∈ g, r < n) ∧ ∀ r ∈ t, r < n
  other {g t : Option Nat} : p.slot = .accessor g t → key ∉ conversionKeys

theorem Property.IsBuiltIn.mono (h : p.IsBuiltIn n key) (more : n ≤ m) : p.IsBuiltIn m key where
  made := h.made
  value same := (h.value same).mono more
  accessor same :=
    ⟨fun r mem => Nat.lt_of_lt_of_le ((h.accessor same).1 r mem) more,
      fun r mem => Nat.lt_of_lt_of_le ((h.accessor same).2 r mem) more⟩
  other := h.other

theorem Property.isBuiltIn_of_value {w : Bool} (value : p.slot = .value v w) (below : v.Below n) :
    p.IsBuiltIn n key where
  other same := by simp [value] at same
  made := by simp [value]
  value same := by
    rw [value] at same
    cases same
    exact below
  accessor same := by simp [value] at same

/-- The sorts of the objects that scripts find. -/
inductive ObjectKind.IsBuiltIn (n : Nat) : ObjectKind → Prop where
  | plain : IsBuiltIn n .plain
  | native (f : Native) : IsBuiltIn n (.native f)
  | array {elements : Array (Option Value)} (length : Nat) (fixed : Bool) :
      (∀ v, some v ∈ elements → v.Below n) → IsBuiltIn n (.array elements length fixed)
  | boxed {v : Value} : v.isPrimitive = true → IsBuiltIn n (.boxed v)

theorem ObjectKind.IsBuiltIn.mono {kind : ObjectKind} (h : kind.IsBuiltIn n) (more : n ≤ m) :
    kind.IsBuiltIn m := by
  cases h with
  | plain => exact .plain
  | native f => exact .native f
  | array length fixed each => exact .array length fixed fun v mem => (each v mem).mono more
  | boxed primitive => exact .boxed primitive

/-- An object that refers to the first `n` objects only. -/
structure Object.IsBuiltIn (n : Nat) (o : Object) : Prop where
  kind : o.kind.IsBuiltIn n
  members : ∀ e ∈ o.members, e.2.IsBuiltIn n e.1

namespace Object

theorem IsBuiltIn.mono (h : o.IsBuiltIn n) (more : n ≤ m) : o.IsBuiltIn m :=
  ⟨h.kind.mono more, fun e mem => (h.members e mem).mono more⟩

theorem isBuiltIn_absent (n : Nat) : ({} : Object).IsBuiltIn n := ⟨.plain, by simp⟩

theorem mem_putMember {e : Key × Property} (mem : e ∈ (o.putMember key p).members) :
    e ∈ o.members ∨ e = (key, p) := by
  rw [putMember] at mem
  split at mem
  · obtain ⟨i, below, rfl⟩ := Array.mem_iff_getElem.1 mem
    rw [Array.getElem_modify]
    split_ifs
    · exact .inr rfl
    · exact .inl (Array.getElem_mem _)
  · exact Array.mem_push.1 mem

theorem kind_putMember (o : Object) (key : Key) (p : Property) :
    (o.putMember key p).kind = o.kind := by
  rw [putMember]
  split <;> rfl

theorem proto_putMember (o : Object) (key : Key) (p : Property) :
    (o.putMember key p).proto = o.proto := by
  rw [putMember]
  split <;> rfl

theorem mem_putElement {elements : Array (Option Value)} {i : Nat} {x : Value}
    (mem : some x ∈ putElement elements i v) : some x ∈ elements ∨ x = v := by
  rw [putElement] at mem
  split_ifs at mem
  · rcases Array.mem_or_eq_of_mem_setIfInBounds mem with old | same
    · exact .inl old
    · exact .inr (Option.some.inj same)
  · rcases Array.mem_push.1 mem with old | same
    · rcases Array.mem_append.1 old with old | hole
      · exact .inl old
      · cases (Array.mem_replicate.1 hole).2
    · exact .inr (Option.some.inj same)

/-- Only an array keeps a member elsewhere than among its members, and only an element. -/
theorem put_cases (o : Object) (key : Key) (p : Property) :
    o.put key p = o.putMember key p ∨ ∃ elements length fixed proto members isExtensible i,
      o = ⟨.array elements length fixed, proto, members, isExtensible⟩ ∧ key = .index i := by
  obtain ⟨kind, proto, members, isExtensible⟩ := o
  cases kind with
  | array elements length fixed =>
    cases key with
    | name | symbol => all_goals exact .inl rfl
    | index i => exact .inr ⟨_, _, _, _, _, _, i, rfl, rfl⟩
  | _ => cases key <;> exact .inl rfl

theorem proto_put (o : Object) (key : Key) (p : Property) : (o.put key p).proto = o.proto := by
  obtain same | ⟨_, _, _, _, _, _, i, rfl, rfl⟩ := put_cases o key p
  · rw [same, proto_putMember]
  · rfl

theorem kind_put_of_native {f : Native} (native : (o.put key p).kind = .native f) :
    o.kind = .native f := by
  obtain same | ⟨_, _, _, _, _, _, i, rfl, rfl⟩ := put_cases o key p
  · rwa [same, kind_putMember] at native
  · cases native

theorem mem_put {e : Key × Property} (mem : e ∈ (o.put key p).members) :
    e ∈ o.members ∨ e = (key, p) := by
  obtain same | ⟨_, _, _, _, members, _, i, rfl, rfl⟩ := put_cases o key p
  · exact mem_putMember (same ▸ mem)
  · simp only [put] at mem
    split_ifs at mem
    · exact .inl (Array.mem_filter.1 mem).1
    · exact (Array.mem_push.1 mem).imp_left fun old => (Array.mem_filter.1 old).1

theorem IsBuiltIn.put (h : o.IsBuiltIn n) (builtIn : p.IsBuiltIn n key) :
    (o.put key p).IsBuiltIn n := by
  refine ⟨?_, fun e mem => ?_⟩
  · obtain same | ⟨_, _, _, _, _, _, i, rfl, rfl⟩ := put_cases o key p
    · rw [same, kind_putMember]
      exact h.kind
    · cases h.kind with
      | array _ _ each =>
        refine .array _ _ fun v mem => ?_
        split_ifs at mem
        · rcases mem_putElement mem with old | rfl
          · exact each v old
          · rintro r same
            cases value : p.slot with
            | value w b =>
              rw [Property.value?, value] at same
              exact builtIn.value value r same
            | accessor | unmade => all_goals simp [Property.value?, value] at same
        · rcases Array.mem_or_eq_of_mem_setIfInBounds mem with old | hole
          · exact each v old
          · cases hole
        · exact each v mem
  · rcases mem_put mem with old | rfl
    · exact h.members e old
    · exact builtIn

/-- What an object has is as the object. -/
theorem IsBuiltIn.own? (h : o.IsBuiltIn n) (found : o.own? key = some p) : p.IsBuiltIn n key := by
  have member {p : Property} (found : o.member? key = some p) : p.IsBuiltIn n key := by
    obtain ⟨e, at_e, rfl⟩ := Option.map_eq_some_iff.1 found
    have same : e.1 = key := by simpa using Array.find?_some at_e
    exact same ▸ h.members e (Array.mem_of_find?_eq_some at_e)
  have primitive {v : Value} {p : Property} {w : Bool} (slot : p.slot = .value v w)
      (is : v.isPrimitive = true) : p.IsBuiltIn n key :=
    Property.isBuiltIn_of_value slot (Value.below_of_primitive is n)
  rw [Object.own?] at found
  split at found
  case h_1 elements length fixed kind =>
    have sort := h.kind
    rw [kind] at sort
    cases sort with
    | array _ _ each =>
      split at found
      · split at found
        · next v at_i =>
          cases found
          exact Property.isBuiltIn_of_value rfl (each v (Array.mem_of_getElem? at_i))
        · split_ifs at found
          exact member found
      · split_ifs at found
        · cases found
          exact primitive rfl rfl
        · exact member found
  case h_2 u kind =>
    split at found
    · split at found
      · next i _ v at_i =>
        cases found
        obtain ⟨u, -, rfl⟩ := Option.map_eq_some_iff.1 at_i
        exact primitive rfl rfl
      · exact member found
    · split_ifs at found
      · cases found
        exact primitive rfl rfl
      · exact member found
  case h_3 => exact member found

end Object

/-! ## Stores of such objects -/

/-- How many prototypes may follow on each other from an object on. They come before the objects
that have them; only the global object comes before its own. -/
def chainBound : Nat → Nat
  | 0 => 1
  | 1 => 0
  | ref => ref

theorem chainBound_lt {ref : Nat} (below : ref < n) (some_objects : 2 ≤ n) :
    chainBound ref < n := by
  unfold chainBound
  split <;> omega

theorem chainBound_of_two_le {ref : Nat} (h : 2 ≤ ref) : chainBound ref = ref := by
  unfold chainBound
  split <;> omega

/-- A store in which there is nothing but what scripts find. -/
structure Store.IsBuiltIn (s : Store) : Prop where
  enough : 24 ≤ s.objects.size
  objects (ref : Nat) : (s.object ref).IsBuiltIn s.objects.size
  protos {ref p : Nat} : (s.object ref).proto = some p →
    p < s.objects.size ∧ chainBound p < chainBound ref

namespace Store

theorem IsBuiltIn.parameter? (h : s.IsBuiltIn) (ref : Nat) (key : Key) :
    s.parameter? (s.object ref) key = none := by
  have sort := (h.objects ref).kind
  rw [Store.parameter?]
  generalize (s.object ref).kind = kind at sort
  cases sort <;> rfl

theorem IsBuiltIn.own? (h : s.IsBuiltIn) (ref : Nat) (key : Key) :
    s.own? ref key = (s.object ref).own? key := by
  rw [Store.own?]
  cases (s.object ref).own? key <;> simp [h.parameter?]

theorem IsBuiltIn.below_value (h : s.IsBuiltIn) (ref : Nat) (key : Key) :
    (((s.own? ref key).bind Property.value?).getD .undefined).Below s.objects.size := by
  rw [h.own?]
  cases found : (s.object ref).own? key with
  | none => exact Value.below_of_primitive rfl _
  | some p =>
    have builtIn := (h.objects ref).own? found
    rw [Option.bind_some, Property.value?]
    cases slot : p.slot with
    | value v w => exact builtIn.value slot
    | accessor | unmade => all_goals exact Value.below_of_primitive rfl _

end Store

/-- An object does not write to the console when it is called. -/
def Store.IsMute (s : Store) (ref : Nat) : Prop := (s.object ref).kind ≠ .native .log

/-- What a member under a key refers to does not write to the console when it is called, unless the
key is that of the function that does. -/
structure Property.IsMute (s : Store) (key : Key) (p : Property) : Prop where
  value {r : Nat} {w : Bool} : key ≠ .ofString "log" → p.slot = .value (.object r) w → s.IsMute r
  getter {g t : Option Nat} {r : Nat} : p.slot = .accessor g t → r ∈ g → s.IsMute r

end EggLang.Script
