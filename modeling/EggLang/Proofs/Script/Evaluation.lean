import EggLang.Proofs.Script.Conversions

/-!
# Statements in lockstep

Twin statements are executed in lockstep, where the names that they assign to are bound.
-/

namespace EggLang.Script.Shift

variable {w : Shift} {s t u v : Store} {n r i : Nat} {silent : Bool} {key : Key} {name : String}
  {x x' y y' : Value} {α β : Type} {R : α → β → Prop} {m m' : Action α} {bound : List String}

/-! ## Names -/

/-- Only the name of the arguments is found without a variable. -/
theorem named_of_find? {o : Nat} (found : s.find? i name = some (o, none)) :
    name = "arguments" := by
  induction i using Nat.strongRecOn with
  | ind i ih =>
    rw [Store.find?] at found
    cases at_i : s.scopes[i]? with
    | none =>
      rw [at_i] at found
      cases found
    | some sc =>
      rw [at_i] at found
      dsimp only at found
      split at found
      · cases found
      split_ifs at found with hidden
      · simp only [Bool.and_eq_true, beq_iff_eq] at hidden
        exact hidden.2
      split at found
      · split_ifs at found with inside
        exact ih _ inside found
      · cases found

theorem visible_of_isShared (shared : IsShared w.others bound name) (binds : s.Binds i bound) :
    w.Visible s i name :=
  shared.free.imp_right fun mem => binds.found name mem shared.notArguments

theorem lookup_of_current? (unset : s.current? i name = none) (k : Value → Store → Run)
    (h : Value → Store → Run) :
    Action.lookup i name k h s = (do
      match ← Action.resolveOther i name with
      | some v => return v
      | none => Action.failUndeclared name : Action Value) k h s := by
  rw [Action.lookup, unset, Action.bind_run]
  dsimp only
  congr
  funext found u
  cases found <;> rfl

theorem resolve_of_current? (unset : s.current? i name = none) (k : Option Value → Store → Run)
    (h : Value → Store → Run) :
    Action.resolve i name k h s = Action.resolveOther i name k h s := by
  rw [Action.resolve, unset]

theorem Follows.congr {α β : Type} {R : α → β → Prop} {m m₂ : Action α} {m' m₂' : Action β}
    (h : w.Follows n silent R m₂ m₂' s t) (same : ∀ k h, m k h s = m₂ k h s)
    (same' : ∀ k h, m' k h t = m₂' k h t) : w.Follows n silent R m m' s t := by
  intro l few k h' e hopeless settles
  rw [same] at settles
  obtain ⟨j, le, a, b, u, v, lands, runs, runs'⟩ := h l few k h' e hopeless settles
  exact ⟨j, le, a, b, u, v, lands, fun k h => (same k h).symm ▸ runs k h,
    fun k h => (same' k h).symm ▸ runs' k h⟩

theorem follows_assignName (m : w.Meet s t) (shared : IsShared w.others bound name)
    (mem : name ∈ bound) (binds : s.Binds i bound) (same : w.Values x x') :
    w.Follows n silent (fun _ _ => True) (Action.assignName i name x)
      (Action.assignName (w.scope i) name x') s t := by
  have found := m.chains.find? (visible_of_isShared shared binds) binds.below
  obtain ⟨owner, z, at_s⟩ := binds.found name mem shared.notArguments
  refine .read_bind ?_
  have there := at_s
  rw [at_s] at found ⊢
  generalize t.find? (w.scope i) name = b at found ⊢
  obtain @⟨_, ⟨o', z'⟩, rfl, related⟩ := found
  obtain @⟨_, z', var⟩ := related
  have value : z'.value.isNone = z.value.isNone := by
    have values := var.value
    generalize z.value = a, z'.value = b at values
    cases values <;> rfl
  dsimp only
  rw [value, var.mutability]
  split_ifs
  · exact .stop (.failWith m)
  cases z.mutability with
  | changes =>
    exact .modify (m.setVariable there ⟨.some same, rfl⟩) (grows_setVariable there _) rfl
  | fails => exact .failWith m
  | ignored => exact .pure m trivial

/-! ## Functions -/

/-- The object of a function literal. -/
def closureOf (f : Function) (scope : Nat) : Object where
  kind := .closure f scope
  proto := some Intrinsic.functionPrototype.ref
  members := (Action.functionMembers f.info.length []).push Action.unmadePrototype

theorem functionValue_yields {f : Function} (normal : f.info.kind = .normal)
    (nameless : f.info.name = none) (s : Store) :
    (Action.functionValue f i).Yields s (.object s.objects.size)
      (s.keepScope.alloc (closureOf f i)).2 := by
  intro k h
  simp only [Action.functionValue, nameless, Action.closure, normal, if_true, Action.bind_run]
  rfl

theorem follows_functionValue (m : w.Meet s t) {f g : Function}
    (twins : Function.Twins w.others bound f g) (binds : s.Binds i bound) :
    w.Follows n silent (fun a b => ∃ r, w.host < r ∧ a = .object r ∧ b = .object (w.ref r))
      (Action.functionValue f i) (Action.functionValue g (w.scope i)) s t := by
  obtain ⟨kind, name, -, info⟩ := twins.info
  have kind' : g.info.kind = .normal := by rw [info, kind]
  have name' : g.info.name = none := by rw [info, name]
  have length : g.info.length = f.info.length := by rw [info]
  have member (key : Key) {v : Value} (primitive : v.isPrimitive = true) :
      w.Members (key, .readOnly v) (key, .readOnly v) :=
    ⟨rfl, .value false (values_of_primitive primitive), rfl, rfl⟩
  have same : w.Objects (closureOf f i) (closureOf g (w.scope i)) := by
    refine ⟨.closure f g _ _, rfl, ?_, ?_⟩
    · rintro p ⟨⟩
      exact m.heaps.intrinsic .functionPrototype
    · rw [closureOf, closureOf, length]
      exact .cons (member _ rfl) (.cons (member _ rfl) (.cons ⟨rfl, .unmade, rfl, rfl⟩ .nil))
  have made : IsMade (closureOf f i) := by
    constructor
    all_goals
      intro e mem
      simp only [closureOf, Action.functionMembers, Action.unmadePrototype, List.push_toArray,
        List.mem_toArray, List.cons_append, List.nil_append, List.mem_cons, List.not_mem_nil,
        or_false] at mem
      rcases mem with rfl | rfl | rfl
    · exact (by decide : lengthKey ∈ madeKeys)
    · exact (by decide : nameKey ∈ madeKeys)
    · exact (by decide : prototypeKey ∈ madeKeys)
    all_goals simp [Property.readOnly]
  refine .yields (functionValue_yields kind name s) (functionValue_yields kind' name' t)
    ⟨⟨_, m.heaps.more, rfl, ?_⟩, m.keep same made rfl rfl twins binds,
      grows_keeping (Nat.lt_succ_self _) rfl, fun _ => rfl⟩
  rw [m.heaps.ref_size]

/-- A name is no symbol, so it is its own text. -/
theorem functionName_yields (name : String) :
    ∃ u, ∀ s, (Action.functionName "" (.ofString name)).Yields s u s := by
  obtain ⟨u, text⟩ : ∃ u, (Key.ofString name).text? = some u := by
    rw [Key.ofString, Key.ofUnits]
    split <;> exact ⟨_, rfl⟩
  refine ⟨Units.ofString "" ++ u, fun s k h => ?_⟩
  simp only [Action.functionName, Action.bind_run, Action.keyText, text,
    Store.ofString_not_symbol]
  rfl

theorem follows_nameAfter (m : w.Meet s t) (beyond : w.host < r) {f g : Function}
    (twins : Function.Twins w.others bound f g) (name : String) :
    w.Follows n silent (fun _ _ => True)
      (Action.nameAfter (.function f) (.ofString name) (.object r))
      (Action.nameAfter (.function g) (.ofString name) (.object (w.ref r))) s t := by
  obtain ⟨-, nameless, -, info⟩ := twins.info
  have nameless' : g.info.name = none := by rw [info, nameless]
  obtain ⟨u, yields⟩ := functionName_yields name
  have run {f : Function} (nameless : f.info.name = none) (s : Store) (r : Nat) :
      (Action.nameAfter (.function f) (.ofString name) (.object r)).Yields s ()
        (s.put r nameKey (.readOnly (.string u))) := by
    intro k h
    simp only [Action.nameAfter, Expr.isNameless, nameless, Option.isNone_none, if_true,
      Action.bind_run]
    exact yields s _ _
  have now : w.Properties (.readOnly (.string u)) (.readOnly (.string u)) :=
    ⟨.value false (.string u), rfl, rfl⟩
  exact .yields (run nameless s r) (run nameless' t _)
    ⟨trivial, m.put beyond (by decide) now (by simp [Property.readOnly]),
      grows_put (m.unmapped (Nat.ne_of_gt beyond)).1, fun _ => Store.put_console ..⟩

theorem nameAfter_of_named {e : Expr} (named : e.isNameless = false) (key : Key) (x : Value) :
    Action.nameAfter e key x = pure () := by
  cases x with
  | object r => simp only [Action.nameAfter, named, Bool.false_eq_true, if_false]
  | _ => rfl

/-- A function that a literal makes is named before it is used. -/
theorem follows_named {e e' : Expr} (twins : Expr.Twins w.others bound e e') (m : w.Meet s t)
    (binds : s.Binds i bound)
    (evaluated : w.Follows n silent w.Values (Action.eval (.within i) e)
      (Action.eval (.within (w.scope i)) e') s t)
    {f : Value → Action α} {f' : Value → Action β}
    (next : ∀ a b u v, w.Lands silent w.Values s a b u v → w.Follows n silent R (f a) (f' b) u v) :
    w.Follows n silent R
      (do
        let a ← Action.eval (.within i) e
        Action.nameAfter e (.ofString name) a
        f a)
      (do
        let a ← Action.eval (.within (w.scope i)) e'
        Action.nameAfter e' (.ofString name) a
        f' a) s t := by
  by_cases literal : e.isNameless = true
  · cases twins with
    | @function _ f g twins =>
      rw [Action.eval, Action.eval]
      refine .bind (follows_functionValue m twins binds) fun a b u v made => ?_
      obtain ⟨r, beyond, rfl, rfl⟩ := made.related
      refine .bind (follows_nameAfter made.meet beyond twins name) fun _ _ u v lands => ?_
      exact next _ _ u v ⟨.object (Nat.ne_of_gt beyond), lands.meet,
        made.grows.trans lands.grows, fun is => (lands.console is).trans (made.console is)⟩
    | _ => cases literal
  · have named : e.isNameless = false := by simpa using literal
    have named' : e'.isNameless = false := by
      cases twins with
      | function twins => simp [Expr.isNameless, twins.info.2.1] at literal
      | _ => rfl
    refine .bind evaluated fun a b u v lands => ?_
    rw [nameAfter_of_named named, nameAfter_of_named named']
    exact next a b u v lands

/-! ## Names and members in lockstep -/

theorem keyText_yields (key : Key) (s : Store) : ∃ u, (Action.keyText key).Yields s u s := by
  cases key with
  | index i => exact ⟨_, fun _ _ => rfl⟩
  | name u => exact ⟨_, fun _ _ => rfl⟩
  | symbol id => exact ⟨_, fun _ _ => rfl⟩

theorem follows_failAbout_key (m : w.Meet s t) {before after : String} {m' : Action β} :
    w.Follows n silent R (do Action.failAbout before (← Action.keyText key) after) m' s t := by
  obtain ⟨u, yields⟩ := keyText_yields key s
  exact .congr (.failWith m) (fun k h => yields _ _) fun _ _ => rfl

theorem argumentCount?_eq (m : w.Meet s t) (visible : w.Visible s i "arguments")
    (below : i < s.scopes.size) :
    Action.Store.argumentCount? t (w.scope i) = Action.Store.argumentCount? s i
      ∧ (Action.Store.argumentCount? s i = none → ∀ o, s.find? i "arguments" ≠ some (o, none)) := by
  have found := m.chains.find? visible below
  rw [Action.Store.argumentCount?, Action.Store.argumentCount?]
  cases at_s : s.find? i "arguments" with
  | none =>
    rw [at_s] at found
    generalize t.find? (w.scope i) "arguments" = b at found ⊢
    cases found
    exact ⟨rfl, fun _ _ => by simp⟩
  | some e =>
    rw [at_s] at found
    obtain ⟨o, z⟩ := e
    generalize t.find? (w.scope i) "arguments" = b at found ⊢
    obtain @⟨_, ⟨o', z'⟩, rfl, related⟩ := found
    cases related with
    | some => exact ⟨rfl, fun _ _ => by simp⟩
    | none =>
      obtain ⟨sc, at_o, -, framed, -⟩ := owner_at at_s
      obtain ⟨sc', at_o', same⟩ := m.chains.scopes at_o
      obtain ⟨f, at_f⟩ := Option.isSome_iff_exists.1 (framed rfl)
      have frames := same.frame
      rw [at_f] at frames
      cases at_f' : sc'.frame with
      | none =>
        rw [at_f'] at frames
        cases frames
      | some f' =>
        rw [at_f'] at frames
        obtain @⟨_, _, ⟨count, unseen, unseen'⟩⟩ := frames
        dsimp only at at_o at_o'
        simp [at_o, at_o', at_f, at_f', count, unseen, unseen']

section

variable (handles : w.Handles n)

include handles

/-- A name that is not that of the arguments of a call. -/
theorem follows_resolveOther (m : w.Meet s t) (visible : w.Visible s i name)
    (below : i < s.scopes.size) (named : ∀ o, s.find? i name ≠ some (o, none)) :
    w.Follows n false (Option.Rel w.Values) (Action.resolveOther i name)
      (Action.resolveOther (w.scope i) name) s t := by
  have found := m.chains.find? visible below
  refine .read_bind ?_
  generalize s.find? i name = a, t.find? (w.scope i) name = b at found named ⊢
  cases found with
  | none =>
    have global : Intrinsic.global.ref < w.host := m.heaps.intrinsic _
    have own := Values.object (w := w) (Nat.ne_of_lt global)
    have read : w.Follows n false (Option.Rel (w.Reads (.ofString name))) _ _ s t :=
      follows_find handles m (Nat.ne_of_lt global) own
    rw [ref_of_lt global] at read
    refine read.weaken fun a b found => ?_
    cases found with
    | none => exact .none
    | some read => exact .some read.same
  | @some e e' related =>
    obtain ⟨o, z⟩ := e
    obtain ⟨o', z'⟩ := e'
    obtain ⟨-, inner⟩ := related
    cases inner with
    | none => exact absurd rfl (named o)
    | some => exact .failWith m

theorem follows_lookup (m : w.Meet s t) (visible : w.Visible s i name) (below : i < s.scopes.size)
    (named : ∀ o, s.find? i name ≠ some (o, none)) :
    w.Follows n false w.Values (Action.lookup i name) (Action.lookup (w.scope i) name) s t := by
  have current := m.chains.current? visible below
  cases at_s : s.current? i name with
  | some v =>
    rw [at_s] at current
    cases at_t : t.current? (w.scope i) name with
    | none =>
      rw [at_t] at current
      cases current
    | some v' =>
      rw [at_t] at current
      cases current with
      | some same =>
        refine .yields (fun k h => ?_) (fun k h => ?_) (.refl m same)
        · rw [Action.lookup, at_s]
        · rw [Action.lookup, at_t]
  | none =>
    rw [at_s] at current
    cases at_t : t.current? (w.scope i) name with
    | some v' =>
      rw [at_t] at current
      cases current
    | none =>
      refine .congr (.bind (follows_resolveOther handles m visible below named)
        fun a b u v lands => ?_) (lookup_of_current? at_s) (lookup_of_current? at_t)
      cases lands.related with
      | none => exact .failWith lands.meet
      | some same => exact .pure lands.meet same

theorem follows_resolve (m : w.Meet s t) (visible : w.Visible s i name) (below : i < s.scopes.size)
    (named : ∀ o, s.find? i name ≠ some (o, none)) :
    w.Follows n false (Option.Rel w.Values) (Action.resolve i name)
      (Action.resolve (w.scope i) name) s t := by
  have current := m.chains.current? visible below
  cases at_s : s.current? i name with
  | some v =>
    rw [at_s] at current
    cases at_t : t.current? (w.scope i) name with
    | none =>
      rw [at_t] at current
      cases current
    | some v' =>
      rw [at_t] at current
      refine .yields (fun k h => ?_) (fun k h => ?_) (.refl m current)
      · rw [Action.resolve, at_s]
      · rw [Action.resolve, at_t]
  | none =>
    rw [at_s] at current
    cases at_t : t.current? (w.scope i) name with
    | some v' =>
      rw [at_t] at current
      cases current
    | none =>
      exact .congr (follows_resolveOther handles m visible below named) (resolve_of_current? at_s)
        (resolve_of_current? at_t)

/-! ## Members of values -/

theorem follows_member (m : w.Meet s t) (same : w.Values x x') (key : Key) :
    w.Follows n false (Option.Rel w.Values) (Action.member x key) (Action.member x' key) s t := by
  have inherited {r : Nat} (other : r ≠ w.host) :
      w.Follows n false (Option.Rel w.Values) (Action.find r key x) (Action.find (w.ref r) key x')
        s t := by
    refine (follows_find handles m other same).weaken
      fun a b (found : Option.Rel (w.Reads key) a b) =>
      ?_
    cases found with
    | none => exact .none
    | some read => exact .some read.same
  have home (i : Intrinsic) :
      w.Follows n false (Option.Rel w.Values) (Action.find i.ref key x) (Action.find i.ref key x')
        s t := by
    have below : i.ref < w.host := m.heaps.intrinsic i
    have found := inherited (Nat.ne_of_lt below)
    rwa [ref_of_lt below] at found
  cases same with
  | undefined | null => all_goals exact .pure m .none
  | bool => exact home .booleanPrototype
  | number => exact home .numberPrototype
  | symbol => exact home .symbolPrototype
  | object other => exact inherited other
  | string u =>
    change w.Follows n false _
      (match Action.textMember? u key with
        | some x => pure (some x)
        | none => Action.find Intrinsic.stringPrototype.ref key (.string u))
      (match Action.textMember? u key with
        | some x => pure (some x)
        | none => Action.find Intrinsic.stringPrototype.ref key (.string u)) s t
    cases own : Action.textMember? u key with
    | some y =>
      refine .pure m (.some (values_of_primitive ?_))
      rw [Action.textMember?] at own
      split at own
      · obtain ⟨c, -, rfl⟩ := Option.map_eq_some_iff.1 own
        rfl
      · split_ifs at own
        cases own
        rfl
    | none => exact home .stringPrototype

theorem follows_readMember (m : w.Meet s t) (same : w.Values x x') (key : Key) :
    w.Follows n false w.Values (Action.readMember x key) (Action.readMember x' key) s t := by
  have read : w.Follows n false w.Values
      (do return (← Action.member x key).getD .undefined)
      (do return (← Action.member x' key).getD .undefined) s t := by
    refine .bind (follows_member handles m same key) fun a b u v lands => .pure lands.meet ?_
    cases lands.related with
    | none => exact .undefined
    | some same => exact same
  cases same with
  | undefined | null => all_goals exact follows_failAbout_key m
  | _ => exact read

/-- What is called. -/
inductive Callees (w : Shift) : Callee → Callee → Prop where
  | value {x x' : Value} : w.Values x x' → Callees w (.value x) (.value x')
  | unresolved (name : String) : Callees w (.unresolved name) (.unresolved name)
  | missing (key : Key) : Callees w (.missing key) (.missing key)

theorem follows_calledMember (m : w.Meet s t) (same : w.Values x x') (key : Key) :
    w.Follows n false w.Callees (Action.calledMember x key) (Action.calledMember x' key) s t := by
  have read : w.Follows n false w.Callees
      (do
        match ← Action.member x key with
        | some f => return .value f
        | none => return .missing key)
      (do
        match ← Action.member x' key with
        | some f => return .value f
        | none => return .missing key) s t := by
    refine .bind (follows_member handles m same key) fun a b u v lands => ?_
    cases lands.related with
    | none => exact .pure lands.meet (.missing key)
    | some same => exact .pure lands.meet (.value same)
  cases same with
  | undefined | null => all_goals exact follows_failAbout_key m
  | _ => exact read

theorem follows_callFound (m : w.Meet s t) {f f' : Callee} (found : w.Callees f f')
    (self : w.Values x x') {args args' : List Value} (same : List.Forall₂ w.Values args args') :
    w.Follows n false w.Values (Action.callFound f x args) (Action.callFound f' x' args') s t := by
  have useless {y y' : Value} (same : w.Values y y') {before after : String} :
      w.Follows n false w.Values (do Action.failAbout before (← Action.toText y) after)
        (do Action.failAbout before (← Action.toText y') after) s t :=
    .bind (follows_toText handles m same).loud fun _ _ _ _ lands => .failWith lands.meet
  cases found with
  | unresolved name => exact .failWith m
  | missing key => exact follows_failAbout_key m
  | value callee =>
    cases callee with
    | @object r other =>
      refine .read_bind ?_
      rw [m.isCallable (.object other)]
      cases s.isCallable (.object r) with
      | true => exact handles.call other self same m
      | false => exact useless (.object other)
    | undefined => exact useless .undefined
    | null => exact useless .null
    | bool b => exact useless (.bool b)
    | number x => exact useless (.number x)
    | string u => exact useless (.string u)
    | symbol id => exact useless (.symbol id)

theorem follows_count (m : w.Meet s t) (free : "arguments" ∉ w.others)
    (binds : s.Binds i bound) :
    w.Follows n false w.Values (Action.eval (.within i) argumentCount)
      (Action.eval (.within (w.scope i)) argumentCount) s t := by
  obtain ⟨same, named⟩ := argumentCount?_eq m (.inl free) binds.below
  cases count : Action.Store.argumentCount? s i with
  | some c =>
    rw [count] at same
    refine .yields (fun k h => ?_) (fun k h => ?_) (.refl m (.number (.ofNat c)))
    · rw [eval_argumentCount, count]
    · rw [eval_argumentCount, same]
  | none =>
    rw [count] at same
    refine .congr (.bind (follows_lookup handles m (.inl free) binds.below (named count))
      fun a b u v lands => follows_readMember handles lands.meet lands.related lengthKey)
      (fun k h => ?_) (fun k h => ?_)
    · rw [eval_argumentCount, count]
    · rw [eval_argumentCount, same]

end

/-! ## Expressions -/

theorem evalArgs_cons {others : List String} {e e' : Expr} (twins : Expr.Twins others bound e e')
    (ctx : Context) (rest : List Expr) :
    (Action.evalArgs ctx (e :: rest) = do
        let v ← Action.eval ctx e
        let vs ← Action.evalArgs ctx rest
        return v :: vs)
      ∧ Action.evalArgs ctx (e' :: rest) = do
        let v ← Action.eval ctx e'
        let vs ← Action.evalArgs ctx rest
        return v :: vs := by
  cases twins <;> exact ⟨rfl, rfl⟩

theorem follows_skip (m : w.Meet s t) (ctx ctx' : Context) (x x' : Value) :
    w.Follows n silent (fun _ _ => True) (Action.skipIfNothing ctx false x)
      (Action.skipIfNothing ctx' false x') s t :=
  .yields (fun _ _ => rfl) (fun _ _ => rfl) (.refl m trivial)

theorem construct_primitive {x : Value} (primitive : x.isPrimitive = true) (args : List Value)
    (s : Store) : ∃ message, ∀ k h,
      Action.construct x args k h s = (Action.failWith .typeError message : Action Value) k
        h s := by
  cases x with
  | object => cases primitive
  | _ => exact ⟨_, fun _ _ => rfl⟩

/-- A construction is no stop of generated code. -/
theorem follows_construct (m : w.Meet s t) {args : List Value} {R : Value → β → Prop}
    {m' : Action β} : w.Follows n silent R (Action.construct x args) m' s t := by
  cases primitive : x.isPrimitive with
  | true =>
    obtain ⟨message, fails⟩ := construct_primitive primitive args s
    exact .congr (.failWith m) fails fun _ _ => rfl
  | false =>
    obtain ⟨r, rfl⟩ : ∃ r, x = .object r := by
      cases x with
      | object r => exact ⟨r, rfl⟩
      | _ => cases primitive
    have run (k h : Value → Store → Run) : Action.construct (.object r) args k h s
        = if Action.constructs s r then Action.constructWith r args r k h s
          else (Action.fail "Value is not a constructor" : Action Value) k h s := by
      change (if Action.constructs s r then Action.constructWith r args r
        else Action.fail "Value is not a constructor" : Action Value) k h s = _
      split_ifs <;> rfl
    by_cases can : Action.constructs s r = true
    · intro l few k h e hopeless settles
      rw [run, if_pos can] at settles
      obtain _ | ⟨quiet, -⟩ := settles
      cases quiet
    · exact .congr (.failWith m) (fun k h => (run k h).trans (if_neg can)) fun _ _ => rfl

/-! ## Equations of expressions -/

theorem evalElements_cons {others : List String} {e e' : Expr}
    (twins : Expr.Twins others bound e e') (other : e ≠ .hole) (ctx : Context) (rest : List Expr)
    (done : List (Option Value)) :
    (Action.evalElements ctx (e :: rest) done = (do
        let v ← Action.eval ctx e
        Action.evalElements ctx rest (some v :: done)))
      ∧ Action.evalElements ctx (e' :: rest) done = (do
        let v ← Action.eval ctx e'
        Action.evalElements ctx rest (some v :: done)) := by
  cases twins with
  | hole => exact absurd rfl other
  | _ => exact ⟨rfl, rfl⟩

/-- An array is made. -/
theorem follows_allocSparse (m : w.Meet s t) {es es' : Array (Option Value)}
    (same : List.Forall₂ (Option.Rel w.Values) es.toList es'.toList) :
    w.Follows n silent w.Values (Action.allocSparse es) (Action.allocSparse es') s t := by
  have size : es'.size = es.size := by
    rw [← Array.length_toList, ← Array.length_toList, same.length_eq]
  have objects : w.Objects
      { kind := .array es es.size false, proto := some Intrinsic.arrayPrototype.ref }
      { kind := .array es' es'.size false, proto := some Intrinsic.arrayPrototype.ref } := by
    refine ⟨size ▸ .array _ _ same, rfl, ?_, .nil⟩
    rintro p ⟨⟩
    exact m.heaps.intrinsic .arrayPrototype
  refine .bind (follows_alloc m objects (isMade_of_empty rfl) (by simp)) fun r r' u v lands => ?_
  obtain ⟨beyond, rfl⟩ := lands.related
  exact .pure lands.meet (.object (Nat.ne_of_gt beyond))

section

variable {e : Expr}

theorem eval_negate (ctx : Context) (e : Expr) :
    Action.eval ctx (.unary .negate e) = (do
      let v ← Action.eval ctx e
      return .number (← Action.negated v)) := by
  rw [Action.eval]
  · rfl
  · simp

theorem eval_member (other : ∀ base, e ≠ .ident base) (ctx : Context) (key : Units) :
    Action.eval ctx (.member false e key) = (do
      let v ← Action.eval ctx e
      Action.skipIfNothing ctx false v
      Action.readMember v (.name key)) := by
  cases e with
  | ident => exact absurd rfl (other _)
  | _ => rfl

theorem eval_member_ident (other : name ≠ "arguments") (ctx : Context) (key : Units) :
    Action.eval ctx (.member false (.ident name) key) = (do
      let v ← Action.lookup ctx.scope name
      Action.skipIfNothing ctx false v
      Action.readMember v (.name key)) := by
  rw [Action.eval]
  dsimp only
  rw [beq_eq_false_iff_ne.2 other, Bool.false_and]
  rfl

/-- What is called stands by itself. -/
def IsOther : Expr → Prop
  | .ident _ | .member .. | .index .. => False
  | _ => True

theorem callIn_eq (other : name ≠ "eval") (scope : Nat) (f : Callee) (args : List Value) :
    Action.callIn scope name f args = Action.callFound f .undefined args := by
  cases f with
  | value v =>
    funext k h s
    simp only [Action.callIn, Action.bind_run, Action.read, beq_eq_false_iff_ne.2 other,
      Bool.false_and, Bool.false_eq_true, if_false]
  | unresolved | missing => all_goals rfl

/-- What a name in front of arguments stands for. -/
def calleeOf (name : String) : Option Value → Callee
  | some v => .value v
  | none => .unresolved name

theorem eval_call_ident (other : name ≠ "eval") (ctx : Context) (args : List Expr) :
    Action.eval ctx (.call false (.ident name) args) = (do
      let found ← Action.resolve ctx.scope name
      let vs ← Action.evalArgs ctx args
      Action.callFound (calleeOf name found) .undefined vs) := by
  simp only [← callIn_eq other ctx.scope]
  rw [Action.eval]
  congr

theorem eval_call_member (ctx : Context) (e : Expr) (key : Units) (args : List Expr) :
    Action.eval ctx (.call false (.member false e key) args) = (do
      let self ← Action.eval ctx e
      Action.skipIfNothing ctx false self
      let found ← Action.calledMember self (.name key)
      let vs ← Action.evalArgs ctx args
      Action.callFound found self vs) := by
  rw [Action.eval]

theorem eval_call_index (ctx : Context) (e i : Expr) (args : List Expr) :
    Action.eval ctx (.call false (.index false e i) args) = (do
      let self ← Action.eval ctx e
      Action.skipIfNothing ctx false self
      let index ← Action.eval ctx i
      let found ← Action.calledMember self (← Action.toKey index)
      let vs ← Action.evalArgs ctx args
      Action.callFound found self vs) := by
  rw [Action.eval]

theorem eval_call_other (other : IsOther e) (ctx : Context) (args : List Expr) :
    Action.eval ctx (.call false e args) = (do
      let f ← Action.eval ctx e
      Action.skipIfNothing ctx false f
      let vs ← Action.evalArgs ctx args
      Action.callFound (.value f) .undefined vs) := by
  cases e with
  | ident | member | index => all_goals cases other
  | _ => rfl

end

mutual

theorem follows_eval (handles : w.Handles n) {i : Nat} {bound : List String} {e e' : Expr}
    (twins : Expr.Twins w.others bound e e') {s t : Store} (m : w.Meet s t)
    (binds : s.Binds i bound) :
    w.Follows n false w.Values (Action.eval (.within i) e) (Action.eval (.within (w.scope i)) e')
      s t := by
  cases twins with
  | number x => exact .pure m (.number x)
  | string u => exact .pure m (.string u)
  | bool b => exact .pure m (.bool b)
  | hole => exact .pure m .undefined
  | ident shared =>
    rw [Action.eval, Action.eval]
    exact follows_lookup handles m (visible_of_isShared shared binds) binds.below fun o found =>
      shared.notArguments (named_of_find? found)
  | array elements =>
    rw [Action.eval, Action.eval]
    refine .bind (follows_evalElements handles elements m binds .nil) fun es es' u v lands => ?_
    exact follows_allocSparse lands.meet lands.related
  | function twins =>
    rw [Action.eval, Action.eval]
    refine (follows_functionValue m twins binds).weaken fun a b made => ?_
    obtain ⟨r, beyond, rfl, rfl⟩ := made
    exact .object (Nat.ne_of_gt beyond)
  | negate twins =>
    rw [eval_negate, eval_negate]
    refine .bind (follows_eval handles twins m binds) fun a a' u v lands => ?_
    refine .bind (follows_negated handles lands.meet lands.related).loud fun b b' u v after => ?_
    exact .pure after.meet (after.related ▸ .number _)
  | binary generated left right =>
    rw [Action.eval, Action.eval]
    refine .bind (follows_eval handles left m binds) fun a a' u v first => ?_
    refine .bind (follows_eval handles right first.meet (binds.grows first.grows))
      fun b b' u v second => ?_
    exact (follows_binary handles generated second.meet first.related second.related).loud
  | assign shared mem twins =>
    rw [Action.eval, Action.eval]
    refine follows_named twins m binds (follows_eval handles twins m binds) fun a a' u v lands => ?_
    refine .bind (follows_assignName lands.meet shared mem (binds.grows lands.grows)
      lands.related) fun _ _ u v after => .pure after.meet lands.related
  | @call _ x y xs ys other callee args =>
    have called {u v : Store} {f f' : Callee} {x x' : Value} (grows : s.Grows u) (meet : w.Meet u v)
        (found : w.Callees f f') (self : w.Values x x') :
        w.Follows n false w.Values
          (do
            let vs ← Action.evalArgs (.within i) _
            Action.callFound f x vs)
          (do
            let vs ← Action.evalArgs (.within (w.scope i)) _
            Action.callFound f' x' vs) u v :=
      .bind (follows_evalArgs handles args meet (binds.grows grows)) fun _ _ _ _ lands =>
        follows_callFound handles lands.meet found self lands.related
    have general (alone : IsOther x) (alone' : IsOther y) : w.Follows n false w.Values
        (Action.eval (.within i) (.call false x xs))
        (Action.eval (.within (w.scope i)) (.call false y ys)) s t := by
      rw [eval_call_other alone, eval_call_other alone']
      refine .bind (follows_eval handles callee m binds) fun f f' u v lands => ?_
      refine .bind (follows_skip lands.meet _ _ f f') fun _ _ u v skipped => ?_
      exact called (lands.grows.trans skipped.grows) skipped.meet (.value lands.related) .undefined
    cases callee with
    | ident shared =>
      rw [eval_call_ident shared.notEval, eval_call_ident shared.notEval]
      refine .bind (follows_resolve handles m (visible_of_isShared shared binds) binds.below
        fun o found => shared.notArguments (named_of_find? found)) fun a a' u v found => ?_
      cases found.related with
      | none => exact called found.grows found.meet (.unresolved _) .undefined
      | some same => exact called found.grows found.meet (.value same) .undefined
    | member name twins =>
      rw [eval_call_member, eval_call_member]
      refine .bind (follows_eval handles twins m binds) fun a a' u v self => ?_
      refine .bind (follows_skip self.meet _ _ a a') fun _ _ u v skipped => ?_
      refine .bind (follows_calledMember handles skipped.meet self.related (.name name))
        fun f f' u v found => ?_
      exact called ((self.grows.trans skipped.grows).trans found.grows) found.meet found.related
        self.related
    | index object index =>
      rw [eval_call_index, eval_call_index]
      refine .bind (follows_eval handles object m binds) fun a a' u v self => ?_
      refine .bind (follows_skip self.meet _ _ a a') fun _ _ u v skipped => ?_
      have grows := self.grows.trans skipped.grows
      refine .bind (follows_eval handles index skipped.meet (binds.grows grows))
        fun b b' u v place => ?_
      refine .bind (follows_toKey handles place.meet place.related).loud
        fun key key' u v keyed => ?_
      obtain rfl := keyed.related
      refine .bind (follows_calledMember handles keyed.meet self.related key)
        fun f f' u v found => ?_
      exact called (((grows.trans place.grows).trans keyed.grows).trans found.grows) found.meet
        found.related self.related
    | count => exact absurd rfl other
    | _ => exact general trivial trivial
  | construct callee args =>
    rw [Action.eval, Action.eval]
    refine .bind (follows_eval handles callee m binds) fun f f' u v made => ?_
    refine .bind (follows_evalArgs handles args made.meet (binds.grows made.grows))
      fun vs vs' u v lands => follows_construct lands.meet
  | @member _ x y name twins =>
    have read {u v : Store} {a a' : Value} (meet : w.Meet u v) (same : w.Values a a') :
        w.Follows n false w.Values
          (do
            Action.skipIfNothing (.within i) false a
            Action.readMember a (.name name))
          (do
            Action.skipIfNothing (.within (w.scope i)) false a'
            Action.readMember a' (.name name)) u v :=
      .bind (follows_skip meet _ _ a a') fun _ _ u v skipped =>
        follows_readMember handles skipped.meet same (.name name)
    by_cases named : ∃ base, x = .ident base
    · obtain ⟨base, rfl⟩ := named
      cases twins with
      | ident shared =>
        rw [eval_member_ident shared.notArguments, eval_member_ident shared.notArguments]
        exact .bind (follows_lookup handles m (visible_of_isShared shared binds) binds.below
          fun o found => shared.notArguments (named_of_find? found)) fun a a' u v lands =>
            read lands.meet lands.related
    · have named' : ∀ base, y ≠ .ident base := by
        rintro base rfl
        cases twins
        exact named ⟨_, rfl⟩
      rw [eval_member (fun base same => named ⟨base, same⟩), eval_member named']
      exact .bind (follows_eval handles twins m binds) fun a a' u v lands =>
        read lands.meet lands.related
  | count free => exact follows_count handles m free binds
  | index object index =>
    rw [Action.eval, Action.eval]
    refine .bind (follows_eval handles object m binds) fun a a' u v self => ?_
    refine .bind (follows_skip self.meet _ _ a a') fun _ _ u v skipped => ?_
    refine .bind (follows_eval handles index skipped.meet
      (binds.grows (self.grows.trans skipped.grows))) fun b b' u v place => ?_
    refine .bind (follows_toKey handles place.meet place.related).loud fun key key' u v keyed => ?_
    obtain rfl := keyed.related
    exact follows_readMember handles keyed.meet self.related key
termination_by sizeOf e

theorem follows_evalArgs (handles : w.Handles n) {i : Nat} {bound : List String}
    {es es' : List Expr} (twins : Expr.TwinsAll w.others bound es es') {s t : Store}
    (m : w.Meet s t) (binds : s.Binds i bound) :
    w.Follows n false (List.Forall₂ w.Values) (Action.evalArgs (.within i) es)
      (Action.evalArgs (.within (w.scope i)) es') s t := by
  cases twins with
  | nil => exact .pure m .nil
  | cons first rest =>
    rw [(evalArgs_cons first _ _).1, (evalArgs_cons first _ _).2]
    refine .bind (follows_eval handles first m binds) fun a a' u v lands => ?_
    refine .bind (follows_evalArgs handles rest lands.meet (binds.grows lands.grows))
      fun as as' u v others => .pure others.meet (.cons lands.related others.related)
termination_by sizeOf es

theorem follows_evalElements (handles : w.Handles n) {i : Nat} {bound : List String}
    {es es' : List Expr} (twins : Expr.TwinsAll w.others bound es es') {s t : Store}
    (m : w.Meet s t) (binds : s.Binds i bound) {done done' : List (Option Value)}
    (before : List.Forall₂ (Option.Rel w.Values) done done') :
    w.Follows n false (fun a a' => List.Forall₂ (Option.Rel w.Values) a.toList a'.toList)
      (Action.evalElements (.within i) es done)
      (Action.evalElements (.within (w.scope i)) es' done') s t := by
  cases twins with
  | nil =>
    refine .pure m ?_
    rw [List.toList_toArray, List.toList_toArray]
    exact List.forall₂_reverse_iff.2 before
  | @cons _ x y xs ys first rest =>
    have given {a a' : Option Value} (same : Option.Rel w.Values a a') {u v : Store}
        (meet : w.Meet u v) (grows : s.Grows u) :
        w.Follows n false (fun a a' => List.Forall₂ (Option.Rel w.Values) a.toList a'.toList)
          (Action.evalElements (.within i) xs (a :: done))
          (Action.evalElements (.within (w.scope i)) ys (a' :: done')) u v :=
      follows_evalElements handles rest meet (binds.grows grows) (.cons same before)
    by_cases hole : x = .hole
    · subst hole
      cases first with
      | hole => exact given .none m (.refl s)
    · rw [(evalElements_cons first hole _ _ _).1, (evalElements_cons first hole _ _ _).2]
      exact .bind (follows_eval handles first m binds) fun a a' u v lands =>
        given (.some lands.related) lands.meet lands.grows
termination_by sizeOf es

end

/-! ## Statements -/

/-- Twin statements declare nothing for a block. -/
theorem plain_of_twins {others : List String} {ends : Bool} {ss ss' : List Stmt}
    (twins : Stmt.TwinsAll others ends bound ss ss') :
    (blockVariables ss = [] ∧ Stmt.functions ss = [])
      ∧ blockVariables ss' = [] ∧ Stmt.functions ss' = [] := by
  induction ss generalizing ss' with
  | nil =>
    cases twins
    exact ⟨⟨rfl, rfl⟩, rfl, rfl⟩
  | cons x xs ih =>
    cases twins with
    | cons first rest =>
      obtain ⟨⟨vars, functions⟩, vars', functions'⟩ := ih rest
      cases first <;> exact ⟨⟨vars, functions⟩, vars', functions'⟩

theorem exec_declare {e : Expr} (other : e ≠ .hole) (i : Nat) (name : String) :
    Action.exec (.within i) [] (.declare .var (.ident name) e) = (do
      let v ← Action.eval (.within i) e
      Action.nameAfter e (.ofString name) v
      Action.assignName i name v
      return .normal none) := by
  rw [Action.exec]
  · rfl
  · simpa using other

theorem exec_block {ss : List Stmt} (vars : blockVariables ss = [])
    (functions : Stmt.functions ss = []) (i : Nat) :
    Action.exec (.within i) [] (.block ss) = Action.execAll (.within i) ss none := by
  rw [Action.exec, vars, functions]

theorem isTruthy_eq (same : w.Values x x') : x'.isTruthy = x.isTruthy := by
  cases same <;> rfl

mutual

theorem follows_exec (handles : w.Handles n) {i : Nat} {bound : List String} {ends : Bool}
    {x x' : Stmt} (twins : Stmt.Twins w.others ends bound x x') {s t : Store} (m : w.Meet s t)
    (binds : s.Binds i bound) :
    w.Follows n false (w.Completions ends) (Action.exec (.within i) [] x)
      (Action.exec (.within (w.scope i)) [] x') s t := by
  cases twins with
  | expression twins =>
    rw [Action.exec, Action.exec]
    exact .bind (follows_eval handles twins m binds) fun a a' u v lands =>
      .pure lands.meet (.normal _ _)
  | @declare _ _ name e e' shared mem twins =>
    by_cases hole : e = .hole
    · subst hole
      cases twins with
      | hole =>
        rw [Action.exec, Action.exec]
        exact .pure m (.normal _ _)
    · have hole' : e' ≠ .hole := by
        rintro rfl
        cases twins
        exact hole rfl
      rw [exec_declare hole, exec_declare hole']
      refine follows_named twins m binds (follows_eval handles twins m binds)
        fun a a' u v lands => ?_
      exact .bind (follows_assignName lands.meet shared mem (binds.grows lands.grows)
        lands.related) fun _ _ u v after => .pure after.meet (.normal _ _)
  | «if» cond yes no =>
    rw [Action.exec, Action.exec]
    refine .bind (follows_eval handles cond m binds) fun a a' u v lands => ?_
    have binds := binds.grows lands.grows
    rw [isTruthy_eq lands.related]
    split_ifs
    · exact follows_exec handles yes lands.meet binds
    · exact follows_exec handles no lands.meet binds
  | «while» cond body =>
    rw [Action.exec, Action.exec]
    exact handles.loop cond body m binds
  | «return» twins =>
    rw [Action.exec, Action.exec]
    exact .bind (follows_eval handles twins m binds) fun a a' u v lands =>
      .pure lands.meet (.returned rfl lands.related)
  | throw twins =>
    rw [Action.exec, Action.exec]
    exact .bind (follows_eval handles twins m binds) fun a a' u v lands =>
      .throws lands.meet lands.related fun _ _ => rfl
  | block twins =>
    obtain ⟨⟨vars, functions⟩, vars', functions'⟩ := plain_of_twins twins
    rw [exec_block vars functions, exec_block vars' functions']
    exact follows_execAll handles twins m binds _ _
  | empty =>
    rw [Action.exec, Action.exec]
    exact .pure m (.normal _ _)
termination_by sizeOf x

theorem follows_execAll (handles : w.Handles n) {i : Nat} {bound : List String} {ends : Bool}
    {xs xs' : List Stmt} (twins : Stmt.TwinsAll w.others ends bound xs xs') {s t : Store}
    (m : w.Meet s t) (binds : s.Binds i bound) (last last' : Option Value) :
    w.Follows n false (w.Completions ends) (Action.execAll (.within i) xs last)
      (Action.execAll (.within (w.scope i)) xs' last') s t := by
  cases twins with
  | nil => exact .pure m (.normal _ _)
  | cons first rest =>
    rw [Action.execAll, Action.execAll]
    refine .bind (follows_exec handles first m binds) fun c c' u v lands => ?_
    cases lands.related with
    | normal =>
      exact follows_execAll handles rest lands.meet (binds.grows lands.grows) _ _
    | returned ends same => exact .pure lands.meet (.returned ends same)
termination_by sizeOf xs

end

end EggLang.Script.Shift
