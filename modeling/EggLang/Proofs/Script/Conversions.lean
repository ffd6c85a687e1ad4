import EggLang.Proofs.Script.Lockstep

/-!
# Conversions in lockstep

Values are converted to primitive values, texts and numbers by functions that were there before the
statements, so that nothing is written on the way.
-/

namespace EggLang.Script.Shift

variable {w : Shift} {s t u v : Store} {n r : Nat} {silent : Bool} {key : Key} {x x' y y' : Value}
  {o o' : Object}

/-- Statements end in the same way; only some of them end the call around them. -/
inductive Completions (w : Shift) (ends : Bool) : Completion → Completion → Prop where
  | normal (x x' : Option Value) : Completions w ends (.normal x) (.normal x')
  | returned {x x' : Value} : ends = true → w.Values x x' →
      Completions w ends (.returned x) (.returned x')

/-- A loop with a condition. -/
def loopOf (scope : Nat) (cond : Expr) (body : Stmt) : Action Completion := fun k h s =>
  .loop (.steps [] scope [] cond .hole body true) k h s

/-- What is known about the stops of an action: corresponding functions are called and loops are
gone round in lockstep, and functions that were there write nothing unless they print. -/
structure Handles (w : Shift) (n : Nat) : Prop where
  call {r : Nat} {x x' : Value} {args args' : List Value} {s t : Store} : r ≠ w.host →
    w.Values x x' → List.Forall₂ w.Values args args' → w.Meet s t →
    w.Follows n false w.Values (Action.invoke r x args) (Action.invoke (w.ref r) x' args') s t
  mute {r : Nat} {x x' : Value} {args args' : List Value} {s t : Store} : r < w.host →
    w.start.IsMute r → w.Values x x' → List.Forall₂ w.Values args args' → w.Meet s t →
    w.Follows n true w.Values (Action.invoke r x args) (Action.invoke r x' args') s t
  loop {ends : Bool} {bound : List String} {cond cond' : Expr} {body body' : Stmt} {i : Nat}
    {s t : Store} : Expr.Twins w.others bound cond cond' →
    Stmt.Twins w.others ends bound body body' → w.Meet s t → s.Binds i bound →
    w.Follows n false (w.Completions ends) (loopOf i cond body) (loopOf (w.scope i) cond' body') s t

/-! ## Objects -/

theorem Meet.isCallable (m : w.Meet s t) (same : w.Values x x') :
    t.isCallable x' = s.isCallable x := by
  cases same with
  | @object r other =>
    have kind := (m.heaps.object other).kind
    rw [Store.isCallable, Store.isCallable, Object.isCallable, Object.isCallable]
    generalize (s.object r).kind = k, (t.object (w.ref r)).kind = k' at kind
    cases kind <;> rfl
  | _ => rfl

/-- Corresponding functions. -/
structure Functions (w : Shift) (x : Value) (r r' : Nat) : Prop where
  value : x = .object r
  other : r ≠ w.host
  moved : r' = w.ref r

theorem follows_callable? (m : w.Meet s t) (same : w.Values x x') :
    w.Follows n silent (Option.Rel (w.Functions x)) (Action.callable? x) (Action.callable? x')
      s t := by
  have callable := m.isCallable same
  cases same with
  | @object r other =>
    refine .bind (.read (R := fun a b => b = a) m callable) fun a b u v lands => ?_
    obtain rfl : b = a := lands.related
    cases b with
    | false => exact .pure lands.meet .none
    | true => exact .pure lands.meet (.some ⟨rfl, other, rfl⟩)
  | _ => exact .pure m .none

theorem isMade_of_empty (empty : o.members = #[]) : IsMade o :=
  ⟨fun mem => by simp [empty] at mem, fun mem => by simp [empty] at mem⟩

/-- An object is made in both stores. -/
theorem follows_alloc (m : w.Meet s t) (same : w.Objects o o') (made : IsMade o)
    (plain : ∀ f i, o.kind ≠ .closure f i) :
    w.Follows n silent (fun a b => w.host < a ∧ b = w.ref a) (Action.alloc o) (Action.alloc o')
      s t :=
  .yields (fun _ _ => rfl) (fun _ _ => rfl)
    ⟨⟨m.heaps.more, m.heaps.ref_size.symm⟩, m.alloc same made plain, grows_alloc plain,
      fun _ => rfl⟩

/-- What is found under a key of conversions was there and does not write. -/
structure Reads (w : Shift) (key : Key) (x x' : Value) : Prop where
  same : w.Values x x'
  silent : key ∈ conversionKeys → w.Silent x

theorem prototypeObject_rel (other : r ≠ w.host) (ready : Intrinsic.objectPrototype.ref < w.host) :
    w.Objects
      { proto := some Intrinsic.objectPrototype.ref
        members := #[(constructorKey, .hidden (.object r))] }
      { proto := some Intrinsic.objectPrototype.ref
        members := #[(constructorKey, .hidden (.object (w.ref r)))] } := by
  refine ⟨.plain, rfl, ?_, .cons ⟨rfl, .value true (.object other), rfl, rfl⟩ .nil⟩
  rintro p ⟨⟩
  exact ready

theorem Heaps.intrinsic (h : w.Heaps s t) (i : Intrinsic) : i.ref < w.host :=
  Nat.lt_of_lt_of_le (Store.Intrinsic.ref_lt i) h.ready.builtIn.enough

/-- A member with the prototype of a function. -/
def madePrototype (q : Nat) : Property :=
  { slot := .value (.object q) true, enumerable := false, configurable := false }

/-- The prototype of a function is made when somebody looks at it. -/
theorem follows_own_unmade (m : w.Meet s t) (other : r ≠ w.host) {p : Property}
    (own : s.own? r key = some p) (slot : p.slot = .unmade) :
    w.Follows n silent (fun p p' => ∃ q, w.host < q ∧ p = some (madePrototype q)
      ∧ p' = some (madePrototype (w.ref q))) (Action.own r key) (Action.own (w.ref r) key) s t := by
  obtain ⟨p', own', slot'⟩ : ∃ p', t.own? (w.ref r) key = some p' ∧ p'.slot = .unmade := by
    have same := m.heaps.own? other key
    rw [own] at same
    generalize t.own? (w.ref r) key = q at same ⊢
    obtain @⟨_, p', same⟩ := same
    have slots := same.slot
    rw [slot] at slots
    generalize slot' : p'.slot = z at slots
    cases slots
    exact ⟨p', rfl, slot'⟩
  have beyond : w.host < r ∧ key ∈ madeKeys := by
    rw [own?_eq rfl (m.unmapped other).1] at own
    have mem : (key, p) ∈ (s.object r).members := by
      rcases own?_cases own with ⟨v, b, value⟩ | member
      · rw [slot] at value
        cases value
      · exact mem_of_member? member
    rcases Nat.lt_or_gt_of_ne other with below | beyond
    · rw [(m.heaps.kept below).1] at mem
      exact absurd slot ((m.heaps.ready.builtIn.objects r).members _ mem).made
    · exact ⟨beyond, (m.heaps.made beyond).keys mem⟩
  have made := m.alloc (prototypeObject_rel other (m.heaps.intrinsic .objectPrototype))
    (by constructor <;> simp [madeKeys, Property.hidden]) (by simp)
  have far : s.objects.size ≠ w.host := Nat.ne_of_gt m.heaps.more
  have now : w.Properties (madePrototype s.objects.size) (madePrototype t.objects.size) :=
    ⟨m.heaps.ref_size ▸ .value true (.object far), rfl, rfl⟩
  have put := made.put beyond.1 beyond.2 now (by simp [madePrototype])
  obtain ⟨⟨_, _, _⟩, rfl⟩ : ∃ q : Property, q = p := ⟨p, rfl⟩
  obtain ⟨⟨_, _, _⟩, rfl⟩ : ∃ q : Property, q = p' := ⟨p', rfl⟩
  obtain rfl := slot
  obtain rfl := slot'
  have run (s : Store) (r : Nat) {e c : Bool} (own : s.own? r key = some ⟨.unmade, e, c⟩) :
      (Action.own r key).Yields s (some (madePrototype s.objects.size))
        ((s.alloc
          { proto := some Intrinsic.objectPrototype.ref
            members := #[(constructorKey, .hidden (.object r))] }).2.put r key
              (madePrototype s.objects.size)) := by
    intro k h
    simp only [Action.own, Action.bind_run, Action.read, own]
    rfl
  refine .yields (run s r own) (run t _ own')
    ⟨⟨_, m.heaps.more, rfl, by rw [m.heaps.ref_size]⟩, put,
    (grows_alloc (by simp)).trans (grows_put (made.unmapped other).1), fun _ => ?_⟩
  rw [Store.put_console]
  rfl

/-! ## Members -/

/-- A primitive value corresponds to itself only. -/
structure Primitive (x x' : Value) : Prop where
  same : x' = x
  primitive : x.isPrimitive = true

section

variable (handles : w.Handles n)

include handles

/-- The function that gives the value of a member is called in lockstep. -/
theorem follows_getter (m : w.Meet s t) (below : r < w.host) (same : w.Values x x')
    (mute : silent = true → w.start.IsMute r) :
    w.Follows n silent w.Values (Action.invoke r x []) (Action.invoke r x' []) s t := by
  cases silent with
  | true => exact handles.mute below (mute rfl) same .nil m
  | false =>
    have called := handles.call (Nat.ne_of_lt below) same .nil m
    rwa [ref_of_lt below] at called

theorem follows_find (m : w.Meet s t) (other : r ≠ w.host) (same : w.Values x x') :
    w.Follows n silent (Option.Rel (w.Reads key)) (Action.find r key x)
      (Action.find (w.ref r) key x') s t := by
  have found := m.heaps.lookup? other key
  rw [Action.find, Action.find]
  refine .read_bind ?_
  generalize s.lookup? r key = a, t.lookup? (w.ref r) key = b at found ⊢
  cases found with
  | none => exact .pure m .none
  | @some e e' found =>
    obtain ⟨holder, p⟩ := e
    obtain ⟨holder', p'⟩ := e'
    have slots := found.same.slot
    generalize slot : p.slot = z, slot' : p'.slot = z' at slots
    dsimp only
    rw [slot, slot']
    cases slots with
    | @value v v' b related =>
      refine .pure m (.some ⟨related, fun mem => ?_⟩)
      obtain ⟨v, b, value, silent⟩ := found.conversion m.heaps mem
      rw [slot] at value
      cases value
      exact silent
    | @accessor g g' below =>
      have free : key ∉ conversionKeys := fun mem => by
        obtain ⟨v, b, value, -⟩ := found.conversion m.heaps mem
        rw [slot] at value
        cases value
      cases g with
      | none => exact .pure m (.some ⟨.undefined, fun mem => absurd mem free⟩)
      | some g =>
        have mute := found.getter m.heaps slot g rfl
        exact .map (follows_getter handles m (below g rfl) same fun _ => mute) fun a b related =>
          .some ⟨related, fun mem => absurd mem free⟩
    | unmade =>
      have free : key ∉ conversionKeys := fun mem => by
        obtain ⟨v, b, value, -⟩ := found.conversion m.heaps mem
        rw [slot] at value
        cases value
      obtain rfl : holder' = w.ref holder := found.holder
      refine .bind (follows_own_unmade m found.other found.own slot) fun q q' u v lands => ?_
      obtain ⟨q, far, rfl, rfl⟩ := lands.related
      exact .pure lands.meet (.some ⟨.object (Nat.ne_of_gt far), fun mem => absurd mem free⟩)

theorem follows_get (m : w.Meet s t) (other : r ≠ w.host) :
    w.Follows n silent (w.Reads key) (Action.get r key) (Action.get (w.ref r) key) s t := by
  refine .map (follows_find handles m other (.object other)) fun a b found => ?_
  cases found with
  | none => exact ⟨.undefined, fun _ => silent_of_primitive rfl⟩
  | some read => exact read

/-! ## Primitive values -/

theorem follows_tryMethod (m : w.Meet s t) (other : r ≠ w.host) {name : String}
    (mem : .ofString name ∈ conversionKeys) :
    w.Follows n true (Option.Rel Primitive) (Action.tryMethod r name)
      (Action.tryMethod (w.ref r) name) s t := by
  refine .bind (follows_get handles m other) fun x x' u v lands => ?_
  obtain ⟨same, quiet⟩ := lands.related
  refine .bind (follows_callable? lands.meet same) fun f f' u v lands => ?_
  cases lands.related with
  | none => exact .pure lands.meet .none
  | some g =>
    obtain ⟨rfl, -, rfl⟩ := g
    obtain ⟨below, mute⟩ := quiet mem _ rfl
    rw [ref_of_lt below]
    refine .bind (handles.mute below mute (.object other) .nil lands.meet) fun x x' u v lands => ?_
    cases lands.related with
    | object => exact .pure lands.meet .none
    | _ => exact .pure lands.meet (.some ⟨rfl, rfl⟩)

theorem follows_firstOf (m : w.Meet s t) (other : r ≠ w.host) {names : List String}
    (known : ∀ name ∈ names, Key.ofString name ∈ conversionKeys) :
    w.Follows n true Primitive (Action.firstOf r names) (Action.firstOf (w.ref r) names) s t := by
  induction names generalizing s t with
  | nil => exact .failWith m
  | cons name names ih =>
    refine .bind (follows_tryMethod handles m other (known name List.mem_cons_self))
      fun x x' u v lands => ?_
    cases lands.related with
    | none => exact ih lands.meet fun n mem => known n (List.mem_cons_of_mem _ mem)
    | some found => exact .pure lands.meet found

/-- The primitive value that a method gives for an object. -/
def primitiveBy (hint : Hint) (ref : Nat) (method : Value) : Action Value := do
  match ← Action.callable? method with
  | none => Action.fail "Symbol.toPrimitive is not callable"
  | some f =>
    match ← Action.invoke f (.object ref) [.string (Units.ofString hint.name)] with
    | .object _ => Action.fail "Cannot convert object to primitive value"
    | v => return v

theorem follows_primitiveOf (m : w.Meet s t) (other : r ≠ w.host) (hint : Hint) :
    w.Follows n true Primitive (Action.primitiveOf hint r) (Action.primitiveOf hint (w.ref r))
      s t := by
  have mem : WellKnown.toPrimitive.key ∈ conversionKeys := by decide
  have known : ∀ name ∈ (if hint = .text then ["toString", "valueOf"] else ["valueOf", "toString"]),
      Key.ofString name ∈ conversionKeys := by cases hint <;> decide
  refine .bind (follows_get handles m other) fun x x' u v lands => ?_
  have meet := lands.meet
  obtain ⟨same, quiet⟩ := lands.related
  have called : w.Follows n true Primitive (primitiveBy hint r x) (primitiveBy hint (w.ref r) x')
      u v := by
    refine .bind (follows_callable? meet same) fun f f' u v lands => ?_
    cases lands.related with
    | none => exact .failWith lands.meet
    | some g =>
      obtain ⟨rfl, -, rfl⟩ := g
      obtain ⟨below, mute⟩ := quiet mem _ rfl
      rw [ref_of_lt below]
      refine .bind (handles.mute below mute (.object other) (.cons (.string _) .nil) lands.meet)
        fun x x' u v lands => ?_
      cases lands.related with
      | object => exact .failWith lands.meet
      | _ => exact .pure lands.meet ⟨rfl, rfl⟩
  cases same with
  | undefined | null => all_goals exact follows_firstOf handles meet other known
  | _ => exact called

theorem follows_toPrimitive (m : w.Meet s t) (same : w.Values x x') (hint : Hint) :
    w.Follows n true Primitive (Action.toPrimitive hint x) (Action.toPrimitive hint x') s t := by
  cases same with
  | object other => exact follows_primitiveOf handles m other hint
  | _ => exact .pure m ⟨rfl, rfl⟩

omit handles in
theorem follows_primitiveText (m : w.Meet s t) (x : Value) :
    w.Follows n silent Eq (Action.primitiveText x) (Action.primitiveText x) s t := by
  cases x with
  | symbol => exact .failWith m
  | _ => exact .pure m rfl

theorem follows_toText (m : w.Meet s t) (same : w.Values x x') :
    w.Follows n true Eq (Action.toText x) (Action.toText x') s t := by
  cases same with
  | object other =>
    refine .bind (follows_primitiveOf handles m other .text) fun y y' u v lands => ?_
    obtain ⟨rfl, -⟩ := lands.related
    exact follows_primitiveText lands.meet _
  | string => exact .pure m rfl
  | _ =>
    simp only [Action.toText]
    exact follows_primitiveText m _

theorem follows_display (m : w.Meet s t) (same : w.Values x x') :
    w.Follows n true Eq (Action.display x) (Action.display x') s t := by
  cases same with
  | symbol id =>
    refine .read_bind ?_
    rw [m.symbols.1, m.symbols.2]
    exact .pure m rfl
  | object other => exact follows_toText handles m (.object other)
  | undefined => exact follows_toText handles m .undefined
  | null => exact follows_toText handles m .null
  | bool b => exact follows_toText handles m (.bool b)
  | number x => exact follows_toText handles m (.number x)
  | string u => exact follows_toText handles m (.string u)

omit handles in
theorem follows_primitiveNumber (m : w.Meet s t) (readText : Units → Numeric) (x : Value) :
    w.Follows n silent Eq (Action.primitiveNumber readText x) (Action.primitiveNumber readText x)
      s t := by
  cases x with
  | symbol => exact .failWith m
  | _ => exact .pure m rfl

/-- Both conversions to numbers. -/
theorem follows_number (m : w.Meet s t) (same : w.Values x x') :
    w.Follows n true Eq (Action.toNumber x) (Action.toNumber x') s t
      ∧ w.Follows n true Eq (Action.toOperand x) (Action.toOperand x') s t := by
  have convert {r : Nat} (other : r ≠ w.host) (readText : Units → Numeric) :
      w.Follows n true Eq
        (do Action.primitiveNumber readText (← Action.primitiveOf .number r))
        (do Action.primitiveNumber readText (← Action.primitiveOf .number (w.ref r))) s t := by
    refine .bind (follows_primitiveOf handles m other .number) fun y y' u v lands => ?_
    obtain ⟨rfl, -⟩ := lands.related
    exact follows_primitiveNumber lands.meet _ _
  cases same with
  | object other => exact ⟨convert other _, convert other _⟩
  | number => exact ⟨.pure m rfl, .pure m rfl⟩
  | _ =>
    simp only [Action.toNumber, Action.toOperand]
    exact ⟨follows_primitiveNumber m _ _, follows_primitiveNumber m _ _⟩

theorem follows_toKey (m : w.Meet s t) (same : w.Values x x') :
    w.Follows n true Eq (Action.toKey x) (Action.toKey x') s t := by
  have text {u v : Store} (m : w.Meet u v) (x : Value) : w.Follows n true Eq
      (do return Key.ofUnits (← Action.primitiveText x))
      (do return Key.ofUnits (← Action.primitiveText x)) u v :=
    .bind (follows_primitiveText m x) fun _ _ _ _ lands =>
      .pure lands.meet (congrArg Key.ofUnits lands.related)
  cases same with
  | object other =>
    refine .bind (follows_primitiveOf handles m other .text) fun y y' u v lands => ?_
    obtain ⟨rfl, -⟩ := lands.related
    cases y' with
    | symbol => exact .pure lands.meet rfl
    | _ => exact text lands.meet _
  | string | number | symbol => all_goals exact .pure m rfl
  | _ => exact text m _

/-! ## Operators -/

omit handles in
theorem strictEquals_eq (same : w.Values x x') (same' : w.Values y y') :
    x'.strictEquals y' = x.strictEquals y := by
  cases same <;> cases same' <;> simp [Value.strictEquals, ref_injective]

theorem follows_looseEquals (m : w.Meet s t) (same : w.Values x x') (same' : w.Values y y') :
    w.Follows n true Eq (Action.looseEquals x y) (Action.looseEquals x' y') s t := by
  have convert {r : Nat} (other : r ≠ w.host) (f : Value → Bool) :
      w.Follows n true Eq (do return f (← Action.primitiveOf .none r))
        (do return f (← Action.primitiveOf .none (w.ref r))) s t :=
    .bind (follows_primitiveOf handles m other .none) fun _ _ _ _ lands =>
      .pure lands.meet (congrArg f lands.related.same.symm)
  cases same with
  | object other =>
    cases same' with
    | object => exact .pure m (by simp [ref_injective])
    | undefined | null => all_goals exact .pure m rfl
    | bool | number | string | symbol => all_goals exact convert other _
  | undefined | null =>
    all_goals cases same' <;> exact .pure m rfl
  | bool | number | string | symbol =>
    all_goals
      cases same' with
      | object other => exact convert other _
      | _ => exact .pure m rfl

theorem follows_below (m : w.Meet s t) {a b : Value} (left : a.isPrimitive = true)
    (right : b.isPrimitive = true) :
    w.Follows n true Eq (Action.below a b) (Action.below a b) s t := by
  have numbers : w.Follows n true Eq
      (do
        let x ← Action.toOperand a
        let y ← Action.toOperand b
        if x.isNaN || y.isNaN then return none else return some (x.lt y))
      (do
        let x ← Action.toOperand a
        let y ← Action.toOperand b
        if x.isNaN || y.isNaN then return none else return some (x.lt y)) s t := by
    refine .bind (follows_number handles m (values_of_primitive left)).2 fun x x' u v lands => ?_
    obtain rfl := lands.related
    refine .bind (follows_number handles lands.meet (values_of_primitive right)).2
      fun y y' u v lands => ?_
    obtain rfl := lands.related
    split
    · exact .pure lands.meet rfl
    · exact .pure lands.meet rfl
  cases a with
  | string =>
    cases b with
    | string => exact .pure m rfl
    | _ => exact numbers
  | _ => exact numbers

theorem follows_compare (m : w.Meet s t) (same : w.Values x x') (same' : w.Values y y')
    (swapped : Bool) :
    w.Follows n true Eq (Action.compare x y swapped) (Action.compare x' y' swapped) s t := by
  refine .bind (follows_toPrimitive handles m same .number) fun a a' u v lands => ?_
  obtain ⟨rfl, left⟩ := lands.related
  refine .bind (follows_toPrimitive handles lands.meet same' .number) fun b b' u v lands => ?_
  obtain ⟨rfl, right⟩ := lands.related
  cases swapped with
  | true => exact follows_below handles lands.meet right left
  | false => exact follows_below handles lands.meet left right

theorem follows_sum (m : w.Meet s t) (same : w.Values x x') (same' : w.Values y y') :
    w.Follows n true w.Values (Action.sum x y) (Action.sum x' y') s t := by
  refine .bind (follows_toPrimitive handles m same .none) fun a a' u v lands => ?_
  obtain ⟨rfl, left⟩ := lands.related
  refine .bind (follows_toPrimitive handles lands.meet same' .none) fun b b' u v lands => ?_
  obtain ⟨rfl, right⟩ := lands.related
  have meet := lands.meet
  have text (c : Value) (f : Units → Units) : w.Follows n true w.Values
      (do return .string (f (← Action.primitiveText c)))
      (do return .string (f (← Action.primitiveText c))) u v :=
    .bind (follows_primitiveText meet c) fun _ _ _ _ lands =>
      .pure lands.meet (lands.related ▸ .string _)
  have numbers : w.Follows n true w.Values
      (do
        let x ← Action.toOperand a'
        let y ← Action.toOperand b'
        return .number (x.add y))
      (do
        let x ← Action.toOperand a'
        let y ← Action.toOperand b'
        return .number (x.add y)) u v := by
    refine .bind (follows_number handles meet (values_of_primitive left)).2
      fun x x' u v lands => ?_
    obtain rfl := lands.related
    refine .bind (follows_number handles lands.meet (values_of_primitive right)).2
      fun y y' u v lands => ?_
    obtain rfl := lands.related
    exact .pure lands.meet (.number _)
  cases a' with
  | string a => exact text _ _
  | _ =>
    cases b' with
    | string b => exact text _ _
    | _ => exact numbers

theorem follows_arithmetic (m : w.Meet s t) (same : w.Values x x') (same' : w.Values y y')
    (f : Numeric → Numeric → Numeric) :
    w.Follows n true w.Values (Action.arithmetic f x y) (Action.arithmetic f x' y') s t := by
  refine .bind (follows_number handles m same).2 fun a a' u v lands => ?_
  obtain rfl := lands.related
  refine .bind (follows_number handles lands.meet same').2 fun b b' u v lands => ?_
  obtain rfl := lands.related
  exact .pure lands.meet (.number _)

theorem follows_integer? (m : w.Meet s t) (same : w.Values x x') :
    w.Follows n true Eq (Action.integer? x) (Action.integer? x') s t := by
  refine .bind (follows_number handles m same).1 fun a a' u v lands => ?_
  obtain rfl := lands.related
  cases a <;> exact .pure lands.meet rfl

theorem follows_integersFirst (m : w.Meet s t) (same : w.Values x x') (same' : w.Values y y')
    (f : Numeric → Numeric → Numeric) :
    w.Follows n true Eq (Action.integersFirst f x y) (Action.integersFirst f x' y') s t := by
  have others {u v : Store} (meet : w.Meet u v) : w.Follows n true Eq
      (do
        let a ← Action.toOperand x
        let b ← Action.toOperand y
        return f a b)
      (do
        let a ← Action.toOperand x'
        let b ← Action.toOperand y'
        return f a b) u v := by
    refine .bind (follows_number handles meet same).2 fun a a' u v lands => ?_
    obtain rfl := lands.related
    refine .bind (follows_number handles lands.meet same').2 fun b b' u v lands => ?_
    obtain rfl := lands.related
    exact .pure lands.meet rfl
  refine .bind (follows_integer? handles m same) fun a a' u v lands => ?_
  obtain rfl := lands.related
  cases a with
  | none => exact others lands.meet
  | some a =>
    refine .bind (follows_integer? handles lands.meet same') fun b b' u v lands => ?_
    obtain rfl := lands.related
    cases b with
    | none => exact others lands.meet
    | some b => exact .pure lands.meet rfl

theorem follows_converting {op : BinaryOp} (generated : op.isGenerated = true) (m : w.Meet s t)
    (same : w.Values x x') (same' : w.Values y y') :
    w.Follows n true w.Values (Action.converting op x y) (Action.converting op x' y') s t := by
  have loose (f : Bool → Bool) : w.Follows n true w.Values
      (do return .bool (f (← Action.looseEquals x y)))
      (do return .bool (f (← Action.looseEquals x' y'))) s t :=
    .bind (follows_looseEquals handles m same same') fun _ _ _ _ lands =>
      .pure lands.meet (lands.related ▸ .bool _)
  have order (swapped : Bool) : w.Follows n true w.Values
      (do return .bool ((← Action.compare x y swapped) = some true))
      (do return .bool ((← Action.compare x' y' swapped) = some true)) s t :=
    .bind (follows_compare handles m same same' swapped) fun _ _ _ _ lands =>
      .pure lands.meet (lands.related ▸ .bool _)
  cases op with
  | add => exact follows_sum handles m same same'
  | subtract | divide => all_goals exact follows_arithmetic handles m same same' _
  | multiply =>
    exact .bind (follows_integersFirst handles m same same' _) fun _ _ _ _ lands =>
      .pure lands.meet (lands.related ▸ .number _)
  | looseEqual => exact loose id
  | looseUnequal => exact loose not
  | strictEqual | strictUnequal =>
    all_goals exact .pure m (strictEquals_eq same same' ▸ .bool _)
  | less => exact order false
  | greater => exact order true
  | _ => cases generated

omit handles in
theorem binary_of_others (op : BinaryOp) (others : ∀ p q, ¬ (x = .number p ∧ y = .number q)) :
    Action.binary op x y = match op with
      | .strictEqual => pure (.bool (x.strictEquals y))
      | .strictUnequal => pure (.bool !(x.strictEquals y))
      | op => Action.converting op x y := by
  unfold Action.binary
  split
  · exact absurd ⟨rfl, rfl⟩ (others _ _)
  · rfl

theorem follows_binary {op : BinaryOp} (generated : op.isGenerated = true) (m : w.Meet s t)
    (same : w.Values x x') (same' : w.Values y y') :
    w.Follows n true w.Values (Action.binary op x y) (Action.binary op x' y') s t := by
  by_cases numbers : ∃ p q, x = .number p ∧ y = .number q
  · obtain ⟨p, q, rfl, rfl⟩ := numbers
    cases same
    cases same'
    cases op with
    | add | subtract | multiply | divide => all_goals exact .pure m (.number _)
    | looseEqual | looseUnequal | strictEqual | strictUnequal | less | greater =>
      all_goals exact .pure m (.bool _)
    | _ => cases generated
  · have numbers' : ¬ ∃ p q, x' = .number p ∧ y' = .number q := by
      rintro ⟨p, q, rfl, rfl⟩
      cases same
      cases same'
      exact numbers ⟨p, q, rfl, rfl⟩
    rw [binary_of_others op fun p q both => numbers ⟨p, q, both⟩,
      binary_of_others op fun p q both => numbers' ⟨p, q, both⟩]
    have converts := follows_converting handles generated m same same'
    cases op with
    | strictEqual | strictUnequal => all_goals exact .pure m (strictEquals_eq same same' ▸ .bool _)
    | _ => exact converts

theorem follows_negated (m : w.Meet s t) (same : w.Values x x') :
    w.Follows n true Eq (Action.negated x) (Action.negated x') s t := by
  refine .bind (follows_integer? handles m same) fun a a' u v lands => ?_
  obtain rfl := lands.related
  cases a with
  | some a => exact .pure lands.meet rfl
  | none =>
    refine .bind (follows_number handles lands.meet same).2 fun a a' u v lands => ?_
    obtain rfl := lands.related
    exact .pure lands.meet rfl

end

end EggLang.Script.Shift
