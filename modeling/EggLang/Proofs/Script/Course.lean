import EggLang.Proofs.Script.Call
import EggLang.Proofs.Script.Evaluation

/-!
# The machine in lockstep

The stops of generated code are gone through in lockstep: calls of functions, of those that print
or convert, and rounds of loops. By induction on their number, so is all that statements do.
-/

namespace EggLang.Script.Shift

variable {w : Shift} {s t u v : Store} {n r i : Nat} {silent : Bool} {key : Key} {name : String}
  {x x' y y' : Value} {α β γ δ : Type} {bound : List String} {args args' as as' : List Value}

/-! ## Functions that convert values -/

theorem values_arg (same : List.Forall₂ w.Values args args') (i : Nat) :
    w.Values (Library.arg args i) (Library.arg args' i) := by
  induction same generalizing i with
  | nil => exact .undefined
  | cons first _ ih =>
    cases i with
    | zero => exact first
    | succ i => exact ih i

theorem follows_mapEach {R : α → β → Prop} {Q : γ → δ → Prop} {f : α → Action γ}
    {f' : β → Action δ} {as : List α} {bs : List β} (same : List.Forall₂ R as bs)
    (m : w.Meet s t)
    (each : ∀ a b u v, R a b → w.Meet u v → w.Follows n silent Q (f a) (f' b) u v) :
    w.Follows n silent (List.Forall₂ Q) (Action.mapEach f as) (Action.mapEach f' bs) s t := by
  induction same generalizing s t with
  | nil => exact .pure m .nil
  | cons first _ ih =>
    refine .bind (each _ _ _ _ first m) fun c d u v lands => ?_
    exact .bind (ih lands.meet) fun cs ds u v rest =>
      .pure rest.meet (.cons lands.related rest.related)

theorem follows_foldUp {R : α → β → Prop} {f : α → Nat → Action α} {f' : β → Nat → Action β}
    {a : α} {b : β} (count start : Nat) (first : R a b) (m : w.Meet s t)
    (each : ∀ a b i u v, R a b → w.Meet u v → w.Follows n silent R (f a i) (f' b i) u v) :
    w.Follows n silent R (Library.foldUp f count start a) (Library.foldUp f' count start b)
      s t := by
  induction count generalizing start a b s t with
  | zero => exact .pure m first
  | succ count ih =>
    exact .bind (each a b start s t first m) fun c d u v lands =>
      ih (start + 1) lands.related lands.meet

theorem Meet.arrayLength? (m : w.Meet s t) (other : r ≠ w.host) :
    t.arrayLength? (w.ref r) = s.arrayLength? r := by
  have kind := (m.heaps.object other).kind
  rw [Store.arrayLength?, Store.arrayLength?]
  generalize (s.object r).kind = k, (t.object (w.ref r)).kind = k' at kind
  cases kind <;> rfl

theorem Meet.sortName (m : w.Meet s t) (other : r ≠ w.host) :
    Library.sortName (t.object (w.ref r)) = Library.sortName (s.object r) := by
  have kind := (m.heaps.object other).kind
  rw [Library.sortName, Library.sortName]
  generalize (s.object r).kind = k, (t.object (w.ref r)).kind = k' at kind
  cases kind <;> rfl

theorem Meet.functionText_eq (m : w.Meet s t) {f g : Function} {j j' : Nat} (other : r ≠ w.host)
    (kind : (s.object r).kind = .closure f j) (kind' : (t.object (w.ref r)).kind = .closure g j') :
    g.text = f.text := by
  rcases Nat.lt_or_gt_of_ne other with below | beyond
  · have sort := (m.heaps.ready.builtIn.objects r).kind
    rw [← (m.heaps.kept below).1, kind] at sort
    cases sort
  · obtain ⟨f', bound, there, twins, -⟩ := m.closures beyond kind
    cases there.symm.trans kind'
    cases twins with
    | mk _ _ _ _ _ text => exact text

/-- An object and the one that corresponds to it. -/
def Refs (w : Shift) (r r' : Nat) : Prop := r ≠ w.host ∧ r' = w.ref r

theorem follows_toObject (m : w.Meet s t) (same : w.Values x x') :
    w.Follows n silent w.Refs (Action.toObject x) (Action.toObject x') s t := by
  have boxed {y : Value} (primitive : y.isPrimitive = true) (home : Intrinsic) :
      w.Follows n silent w.Refs
        (Action.alloc { kind := .boxed y, proto := some home.ref })
        (Action.alloc { kind := .boxed y, proto := some home.ref }) s t := by
    have objects : w.Objects { kind := .boxed y, proto := some home.ref }
        { kind := .boxed y, proto := some home.ref } := by
      refine ⟨.boxed primitive, rfl, ?_, .nil⟩
      rintro p ⟨⟩
      exact m.heaps.intrinsic home
    exact (follows_alloc m objects (isMade_of_empty rfl) (by simp)).weaken fun a b made =>
      ⟨Nat.ne_of_gt made.1, made.2⟩
  cases same with
  | undefined | null => all_goals exact .failWith m
  | object other => exact .pure m ⟨other, rfl⟩
  | bool b => exact boxed (y := .bool b) rfl .booleanPrototype
  | number a => exact boxed (y := .number a) rfl .numberPrototype
  | string a => exact boxed (y := .string a) rfl .stringPrototype
  | symbol a => exact boxed (y := .symbol a) rfl .symbolPrototype

section

variable (handles : w.Handles n)

include handles

theorem follows_lengthOf (m : w.Meet s t) (other : r ≠ w.host) :
    w.Follows n true Eq (Action.lengthOf r) (Action.lengthOf (w.ref r)) s t := by
  refine .read_bind ?_
  rw [m.arrayLength? other]
  cases s.arrayLength? r with
  | some e => exact .pure m rfl
  | none =>
    refine .bind (follows_get handles m other)
      fun a a' u v (lands : w.Lands _ (w.Reads lengthKey) ..) =>
      ?_
    refine .bind (R := Eq) ?_ fun a a' u v lands => .pure lands.meet (by rw [lands.related])
    exact .bind (follows_number handles lands.meet lands.related.same).1 fun a a' u v lands =>
      .pure lands.meet (by rw [lands.related])

/-- The text of an object that a value is, or stands in. -/
def taggedText (x : Value) : Action Units := do
  let ref ← Action.toObject x
  let word ← match ← Action.get ref WellKnown.toStringTag.key with
    | .string s => pure s
    | _ => do pure (Units.ofString (Library.sortName (← Action.read (·.object ref))))
  return Units.ofString "[object " ++ word ++ Units.ofString "]"

theorem follows_generalText (m : w.Meet s t) (same : w.Values x x') :
    w.Follows n true Eq (Library.generalText x) (Library.generalText x') s t := by
  have tagged {u v : Store} {a a' : Value} (m : w.Meet u v) (same : w.Values a a') :
      w.Follows n true Eq (taggedText a) (taggedText a') u v := by
    refine .bind (follows_toObject m same) fun r r' u v made => ?_
    obtain ⟨other, rfl⟩ := made.related
    refine .bind (follows_get handles made.meet other) fun b b' u v
      (lands : w.Lands _ (w.Reads WellKnown.toStringTag.key) ..) => ?_
    have sorted : w.Follows n true Eq
        (do
          let o ← Action.read (·.object r)
          return Units.ofString "[object " ++ Units.ofString (Library.sortName o)
            ++ Units.ofString "]")
        (do
          let o ← Action.read (·.object (w.ref r))
          return Units.ofString "[object " ++ Units.ofString (Library.sortName o)
            ++ Units.ofString "]") u v := by
      refine .read_bind ?_
      rw [lands.meet.sortName other]
      exact .pure lands.meet rfl
    cases lands.related.same with
    | string => exact .pure lands.meet rfl
    | _ => exact sorted
  cases same with
  | undefined | null => all_goals exact .pure m rfl
  | object other => exact tagged m (.object other)
  | bool b => exact tagged m (.bool b)
  | number a => exact tagged m (.number a)
  | string a => exact tagged m (.string a)
  | symbol a => exact tagged m (.symbol a)

theorem follows_elementText (m : w.Meet s t) (same : w.Values x x') :
    w.Follows n true Eq (Library.elementText x) (Library.elementText x') s t := by
  cases same with
  | undefined | null => all_goals exact .pure m rfl
  | object other => exact follows_toText handles m (.object other)
  | bool b => exact follows_toText handles m (.bool b)
  | number a => exact follows_toText handles m (.number a)
  | string a => exact follows_toText handles m (.string a)
  | symbol a => exact follows_toText handles m (.symbol a)

theorem follows_join (m : w.Meet s t) (same : w.Values x x')
    (sames : List.Forall₂ w.Values args args') :
    w.Follows n true w.Values (Library.arrayMethod .join x args)
      (Library.arrayMethod .join x' args') s t := by
  refine .bind (follows_toObject m same) fun r r' u v made => ?_
  obtain ⟨other, rfl⟩ := made.related
  refine .bind (follows_lengthOf handles made.meet other) fun l l' u v counted => ?_
  obtain rfl := counted.related
  have first := values_arg sames 0
  have texts {u v : Store} (separator : Units) (m : w.Meet u v) : w.Follows n true w.Values
      (do
        let texts ← Library.foldUp (fun (acc : List Units) i => do
          return (← Library.elementText (← Action.get r (.ofNat i))) :: acc) l 0 []
        return .string (Library.joined separator texts.reverse))
      (do
        let texts ← Library.foldUp (fun (acc : List Units) i => do
          return (← Library.elementText (← Action.get (w.ref r) (.ofNat i))) :: acc) l 0 []
        return .string (Library.joined separator texts.reverse)) u v := by
    refine .bind (follows_foldUp (R := Eq) l 0 rfl m fun acc acc' i u v same m => ?_)
      fun a a' u v lands => .pure lands.meet (lands.related ▸ .string _)
    refine .bind (follows_get handles m other) fun b b' u v
      (lands : w.Lands _ (w.Reads (.ofNat i)) ..) => ?_
    refine .bind (follows_elementText handles lands.meet lands.related.same)
      fun c c' u v lands => .pure lands.meet ?_
    rw [lands.related, same]
  have meet := counted.meet
  dsimp only
  generalize Library.arg args 0 = a, Library.arg args' 0 = a' at first ⊢
  by_cases undefined : a = .undefined
  · subst undefined
    cases first
    exact texts _ meet
  · have undefined' : a' ≠ .undefined := by
      rintro rfl
      cases first
      exact undefined rfl
    rw [if_neg undefined, if_neg undefined']
    exact .bind (follows_toText handles meet first) fun b b' u v lands =>
      lands.related ▸ texts b lands.meet

/-- The text of an array is what its elements are joined to. -/
theorem follows_arrayText (m : w.Meet s t) (same : w.Values x x') (args args' : List Value) :
    w.Follows n true w.Values (Library.arrayMethod .toString x args)
      (Library.arrayMethod .toString x' args') s t := by
  refine .bind (follows_toObject m same) fun r r' u v made => ?_
  obtain ⟨other, rfl⟩ := made.related
  refine .bind (follows_get handles made.meet other) fun b b' u v
    (lands : w.Lands _ (w.Reads (.ofString "join")) ..) => ?_
  obtain ⟨same, silent⟩ := lands.related
  refine .bind (follows_callable? lands.meet same) fun f f' u v lands => ?_
  cases lands.related with
  | none =>
    exact .bind (follows_generalText handles lands.meet (.object other)) fun c c' u v lands =>
      .pure lands.meet (lands.related ▸ .string _)
  | some found =>
    obtain ⟨rfl, -, rfl⟩ := found
    obtain ⟨below, mute⟩ := silent (by decide) _ rfl
    rw [ref_of_lt below]
    exact handles.mute below mute (.object other) .nil lands.meet

theorem follows_functionText (m : w.Meet s t) (other : r ≠ w.host) :
    w.Follows n true Eq (Library.functionText r) (Library.functionText (w.ref r)) s t := by
  have named : w.Follows n true Eq
      (do
        let name ← Action.toText (← Action.get r nameKey)
        return Units.ofString "function " ++ name ++ Units.ofString "() \x7b [native code] \x7d")
      (do
        let name ← Action.toText (← Action.get (w.ref r) nameKey)
        return Units.ofString "function " ++ name ++ Units.ofString "() \x7b [native code] \x7d")
      s t := by
    refine .bind (follows_get handles m other) fun b b' u v
      (lands : w.Lands _ (w.Reads nameKey) ..) => ?_
    exact .bind (follows_toText handles lands.meet lands.related.same) fun c c' u v lands =>
      .pure lands.meet (by rw [lands.related])
  have kind := (m.heaps.object other).kind
  refine .read_bind ?_
  cases at_s : (s.object r).kind with
  | closure f j =>
    rw [at_s] at kind
    generalize at_t : (t.object (w.ref r)).kind = z at kind ⊢
    cases kind with
    | closure _ g =>
      exact .pure m (congrArg Units.ofChars (m.functionText_eq other at_s at_t).symm)
  | _ =>
    rw [at_s] at kind
    generalize (t.object (w.ref r)).kind = z at kind ⊢
    cases kind <;> exact named

/-- What generated code calls of the functions that were there. -/
theorem follows_native {f : Native} (quiet : f.isQuiet = true) (mute : silent = true → f ≠ .log)
    (m : w.Meet s t) (same : w.Values x x') (sames : List.Forall₂ w.Values args args') :
    w.Follows n silent w.Values (Library.call f x args none) (Library.call f x' args' none)
      s t := by
  cases f with
  | log =>
    have loud : silent = false := by
      cases silent with
      | true => exact absurd rfl (mute rfl)
      | false => rfl
    subst loud
    refine .bind (follows_mapEach sames m fun a b u v same m =>
      (follows_display handles m same).loud) fun texts texts' u v lands => ?_
    obtain rfl : texts = texts' := List.forall₂_eq_eq_eq ▸ lands.related
    refine .yields (fun _ _ => rfl) (fun _ _ => rfl) ⟨.undefined, lands.meet.log _, ?_, by simp⟩
    exact grows_of_closures rfl rfl fun _ _ _ kind => kind
  | array f =>
    cases f with
    | toString => exact (follows_arrayText handles m same args args').loud
    | join => exact (follows_join handles m same sames).loud
    | _ => cases quiet
  | object f =>
    cases f with
    | toString =>
      exact .bind (follows_generalText handles m same).loud fun a a' u v lands =>
        .pure lands.meet (lands.related ▸ .string _)
    | valueOf =>
      refine .bind (follows_toObject m same) fun r r' u v lands => .pure lands.meet ?_
      obtain ⟨other, rfl⟩ := lands.related
      exact .object other
    | _ => cases quiet
  | function f =>
    cases f with
    | toString =>
      refine .bind (follows_callable? m same) fun f f' u v lands => ?_
      cases lands.related with
      | none => exact .failWith lands.meet
      | some found =>
        obtain ⟨rfl, other, rfl⟩ := found
        exact .bind (follows_functionText handles lands.meet other).loud fun a a' u v lands =>
          .pure lands.meet (lands.related ▸ .string _)
    | _ => cases quiet
  | _ => cases quiet

end

/-! ## Scopes of calls -/

/-- A variable and the one of the same name that corresponds to it. -/
def Named (w : Shift) (e e' : String × Variable) : Prop := e'.1 = e.1 ∧ w.Variables e.2 e'.2

variable {vs vs' : List (String × Variable)}

theorem lookup_rel (same : List.Forall₂ w.Named vs vs') (name : String) :
    Option.Rel w.Variables (vs.lookup name) (vs'.lookup name) := by
  induction same with
  | nil => exact .none
  | @cons e e' _ _ first _ ih =>
    obtain ⟨n, x⟩ := e
    obtain ⟨n', x'⟩ := e'
    obtain ⟨rfl, var⟩ := first
    rw [List.lookup_cons, List.lookup_cons]
    cases name == n' with
    | true => exact .some var
    | false => exact ih

theorem setNamed_rel (same : List.Forall₂ w.Named vs vs') (name : String) {z z' : Variable}
    (now : w.Variables z z') :
    List.Forall₂ w.Named (Store.setNamed name z vs) (Store.setNamed name z' vs') := by
  induction same with
  | nil => exact .cons ⟨rfl, now⟩ .nil
  | @cons e e' _ _ first rest ih =>
    obtain ⟨n, x⟩ := e
    obtain ⟨n', x'⟩ := e'
    obtain ⟨rfl, var⟩ := first
    rw [Store.setNamed, Store.setNamed]
    split_ifs
    · exact .cons ⟨rfl, now⟩ rest
    · exact .cons ⟨rfl, var⟩ ih

theorem variables_new : w.Variables {} {} := ⟨.some .undefined, rfl⟩

theorem bindParameters_rel (ps : List String) (args : List.Forall₂ w.Values as as')
    (same : List.Forall₂ w.Named vs vs') :
    List.Forall₂ w.Named (bindParameters ps as vs) (bindParameters ps as' vs') := by
  induction ps generalizing as as' vs vs' with
  | nil =>
    rw [bindParameters, bindParameters]
    exact same
  | cons p ps ih =>
    cases args with
    | nil => exact ih .nil (setNamed_rel same p variables_new)
    | cons first rest => exact ih rest (setNamed_rel same p ⟨.some first, rfl⟩)

theorem declareNew_rel (ns : List String) (same : List.Forall₂ w.Named vs vs') :
    List.Forall₂ w.Named (declareNew ns vs) (declareNew ns vs') := by
  induction ns generalizing vs vs' with
  | nil => exact same
  | cons n ns ih =>
    have there : (vs'.lookup n).isSome = (vs.lookup n).isSome := by
      have found := lookup_rel same n
      generalize vs.lookup n = a, vs'.lookup n = b at found
      cases found <;> rfl
    refine ih ?_
    dsimp only
    rw [there]
    split_ifs
    · exact same
    · exact List.rel_append same (.cons ⟨rfl, variables_new⟩ .nil)

/-- The variables of a call whose function declares nothing for its body as a block. -/
def plainVariables (info : FunctionInfo) (args : List Value) : List (String × Variable) :=
  declareNew info.variables_ (bindParameters info.parameters args [])

theorem callVariables_eq {f : Function} (simple : f.info.isSimple = true)
    (plain : blockVariables f.body = []) (args : List Value) :
    Action.callVariables f args = plainVariables f.info args := by
  simp only [Action.callVariables, simple, if_true, plain, List.append_nil, plainVariables]
  split_ifs with empty
  · rw [List.isEmpty_iff.1 empty]
    rfl
  · rfl

theorem enter_eq {f : Function} (normal : f.info.kind = .normal) (simple : f.info.isSimple = true)
    (free : "arguments" ∉ f.info.variables_) (plain : blockVariables f.body = [])
    (functions : Stmt.functions f.body = []) (ref scope : Nat) (self : Value) (args : List Value) :
    Action.enter ref f scope self args none = Action.inScope
      { variables_ := plainVariables f.info args, outer := some scope
        frame := some { callee := ref, self, args } }
      fun inner => Action.execAll (.within inner) f.body none := by
  have undeclared : f.info.variables_.contains "arguments" = false := by simpa using free
  rw [Action.enter, callVariables_eq simple plain]
  simp only [normal, reduceCtorEq, if_false, simple, Bool.not_true, Bool.false_eq_true,
    undeclared, Bool.and_false, Bool.false_and, functions]
  rfl

theorem isSome_setNamed {vs : List (String × Variable)} (z : Variable) (p : String)
    (named : name = p ∨ (vs.lookup name).isSome) :
    ((Store.setNamed p z vs).lookup name).isSome := by
  rw [lookup_setNamed]
  split_ifs with same
  · rfl
  · exact named.resolve_left same

theorem isSome_bindParameters (ps : List String) (args : List Value)
    {vs : List (String × Variable)} (named : name ∈ ps ∨ (vs.lookup name).isSome) :
    ((bindParameters ps args vs).lookup name).isSome := by
  induction ps generalizing args vs with
  | nil =>
    rw [bindParameters]
    exact named.resolve_left List.not_mem_nil
  | cons p ps ih =>
    have next (z : Variable) :
        name ∈ ps ∨ ((Store.setNamed p z vs).lookup name).isSome := by
      rw [List.mem_cons] at named
      rcases named with (first | rest) | old
      · exact .inr (isSome_setNamed z p (.inl first))
      · exact .inl rest
      · exact .inr (isSome_setNamed z p (.inr old))
    cases args with
    | nil => exact ih [] (next _)
    | cons a args => exact ih args (next _)

theorem isSome_declareNew (ns : List String) {vs : List (String × Variable)}
    (named : name ∈ ns ∨ (vs.lookup name).isSome) : ((declareNew ns vs).lookup name).isSome := by
  induction ns generalizing vs with
  | nil => exact named.resolve_left List.not_mem_nil
  | cons n ns ih =>
    refine ih ?_
    dsimp only
    rw [List.mem_cons] at named
    by_cases there : (vs.lookup n).isSome
    · rw [if_pos there]
      rcases named with (rfl | rest) | old
      · exact .inr there
      · exact .inl rest
      · exact .inr old
    · rw [if_neg there, List.lookup_append]
      rcases named with (rfl | rest) | old
      · exact .inr (by cases vs.lookup name <;> simp)
      · exact .inl rest
      · exact .inr (by rw [Option.isSome_or, old, Bool.true_or])

/-- In the scope of a call the parameters and variables of the function are bound, and what is bound
around it. -/
theorem binds_openScope {info : FunctionInfo} {args : List Value} {sc : Scope}
    (binds : s.Binds i bound) (variables_ : sc.variables_ = plainVariables info args)
    (outer : sc.outer = some i) :
    (s.openScope sc).2.Binds s.scopes.size (info.parameters ++ info.variables_ ++ bound) := by
  have opened : (s.openScope sc).2.scopes[s.scopes.size]? = some sc := by
    rw [Store.openScope, Array.getElem?_push_size]
  refine ⟨Store.lt_size_of_scope opened, fun name mem other => ?_⟩
  rw [Store.find?, opened]
  dsimp only
  cases named : sc.variables_.lookup name with
  | some x => exact ⟨_, x, rfl⟩
  | none =>
    have bound : name ∈ bound := by
      by_contra free
      have own : name ∈ info.parameters ++ info.variables_ :=
        (List.mem_append.1 mem).resolve_right free
      have declared : (sc.variables_.lookup name).isSome := by
        rw [variables_]
        exact isSome_declareNew _ ((List.mem_append.1 own).symm.imp_right fun parameter =>
          isSome_bindParameters _ args (.inl parameter))
      rw [named] at declared
      cases declared
    obtain ⟨owner, x, found⟩ := (binds.grows (grows_openScope sc)).found name bound other
    have shown : (sc.frame.isSome && name == "arguments") = false := by simp [other]
    rw [shown, outer]
    dsimp only
    rw [if_neg Bool.false_ne_true, if_pos binds.below]
    exact ⟨owner, x, found⟩

/-- What is done in a scope of its own is done in lockstep. -/
theorem follows_inScope {R : α → β → Prop} {sc sc' : Scope} {f : Nat → Action α}
    {f' : Nat → Action β} (m : w.Meet s t) (same : w.Scopes [] sc sc')
    (inside : w.Meet (s.openScope sc).2 (t.openScope sc').2 →
      w.Follows n silent R (f s.scopes.size) (f' t.scopes.size) (s.openScope sc).2
        (t.openScope sc').2) :
    w.Follows n silent R (Action.inScope sc f) (Action.inScope sc' f') s t := by
  intro l few k h e hopeless settles
  obtain ⟨j, le, a, b, u, v, lands, runs, runs'⟩ :=
    inside (m.openScope same) l few _ h e hopeless settles
  obtain ⟨meet, grows⟩ := m.closeScope lands.meet lands.grows
  refine ⟨j, le, a, b, _, _, ⟨lands.related, meet, grows, fun is => ?_⟩, fun k h => runs _ h,
    fun k h => runs' _ h⟩
  have kept : u.console = s.console := lands.console is
  rw [Store.closeScope]
  split <;> exact kept

/-! ## Calls and rounds -/

theorem follows_seenReceiver (m : w.Meet s t) (same : w.Values x x') :
    w.Follows n silent w.Values (Action.seenReceiver x) (Action.seenReceiver x') s t := by
  have boxed {y y' : Value} (same : w.Values y y') : w.Follows n silent w.Values
      (do return .object (← Action.toObject y)) (do return .object (← Action.toObject y')) s t := by
    refine .bind (follows_toObject m same) fun r r' u v lands => .pure lands.meet ?_
    obtain ⟨other, rfl⟩ := lands.related
    exact .object other
  have global : Intrinsic.global.ref < w.host := m.heaps.intrinsic _
  cases same with
  | undefined | null =>
    all_goals exact .pure m (values_of_below fun r => by rintro ⟨⟩; exact global)
  | object other => exact .pure m (.object other)
  | bool b => exact boxed (.bool b)
  | number a => exact boxed (.number a)
  | string a => exact boxed (.string a)
  | symbol a => exact boxed (.symbol a)

section

variable (handles : w.Handles n)

include handles

theorem follows_enter (m : w.Meet s t) {f g : Function}
    (twins : Function.Twins w.others bound f g) (binds : s.Binds i bound) (r r' : Nat)
    (x x' : Value) (sames : List.Forall₂ w.Values args args') :
    w.Follows n false (w.Completions true) (Action.enter r f i x args none)
      (Action.enter r' g (w.scope i) x' args' none) s t := by
  cases twins with
  | @mk _ info script extent params params' body body' normal nameless simple free free' text
      twins =>
    obtain ⟨⟨plain, functions⟩, plain', functions'⟩ := plain_of_twins twins
    rw [enter_eq (f := .mk info params body) normal simple free' plain functions,
      enter_eq (f := .mk { info with onwards := script, extent } params' body') normal simple free'
        plain' functions']
    have variables_ : List.Forall₂ w.Named (plainVariables info args) (plainVariables info args') :=
      declareNew_rel _ (bindParameters_rel _ sames .nil)
    refine follows_inScope m ⟨rfl, .some ⟨sames.length_eq.symm, rfl, rfl⟩, fun _ =>
      lookup_rel variables_ _⟩ fun meet => ?_
    have inner := follows_execAll handles twins meet (binds_openScope binds rfl rfl) none none
    rwa [m.scope_size] at inner

theorem follows_callClosure (m : w.Meet s t) {f g : Function}
    (twins : Function.Twins w.others bound f g) (binds : s.Binds i bound) (r r' : Nat)
    (same : w.Values x x') (sames : List.Forall₂ w.Values args args') :
    w.Follows n false w.Values (Action.callClosure r f i x args none)
      (Action.callClosure r' g (w.scope i) x' args' none) s t := by
  obtain ⟨normal, -, -, info⟩ := twins.info
  have normal' : g.info.kind = .normal := by rw [info, normal]
  rw [callClosure_normal normal, callClosure_normal normal']
  refine .bind (follows_seenReceiver m same) fun y y' u v seen => ?_
  refine .bind (follows_enter handles seen.meet twins (binds.grows seen.grows) r r' y y' sames)
    fun c c' u v lands => .pure lands.meet ?_
  cases lands.related with
  | normal => exact .undefined
  | returned _ same => exact same

/-- A stop at a call in lockstep. -/
theorem follows_callObject (m : w.Meet s t) (other : r ≠ w.host)
    (quiet : (s.object r).kind.isQuiet = true)
    (mute : silent = true → r < w.host ∧ w.start.IsMute r)
    (same : w.Values x x') (sames : List.Forall₂ w.Values args args') :
    w.Follows n silent w.Values (Action.callObject r x args none)
      (Action.callObject (w.ref r) x' args' none) s t := by
  have kind := (m.heaps.object other).kind
  refine .read_bind ?_
  cases at_s : (s.object r).kind with
  | closure f i =>
    rw [at_s] at kind
    have beyond : w.host < r := by
      refine Nat.lt_of_le_of_ne (Nat.le_of_not_lt fun below => ?_) (Ne.symm other)
      have sort := (m.heaps.ready.builtIn.objects r).kind
      rw [← (m.heaps.kept below).1, at_s] at sort
      cases sort
    have loud : silent = false := by
      cases silent with
      | true => exact absurd (mute rfl).1 (Nat.not_lt.2 (Nat.le_of_lt beyond))
      | false => rfl
    subst loud
    obtain ⟨g, bound, at_t, twins, binds⟩ := m.closures beyond at_s
    rw [at_t]
    exact follows_callClosure handles m twins binds r _ same sames
  | native f =>
    rw [at_s] at kind quiet
    generalize (t.object (w.ref r)).kind = z at kind
    cases kind
    refine follows_native handles quiet (fun is => ?_) m same sames
    obtain ⟨below, mute⟩ := mute is
    rintro rfl
    exact mute ((m.heaps.kept below).1 ▸ at_s)
  | _ =>
    rw [at_s] at quiet
    cases quiet

/-- The next round of a loop in a scope. -/
def nextRound (scope keepers : Nat) (cond : Expr) (body : Stmt) : Action Completion := do
  let next ← Action.refresh scope keepers []
  let _ ← Action.eval (.within next) .hole
  loopOf next cond body

/-- A round of a loop whose condition holds, and the rounds after it. -/
def roundOf (scope : Nat) (cond : Expr) (body : Stmt) : Action Completion := do
  let keepers ← Action.read (·.keepers)
  let c ← Action.exec (.within scope) [] body
  match c.leaves? [] with
  | some c => return c
  | none => nextRound scope keepers cond body

/-- A stop at a round in lockstep. -/
theorem follows_round {ends : Bool} {cond cond' : Expr} {body body' : Stmt}
    (condition : Expr.Twins w.others bound cond cond')
    (twins : Stmt.Twins w.others ends bound body body') (m : w.Meet s t) (binds : s.Binds i bound) :
    w.Follows n false (w.Completions ends) (Action.stepsRound [] i [] cond .hole body true)
      (Action.stepsRound [] (w.scope i) [] cond' .hole body' true) s t := by
  have again {u v : Store} (grows : s.Grows u) (meet : w.Meet u v) (keepers keepers' : Nat) :
      w.Follows n false (w.Completions ends) (nextRound i keepers cond body)
        (nextRound (w.scope i) keepers' cond' body') u v :=
    handles.loop condition twins meet (binds.grows grows)
  have round {u v : Store} (grows : s.Grows u) (meet : w.Meet u v) :
      w.Follows n false (w.Completions ends) (roundOf i cond body)
        (roundOf (w.scope i) cond' body') u v := by
    refine .read_bind (.bind (follows_exec handles twins meet (binds.grows grows))
      fun c c' x y lands => ?_)
    cases lands.related with
    | normal => exact again (grows.trans lands.grows) lands.meet _ _
    | returned is same => exact .pure lands.meet (.returned is same)
  refine .bind (follows_eval handles condition m binds) fun a a' u v lands => ?_
  dsimp only
  rw [isTruthy_eq lands.related]
  cases a.isTruthy with
  | true => exact round lands.grows lands.meet
  | false => exact .pure lands.meet (.normal _ _)

end

/-! ## All stops -/

/-- A stop of an action is a quiet one, and what it does is done in lockstep by fewer stops. -/
theorem Follows.stops {R : α → β → Prop} {m₁ m₂ : Action α} {m₁' m₂' : Action β}
    (quiet : ∀ k h, ((m₁ k h s).isQuiet = true → w.Follows n silent R m₂ m₂' s t))
    (ahead : ∀ k h, (m₁ k h s).step = m₂ k h s) (ahead' : ∀ k h, (m₁' k h t).step = m₂' k h t)
    (going : ∀ k h o e, m₁ k h s ≠ .done o e) : w.Follows (n + 1) silent R m₁ m₁' s t := by
  intro l few k h e hopeless settles
  generalize run : m₁ k h s = r at settles
  cases settles with
  | done => exact absurd run (going k h _ _)
  | @step l _ is rest =>
    subst run
    rw [ahead] at rest
    obtain ⟨j, le, a, b, u, v, lands, runs, runs'⟩ :=
      quiet k h is l (by omega) k h e hopeless rest
    refine ⟨j + 1, by omega, a, b, u, v, lands, fun k h => ?_, fun k h => ?_⟩
    · rw [Function.iterate_succ_apply, ahead, runs]
    · rw [Function.iterate_succ_apply, ahead', runs']

/-- All stops of statements are handled, however many there are. -/
theorem handles_all (w : Shift) (n : Nat) : w.Handles n := by
  induction n with
  | zero =>
    have never {α β : Type} {silent : Bool} {R : α → β → Prop} {m : Action α} {m' : Action β}
        {s t : Store} (going : ∀ k h o e, m k h s ≠ .done o e) : w.Follows 0 silent R m m' s t := by
      intro l few k h e _ settles
      generalize run : m k h s = r at settles
      cases settles with
      | done => exact absurd run (going k h _ _)
      | step => omega
    exact ⟨fun _ _ _ _ => never fun _ _ _ _ => Run.noConfusion,
      fun _ _ _ _ _ => never fun _ _ _ _ => Run.noConfusion,
      fun _ _ _ _ => never fun _ _ _ _ => Run.noConfusion⟩
  | succ n ih =>
    refine ⟨fun other same sames m => ?_, fun {r x x' args args' s t} below mute same sames m => ?_,
      fun condition twins m binds => ?_⟩
    · exact .stops
        (fun _ _ quiet => follows_callObject ih m other quiet (fun is => by cases is) same sames)
        (fun _ _ => rfl) (fun _ _ => rfl) fun _ _ _ _ => Run.noConfusion
    · have called (quiet : (s.object r).kind.isQuiet = true) :
          w.Follows n true w.Values (Action.callObject r x args none)
            (Action.callObject r x' args' none) s t := by
        have follows : w.Follows n true w.Values _ _ s t :=
          follows_callObject ih m (Nat.ne_of_lt below) quiet (fun _ => ⟨below, mute⟩) same sames
        rwa [ref_of_lt below] at follows
      exact .stops (fun _ _ => called) (fun _ _ => rfl) (fun _ _ => rfl)
        fun _ _ _ _ => Run.noConfusion
    · exact .stops (fun _ _ _ => follows_round ih condition twins m binds) (fun _ _ => rfl)
        (fun _ _ => rfl) fun _ _ _ _ => Run.noConfusion

end EggLang.Script.Shift
