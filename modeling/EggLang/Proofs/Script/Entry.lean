import EggLang.Proofs.Number.Layout
import EggLang.Proofs.Number.Whole
import EggLang.Proofs.Script.Check
import EggLang.Proofs.Script.Extension

/-!
# Entering a function

What is there when the body of a called function starts: a scope of its own, with variables of no
other names than the function declares, in which `arguments.length` is the number of arguments.
-/

namespace EggLang.Script

variable {name : String} {s t : Store} {n i scope : Nat}

/-! ## The variables of a call -/

theorem lookup_cons_ne {m : String} (other : name ≠ m) (v : Variable)
    (vs : List (String × Variable)) : ((m, v) :: vs).lookup name = vs.lookup name := by
  rw [List.lookup_cons, beq_eq_false_iff_ne.2 other]

theorem lookup_setNamed (name n : String) (v : Variable) (vs : List (String × Variable)) :
    (Store.setNamed n v vs).lookup name = if name = n then some v else vs.lookup name := by
  induction vs with
  | nil =>
    rw [Store.setNamed]
    split_ifs with same
    · rw [same, List.lookup_cons_self]
    · exact lookup_cons_ne same v []
  | cons e vs ih =>
    obtain ⟨m, w⟩ := e
    rw [Store.setNamed]
    by_cases here : m = n
    · subst here
      rw [if_pos (beq_self_eq_true m)]
      split_ifs with same
      · rw [same, List.lookup_cons_self]
      · rw [lookup_cons_ne same, lookup_cons_ne same]
    · rw [if_neg (by simpa using here)]
      by_cases there : name = m
      · subst there
        rw [List.lookup_cons_self, List.lookup_cons_self, if_neg here]
      · rw [lookup_cons_ne there, lookup_cons_ne there, ih]

theorem lookup_bindParameters {ps : List String} (free : name ∉ ps) (args : List Value)
    (vs : List (String × Variable)) :
    (bindParameters ps args vs).lookup name = vs.lookup name := by
  induction ps generalizing args vs with
  | nil => rfl
  | cons p ps ih =>
    have other : name ≠ p := fun same => free (same ▸ List.mem_cons_self)
    have more : name ∉ ps := fun mem => free (List.mem_cons_of_mem p mem)
    cases args <;> rw [bindParameters, ih more, lookup_setNamed, if_neg other]

theorem lookup_declareNew {ns : List String} (free : name ∉ ns) (vs : List (String × Variable)) :
    (declareNew ns vs).lookup name = vs.lookup name := by
  induction ns generalizing vs with
  | nil => rfl
  | cons n ns ih =>
    have other : name ≠ n := fun same => free (same ▸ List.mem_cons_self)
    have more : name ∉ ns := fun mem => free (List.mem_cons_of_mem n mem)
    rw [declareNew, List.foldl_cons, ← declareNew, ih more]
    split_ifs
    · rfl
    · rw [List.lookup_append, lookup_cons_ne other, List.lookup_nil, Option.or_none]

/-- The names that the body of a function declares as a block. -/
def Function.blockNames (f : Function) : List String :=
  (blockVariables f.body).map (·.1) ++ (Stmt.functions f.body).map (·.1)

/-- The names that a function declares. -/
def Function.declared (f : Function) : List String :=
  f.info.parameters ++ f.info.variables_ ++ f.blockNames

theorem lookup_callVariables {f : Function} (simple : f.info.isSimple = true) (args : List Value)
    (noParameter : name ∉ f.info.parameters) (noVariable : name ∉ f.info.variables_)
    (noBlock : name ∉ f.blockNames) :
    (Action.callVariables f args).lookup name = none := by
  have block : (blockVariables f.body).lookup name = none := by
    rw [List.lookup_eq_none_iff]
    rintro ⟨n, v⟩ mem
    have inside : n ∈ f.blockNames :=
      List.mem_append_left _ (List.mem_map_of_mem (f := Prod.fst) mem)
    have other : name ≠ n := fun same => noBlock (same ▸ inside)
    simpa using other
  have own : (bindParameters f.info.parameters args []).lookup name = none :=
    lookup_bindParameters noParameter args []
  simp only [Action.callVariables, simple, if_true]
  split_ifs
  · rw [List.lookup_append, own, block, Option.or_none]
  · rw [List.lookup_append, lookup_declareNew noVariable, own, block, Option.or_none]

/-! ## Changes of one scope -/

/-- A scope with other values for some names only. -/
structure Scope.Keeps (names : List String) (sc sc' : Scope) : Prop where
  outer : sc'.outer = sc.outer
  frame : sc'.frame = sc.frame
  others : ∀ name ∉ names, sc'.variables_.lookup name = sc.variables_.lookup name

theorem setVariable_at {sc : Scope} (at_i : s.scopes[i]? = some sc) (n : String) (v : Variable) :
    (s.setVariable i n v).scopes[i]?
      = some { sc with variables_ := Store.setNamed n v sc.variables_ } := by
  rw [Store.setVariable, Array.getElem?_modify, if_pos rfl, at_i]
  rfl

theorem closure_yields (f : Function) (scope : Nat) (text : Units) (s : Store) :
    ∃ o, o.kind = .closure f scope
      ∧ (Action.closure f scope text).Yields s s.objects.size (s.keepScope.alloc o).2 :=
  ⟨_, rfl, fun _ _ => rfl⟩

/-- Declared functions are made. Their names are the only ones in the scope that may change. -/
theorem hoist_yields {sc : Scope} (fs : List (String × Function)) (at_i : s.scopes[i]? = some sc) :
    ∃ t sc', (Action.hoist i fs).Yields s () t ∧ Store.Extends i s t ∧ t.scopes[i]? = some sc'
      ∧ sc.Keeps (fs.map (·.1)) sc' := by
  induction fs generalizing s sc with
  | nil =>
    exact ⟨s, sc, Action.yields_pure () s, .refl i s, at_i, rfl, rfl, fun _ _ => rfl⟩
  | cons e fs ih =>
    obtain ⟨n, f⟩ := e
    obtain ⟨o, -, made⟩ := closure_yields f i (Units.ofString n) s
    have more := (Store.extends_keepScope i s).trans (Store.extends_alloc i s.keepScope o)
    obtain ⟨t, sc', rest, further, at_t, keeps⟩ :=
      ih (setVariable_at (s := (s.keepScope.alloc o).2) at_i n
        { value := some (.object s.objects.size) })
    refine ⟨t, sc', fun k h => ?_,
      (more.trans (Store.extends_modifyScope (Nat.le_refl i) _ _)).trans further, at_t,
      keeps.outer, keeps.frame, fun name free => ?_⟩
    · rw [Action.hoist, made.run]
      exact rest k h
    · have other : name ≠ n := fun same => free (same ▸ List.mem_cons_self)
      rw [keeps.others name fun mem => free (List.mem_cons_of_mem n mem), lookup_setNamed,
        if_neg other]

/-! ## The number of arguments -/

/-- The text of a natural number does not begin with a letter of a name of a member. -/
theorem text_ofNat (n : Nat) : ∃ bs, (Numeric.ofNat n).text = bs.map UInt8.toUInt16
    ∧ (Layout.WritesNumeral bs ∨ bs = utf8 "Infinity") := by
  by_cases exact : n ≤ Nat.pow 2 53
  · exact ⟨Bytes.ofNat n, by rw [Numeric.ofNat_small exact]; rfl,
      .inl (Layout.writesNumeral_ofNat n)⟩
  · refine ⟨numberLayout.render (.ofNat n), ?_, Layout.render_ofNat numberLayout n⟩
    rw [Numeric.ofNat_large (Nat.lt_of_not_le exact)]
    rfl

theorem lengthKey_eq : lengthKey = .name (Units.ofString "length") := by decide

theorem ofNat_ne_lengthKey (n : Nat) : Key.ofNat n ≠ lengthKey := by
  rw [lengthKey_eq, Key.ofNat]
  split_ifs
  · exact Key.noConfusion
  intro same
  obtain ⟨bs, text, numeral | infinity⟩ := text_ofNat n
  · obtain ⟨c, rest, rfl, digit⟩ := numeral.first
    have letter : c.toNat.toUInt8.toUInt16 = 108 := by
      rw [text] at same
      exact (List.cons.inj (Key.name.inj same)).1
    have value : c.toNat.toUInt8.toUInt16.toNat = 108 := by rw [letter]; rfl
    have last : c.toNat ≤ 57 := (Char.isDigit_iff_toNat.1 digit).2
    simp at value
    omega
  · rw [text, infinity] at same
    exact absurd same (by decide)

/-- What a function finds as its arguments when it asks for them as an object. -/
def argumentsOf (s : Store) (scope : Nat) (frame : Frame) (iterator : Value) : Object where
  kind := .arguments scope
    (match (s.object frame.callee).kind with
      | .closure f _ => if f.info.isSimple then mappedNames f.info.parameters frame.args else []
      | _ => [])
  proto := some Intrinsic.objectPrototype.ref
  members := (((List.range frame.args.length).zip frame.args).map
      fun (i, v) => (Key.ofNat i, Property.plain v)).toArray
    ++ #[(lengthKey, .hidden (.number (.ofNat frame.args.length))),
      (WellKnown.iterator.key, .hidden iterator),
      (.ofString "callee", .hidden (.object frame.callee))]

theorem own?_argumentsOf (s : Store) (scope : Nat) (frame : Frame) (iterator : Value) :
    (argumentsOf s scope frame iterator).own? lengthKey
      = some (.hidden (.number (.ofNat frame.args.length))) := by
  have before : ((((List.range frame.args.length).zip frame.args).map
      fun (i, v) => (Key.ofNat i, Property.plain v)).find? (·.1 == lengthKey)) = none := by
    rw [List.find?_eq_none]
    intro e mem
    obtain ⟨⟨i, v⟩, -, rfl⟩ := List.mem_map.1 mem
    simpa using ofNat_ne_lengthKey i
  rw [Object.own?, argumentsOf, Object.member?, Array.find?_append, List.find?_toArray, before]
  simp

/-- The scope of a call that keeps the object with the arguments. -/
def Scope.withArguments (sc : Scope) (frame : Frame) (ref : Nat) : Scope :=
  { sc with frame := some { frame with arguments := some ref } }

theorem argumentsObject_yields {sc : Scope} {frame : Frame} {iterator : Value}
    (at_i : s.scopes[i]? = some sc) (framed : sc.frame = some frame)
    (unseen : frame.arguments = none)
    (held : s.Holds Intrinsic.arrayPrototype.ref WellKnown.iterator.key iterator) :
    ∃ r t, (Action.argumentsObject i).Yields s (.object r) t ∧ Store.Extends i s t
      ∧ t.scopes[i]? = some (sc.withArguments frame r)
      ∧ t.Holds r lengthKey (.number (.ofNat frame.args.length)) := by
  have frames : s.scopes[i]?.bind (·.frame) = some frame := by rw [at_i]; exact framed
  let u := (s.alloc (argumentsOf s i frame iterator)).2
  refine ⟨s.objects.size, { u.keepScope with
    scopes := u.scopes.modify i (·.withArguments frame s.objects.size) }, ?_, ?_, ?_, ?_⟩
  · intro k h
    simp only [Action.argumentsObject, Action.bind_run, Action.read, frames, unseen]
    exact held.get _ _
  · exact ((Store.extends_alloc i s _).trans (Store.extends_keepScope i u)).trans
      (Store.extends_modifyScope (Nat.le_refl i) _ _)
  · rw [Array.getElem?_modify, if_pos rfl]
    show Option.map _ s.scopes[i]? = _
    rw [at_i]
    rfl
  · refine ⟨.hidden (.number (.ofNat frame.args.length)), true,
      (Store.own?_of_name (by decide)).trans ?_, rfl⟩
    have made : u.object s.objects.size = argumentsOf s i frame iterator := by
      simp [u, Store.object, Store.alloc]
    show (u.object s.objects.size).own? lengthKey = _
    rw [made, own?_argumentsOf]

open EggLang.Script.Action in
/-- The number of arguments is known while nobody has looked at them. Otherwise it is a member of
what the name stands for. -/
theorem eval_argumentCount (i : Nat) (k h : Value → Store → Run) (s : Store) :
    eval (.within i) argumentCount k h s = match Action.Store.argumentCount? s i with
      | some n => k (.number (.ofNat n)) s
      | none => (lookup i "arguments" >>= fun v => readMember v lengthKey) k h s := by
  have asked : ("arguments" == "arguments" && Key.name (Units.ofString "length") = lengthKey)
      = true := by decide
  rw [argumentCount, eval]
  dsimp only
  rw [asked, if_pos rfl, bind_run, Action.read, lengthKey_eq,
    show (Context.within i).scope = i from rfl]
  cases Action.Store.argumentCount? s i <;> rfl

open EggLang.Script.Action in
theorem count_of_frame {sc : Scope} {frame : Frame} (at_i : s.scopes[i]? = some sc)
    (framed : sc.frame = some frame) (unseen : frame.arguments = none)
    (free : sc.variables_.lookup "arguments" = none) :
    (eval (.within i) argumentCount).Yields s (.number (.ofNat frame.args.length)) s := by
  have found : s.find? i "arguments" = some (i, none) := by
    rw [Store.find?, at_i]
    simp [free, framed]
  have count : Action.Store.argumentCount? s i = some frame.args.length := by
    simp [Action.Store.argumentCount?, found, at_i, framed, unseen]
  intro k h
  rw [eval_argumentCount, count]

open EggLang.Script.Action in
theorem count_of_object {sc : Scope} {w : Variable} {r m : Nat} (at_i : s.scopes[i]? = some sc)
    (named : sc.variables_.lookup "arguments" = some w) (value : w.value = some (.object r))
    (held : s.Holds r lengthKey (.number (.ofNat m))) :
    (eval (.within i) argumentCount).Yields s (.number (.ofNat m)) s := by
  have found : s.find? i "arguments" = some (i, some w) := by
    rw [Store.find?, at_i]
    simp [named]
  have count : Action.Store.argumentCount? s i = none := by
    simp [Action.Store.argumentCount?, found]
  intro k h
  rw [eval_argumentCount, count]
  refine ((Store.Finds.bound found value).lookup _ _).trans ?_
  simp only [readMember, member, homeOf?, bind_run]
  exact held.find _ _ _

/-! ## The scope of a call -/

/-- The scope that is opened for a call. -/
def callScope (ref : Nat) (f : Function) (scope : Nat) (self : Value) (args : List Value) :
    Scope where
  variables_ := Action.callVariables f args
  outer := some scope
  frame := some { callee := ref, self, args }

/-- What is made in the scope of a call before the statements of the body are executed. -/
def prologue (f : Function) (inner : Nat) : Action Unit := do
  if f.info.variables_.contains "arguments" && !f.info.parameters.contains "arguments" then
    let made ← Action.argumentsObject inner
    Action.modify (·.setVariable inner "arguments" { value := some made })
  Action.hoist inner (Stmt.functions f.body)

theorem enter_run {f : Function} (normal : f.info.kind = .normal) (simple : f.info.isSimple = true)
    (ref scope : Nat) (self : Value) (args : List Value) (k : Completion → Store → Run)
    (h : Value → Store → Run) (s : Store) :
    Action.enter ref f scope self args none k h s
      = prologue f s.scopes.size (fun _ t => Action.execAll (.within s.scopes.size) f.body none
          (fun c u => k c (u.closeScope s.scopes.size s.keepers)) h t) h
          (s.openScope (callScope ref f scope self args)).2 := by
  have frame : (if f.info.kind = .arrow then none
      else some { callee := ref, self, target := none, args : Frame })
      = some { callee := ref, self, args } := by
    rw [normal]
    rfl
  unfold Action.enter prologue
  dsimp only
  rw [frame, simple]
  -- The two sides group the conditions in different ways.
  cases f.info.variables_.contains "arguments" <;>
    cases f.info.parameters.contains "arguments" <;> rfl

/-- A store in which the statements of a called function are about to be executed. -/
structure Entered (s : Store) (f : Function) (scope count : Nat) (t : Store) : Prop where
  more : Store.Extends s.scopes.size s t
  /-- The call has a scope of its own, with variables of the names that the function declares. -/
  inner : ∃ sc, t.scopes[s.scopes.size]? = some sc ∧ sc.outer = some scope
    ∧ ∀ name ∉ f.declared, sc.variables_.lookup name = none
  count : (Action.eval (.within s.scopes.size) argumentCount).Yields t (.number (.ofNat count)) t

variable {f : Function}

theorem callScope_at (s : Store) (ref : Nat) (f : Function) (scope : Nat) (self : Value)
    (args : List Value) :
    (s.openScope (callScope ref f scope self args)).2.scopes[s.scopes.size]?
      = some (callScope ref f scope self args) := Array.getElem?_push_size

theorem lookup_undeclared (simple : f.info.isSimple = true) (args : List Value)
    (free : name ∉ f.declared) : (Action.callVariables f args).lookup name = none := by
  simp only [Function.declared, List.mem_append, not_or] at free
  exact lookup_callVariables simple args free.1.1 free.1.2 free.2

theorem not_function_of_undeclared (free : name ∉ f.declared) :
    name ∉ (Stmt.functions f.body).map (·.1) := fun mem =>
  free (List.mem_append_right _ (List.mem_append_right _ mem))

/-- A function that has a variable for its arguments starts with the object in it. -/
theorem prologue_of_variable (simple : f.info.isSimple = true)
    (noParameter : "arguments" ∉ f.info.parameters) (noBlock : "arguments" ∉ f.blockNames)
    (declares : "arguments" ∈ f.info.variables_) {iterator : Value}
    (held : s.Holds Intrinsic.arrayPrototype.ref WellKnown.iterator.key iterator)
    (ref scope : Nat) (self : Value) (args : List Value) :
    ∃ t, (prologue f s.scopes.size).Yields (s.openScope (callScope ref f scope self args)).2 () t
      ∧ Entered s f scope args.length t := by
  have opened := Store.extends_openScope s (callScope ref f scope self args)
  -- The object is in its variable before the declared functions are made, and none of these has
  -- that name.
  obtain ⟨r, u, made, more, at_u, length⟩ :=
    argumentsObject_yields (callScope_at s ref f scope self args) rfl rfl
      (held.extends (by decide) opened)
  obtain ⟨t, sc, hoisted, further, at_t, keeps⟩ := hoist_yields (Stmt.functions f.body)
    (setVariable_at at_u "arguments" { value := some (.object r) })
  have changed : Store.Extends s.scopes.size u
      (u.setVariable s.scopes.size "arguments" { value := some (.object r) }) :=
    Store.extends_modifyScope (Nat.le_refl _) u _
  have named : sc.variables_.lookup "arguments" = some { value := some (.object r) } := by
    rw [keeps.others _ fun mem => noBlock (List.mem_append_right _ mem), lookup_setNamed,
      if_pos rfl]
  refine ⟨t, fun k h => ?_, ((opened.trans more).trans changed).trans further,
    ⟨sc, at_t, keeps.outer, fun name free => ?_⟩,
    count_of_object at_t named rfl (length.extends (by decide) (changed.trans further))⟩
  · have seen : (f.info.variables_.contains "arguments"
        && !f.info.parameters.contains "arguments") = true := by
      simp [declares, noParameter]
    simp only [prologue, seen, if_true, Action.bind_run]
    exact (made _ _).trans (hoisted k h)
  · have other : name ≠ "arguments" := by
      rintro rfl
      exact free (List.mem_append_left _ (List.mem_append_right _ declares))
    rw [keeps.others _ (not_function_of_undeclared free), lookup_setNamed, if_neg other]
    exact lookup_undeclared simple args free

/-- Without such a variable the arguments stay in the frame of the call. -/
theorem prologue_of_frame (simple : f.info.isSimple = true)
    (noParameter : "arguments" ∉ f.info.parameters) (noBlock : "arguments" ∉ f.blockNames)
    (declares : "arguments" ∉ f.info.variables_)
    (ref scope : Nat) (self : Value) (args : List Value) :
    ∃ t, (prologue f s.scopes.size).Yields (s.openScope (callScope ref f scope self args)).2 () t
      ∧ Entered s f scope args.length t := by
  have opened := Store.extends_openScope s (callScope ref f scope self args)
  obtain ⟨t, sc, hoisted, further, at_t, keeps⟩ :=
    hoist_yields (Stmt.functions f.body) (callScope_at s ref f scope self args)
  have unnamed : sc.variables_.lookup "arguments" = none := by
    rw [keeps.others _ fun mem => noBlock (List.mem_append_right _ mem)]
    exact lookup_callVariables simple args noParameter declares noBlock
  refine ⟨t, fun k h => ?_, opened.trans further, ⟨sc, at_t, keeps.outer, fun name free => ?_⟩,
    count_of_frame at_t keeps.frame rfl unnamed⟩
  · have unseen : (f.info.variables_.contains "arguments"
        && !f.info.parameters.contains "arguments") = false := by
      simp [declares]
    simp only [prologue, unseen, Bool.false_eq_true, if_false]
    exact hoisted k h
  · rw [keeps.others _ (not_function_of_undeclared free)]
    exact lookup_undeclared simple args free

/-- A called function gets to its body unless it declares `arguments` otherwise than as a
variable. -/
theorem enter_reaches (normal : f.info.kind = .normal) (simple : f.info.isSimple = true)
    (free : "arguments" ∉ f.info.parameters ++ f.blockNames)
    (held : "arguments" ∈ f.info.variables_ →
      ∃ v, s.Holds Intrinsic.arrayPrototype.ref WellKnown.iterator.key v)
    (ref scope : Nat) (self : Value) (args : List Value) :
    ∃ t, Entered s f scope args.length t ∧ ∀ k h,
      Action.enter ref f scope self args none k h s
        = Action.execAll (.within s.scopes.size) f.body none
            (fun c u => k c (u.closeScope s.scopes.size s.keepers)) h t := by
  rw [List.mem_append, not_or] at free
  obtain ⟨t, yields, entered⟩ : ∃ t, (prologue f s.scopes.size).Yields
      (s.openScope (callScope ref f scope self args)).2 () t ∧ Entered s f scope args.length t := by
    by_cases declares : "arguments" ∈ f.info.variables_
    · obtain ⟨v, held⟩ := held declares
      exact prologue_of_variable simple free.1 free.2 declares held ref scope self args
    · exact prologue_of_frame simple free.1 free.2 declares ref scope self args
  refine ⟨t, entered, fun k h => ?_⟩
  exact (enter_run normal simple ref scope self args k h s).trans (yields _ h)

end EggLang.Script
