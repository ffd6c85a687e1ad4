import EggLang.Proofs.Compiler.Traversal

/-!
# Changes of the root frame

The root frame is changed by the rebinding of a name that it owns, and every rebinding is counted.
So the count only grows, and it tells two roots of one compiler apart that differ. A `set` looks
for its name in the current frame and in the one around it. Inside a function body neither of the
two is the root, so the lowering of a function leaves the root alone.
-/

namespace EggLang

theorem Frames.owns_root {α : Type} (fs : Frames α) (name : Bytes) :
    fs.root.owns name = fs.owns 0 name := by
  rw [Bindings.owns, get?_root, owns]

namespace Compiler

/-- What the root frame of a compiler keeps to a later moment. -/
structure RootLater (t u : Compiler) : Prop where
  owns : ∀ n, u.root.owns n = t.root.owns n
  count : t.rootChanges ≤ u.rootChanges
  /-- Roots between which no change was counted are the same. -/
  same : u.rootChanges = t.rootChanges → u.root = t.root

namespace RootLater

variable {t u v : Compiler} {N : List Bytes} {s s' : State}

theorem refl (t : Compiler) : RootLater t t := ⟨fun _ => rfl, Nat.le_refl _, fun _ => rfl⟩

theorem trans (first : RootLater t u) (second : RootLater u v) : RootLater t v where
  owns n := (second.owns n).trans (first.owns n)
  count := Nat.le_trans first.count second.count
  same h := by
    have := first.count
    have := second.count
    exact (second.same (by omega)).trans (first.same (by omega))

theorem of_same (t : Compiler) (root : s'.frames.root = s.frames.root)
    (count : s'.rootChanges = s.rootChanges) : RootLater (t.after s) (t.after s') :=
  ⟨fun n => congrArg (Bindings.owns · n) root, Nat.le_of_eq count.symm, fun _ => root⟩

theorem of_step (step : Step N s s') (pos : 0 < s.frames.size) (t : Compiler) :
    RootLater (t.after s) (t.after s') := by
  cases step with
  | register => exact of_same t rfl rfl
  | openFunction env => exact of_same t (Frames.root_push _ _ pos) rfl
  | bind value below => exact of_same t (Frames.root_set_of_ne_zero _ _ _ (by omega)) rfl
  | @rebindRoot name value _ owned =>
    refine ⟨fun n => ?_, Nat.le_succ _, fun counted => absurd counted (Nat.succ_ne_self _)⟩
    change (s.frames.set 0 name value).root.owns n = s.frames.root.owns n
    rw [Frames.owns_root, Frames.owns_root, Frames.owns, Frames.own?_set]
    by_cases rebound : n = name
    · rw [if_pos ⟨rfl, rebound, pos⟩, rebound, owned]
      rfl
    · rw [if_neg fun h => rebound h.2.1]
      rfl

theorem of_steps (t : Compiler) (run : Steps N t.start s) : RootLater t (t.after s) := by
  refine (run.preserves (P := fun s => 0 < s.frames.size ∧ RootLater t (t.after s))
    (fun step h => ?_) ⟨t.start_size_pos, .refl t⟩).2
  exact ⟨step.size_pos h.1, h.2.trans (.of_step step h.1 t)⟩

end RootLater

/-- A frame below the root and not right below it. -/
structure Sheltered (s : State) (env : Nat) : Prop where
  below : 0 < env
  made : env < s.frames.size
  outer : ∀ o, s.frames.outer? env = some o → 0 < o

/-- The root and its count are what they were, and the frames stand as they stood. -/
structure RootKept (s t : State) : Prop where
  root : t.frames.root = s.frames.root
  count : t.rootChanges = s.rootChanges
  size : s.frames.size ≤ t.frames.size
  outer : ∀ env, env < s.frames.size → t.frames.outer? env = s.frames.outer? env

variable {s t u : State} {env : Nat}

theorem Sheltered.later (h : Sheltered s env) (kept : RootKept s t) : Sheltered t env where
  below := h.below
  made := Nat.lt_of_lt_of_le h.made kept.size
  outer o around := h.outer o (kept.outer env h.made ▸ around)

/-- What a `set` rebinds from a sheltered frame is not the root. -/
theorem Sheltered.targetOf?_ne (h : Sheltered s env) {name : Bytes} {target : Nat}
    (found : s.targetOf? env name = some target) : target ≠ 0 := by
  have mem := List.mem_of_find?_eq_some found
  rcases List.mem_cons.1 mem with here | around
  · have := h.below
    omega
  · have := h.outer target (Option.mem_toList.1 around)
    omega

namespace RootKept

theorem refl (s : State) : RootKept s s := ⟨rfl, rfl, Nat.le_refl _, fun _ _ => rfl⟩

theorem trans (first : RootKept s t) (second : RootKept t u) : RootKept s u where
  root := second.root.trans first.root
  count := second.count.trans first.count
  size := Nat.le_trans first.size second.size
  outer env made :=
    (second.outer env (Nat.lt_of_lt_of_le made first.size)).trans (first.outer env made)

theorem set (s : State) (below : env ≠ 0) (name : Bytes) (value : Binding) :
    RootKept s { s with frames := s.frames.set env name value } where
  root := Frames.root_set_of_ne_zero _ _ _ below
  count := rfl
  size := by simp
  outer i _ := by simp

theorem function (s : State) (pos : 0 < s.frames.size) (env : Nat) :
    RootKept s { s with frames := (s.frames.function env).2 } where
  root := Frames.root_push _ _ pos
  count := rfl
  size := by simp [Frames.function]
  outer i made := by
    rw [Frames.function, Frames.outer?_push, if_neg (Nat.ne_of_lt made)]

end RootKept

/-- A lowering that leaves the root alone when it is run in a sheltered frame. -/
def KeepsRoot (α : Type) (env : Nat) (m : Lowering α) : Prop :=
  ∀ s, Sheltered s env → RootKept s (final (m s))

variable {α β : Type}

theorem KeepsRoot.bind {m : Lowering α} {f : α → Lowering β} (first : KeepsRoot α env m)
    (next : ∀ a, KeepsRoot β env (f a)) : KeepsRoot β env (m >>= f) := by
  intro s sheltered
  have before := first s sheltered
  rcases final_bind m f s with ⟨a, t, run, ends⟩ | ends
  · rw [run] at before
    rw [ends]
    exact before.trans (next a t (sheltered.later before))
  · rwa [ends]

theorem KeepsRoot.bindName (name : Bytes) (value : Binding) :
    KeepsRoot Unit env (bindName env name value) :=
  fun s sheltered => .set s (Nat.ne_of_gt sheltered.below) name value

theorem KeepsRoot.rebind (name : Bytes) (value : Binding) :
    KeepsRoot Bool env (rebind env name value) := by
  intro s sheltered
  rw [rebind_apply]
  cases found : s.targetOf? env name with
  | none => exact .refl s
  | some target =>
    have below := sheltered.targetOf?_ne found
    simp only [if_neg below]
    exact .set s below name value

/-- The frame of a function that is opened below the root is sheltered. -/
theorem RootKept.openFunction_bind {params : List Bytes} {f : Nat → Lowering α}
    (next : ∀ inner, KeepsRoot α inner (f inner)) (below : 0 < env) (pos : 0 < s.frames.size) :
    RootKept s (final ((openFunction params env >>= f) s)) := by
  have bound (inner : Nat) (params : List Bytes) : KeepsRoot Unit inner
      (params.forM fun p => Compiler.bindName inner p (.code (.ident p))) := by
    induction params with
    | nil => exact fun s _ => .refl s
    | cons p rest ih => exact (KeepsRoot.bindName p _).bind fun _ => ih
  rw [openFunction_bind_apply]
  have opened : Sheltered { s with frames := (s.frames.function env).2 } s.frames.size := by
    refine ⟨pos, by simp [Frames.function], fun o around => ?_⟩
    rw [Frames.function, Frames.outer?_push, if_pos rfl] at around
    cases around
    exact below
  exact (RootKept.function s pos env).trans
    ((bound s.frames.size params).bind (fun _ => next s.frames.size) _ opened)

/-- Whatever is lowered in a sheltered frame leaves the root alone. -/
theorem keepsRoot_closed : Closed KeepsRoot where
  pure _ := fun s _ => RootKept.refl s
  refuse _ _ := fun s _ => RootKept.refl s
  bind first next := first.bind next
  get_bind next := fun s sheltered => next s s sheltered
  registerName _ := fun _ _ => ⟨rfl, rfl, Nat.le_refl _, fun _ _ => rfl⟩
  bindName name value := .bindName name value
  rebind name value := .rebind name value
  openFunction_bind _ _ next := fun _ sheltered =>
    .openFunction_bind next sheltered.below (Nat.zero_lt_of_lt sheltered.made)

theorem RootKept.lowerFun {args : List Expr} (place : Place) (params : List Bytes)
    (below : 0 < env) (pos : 0 < s.frames.size) :
    RootKept s (final (lowerFun place params args env s)) := by
  induction args generalizing params with
  | nil =>
    rw [Compiler.lowerFun]
    exact .refl s
  | cons arg rest ih =>
    cases rest with
    | nil =>
      rw [Compiler.lowerFun]
      refine openFunction_bind (fun inner => ?_) below pos
      exact (keepsRoot_closed.evaluate arg inner).bind fun _ => keepsRoot_closed.pure _
    | cons next later =>
      rw [Compiler.lowerFun]
      · cases arg.word? with
        | none => exact .refl s
        | some name => exact ih (params ++ [name])
      · simp

/-- The lowering of a function, with all that stands in it, leaves the root alone. -/
theorem RootKept.function_form (place : Place) (args : List Expr) (below : 0 < env)
    (pos : 0 < s.frames.size) :
    RootKept s (final (evaluate (.apply place SpecialForm.fun.name args) env s)) := by
  rw [evaluate]
  exact .lowerFun place [] below pos

end Compiler

end EggLang
