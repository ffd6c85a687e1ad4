import EggLang.Compiler.Basic
import EggLang.Proofs.Expr.Names
import EggLang.Proofs.Scope.Frames
import EggLang.Proofs.Scope.Registry

/-!
# The steps of a lowering

A lowering changes the state in four ways: it registers a name, opens the frame of a function
body, binds a name in a frame below the root, or rebinds a name that the root owns and counts
that. What any run of such steps keeps is read off the single step.
-/

namespace EggLang

namespace Compiler

/-- One change of the state by a lowering over the names `N`. -/
inductive Step (N : List Bytes) : State → State → Prop
  | register {s : State} {name : Bytes} (mem : name ∈ N) :
      Step N s { s with functions := s.functions.add name }
  | openFunction {s : State} (env : Nat) :
      Step N s { s with frames := (s.frames.function env).2 }
  | bind {s : State} {env : Nat} {name : Bytes} (value : Binding) (below : 0 < env)
      (mem : name ∈ N) : Step N s { s with frames := s.frames.set env name value }
  | rebindRoot {s : State} {name : Bytes} (value : Binding) (mem : name ∈ N)
      (owned : s.frames.owns 0 name = true) :
      Step N s { s with
        frames := s.frames.set 0 name value, rootChanges := s.rootChanges + 1 }

/-- Any number of changes. -/
inductive Steps (N : List Bytes) : State → State → Prop
  | refl (s : State) : Steps N s s
  | snoc {s t u : State} (run : Steps N s t) (last : Step N t u) : Steps N s u

variable {N : List Bytes} {s t u : State}

theorem Step.single (h : Step N s t) : Steps N s t := (Steps.refl s).snoc h

theorem Steps.trans (first : Steps N s t) (second : Steps N t u) : Steps N s u := by
  induction second with
  | refl => exact first
  | snoc _ last ih => exact ih.snoc last

/-- What every step keeps, every run keeps. -/
theorem Steps.preserves {P : State → Prop} (run : Steps N s t)
    (step : ∀ {a b : State}, Step N a b → P a → P b) (start : P s) : P t := by
  induction run with
  | refl => exact start
  | snoc _ last ih => exact step last ih

theorem Step.size_pos (h : Step N s t) (pos : 0 < s.frames.size) : 0 < t.frames.size := by
  cases h with
  | register => exact pos
  | openFunction => simp [Frames.function]
  | bind => simpa using pos
  | rebindRoot => simpa using pos

theorem Steps.size_pos (run : Steps N s t) (pos : 0 < s.frames.size) : 0 < t.frames.size :=
  run.preserves (P := fun s => 0 < s.frames.size) Step.size_pos pos

theorem Steps.sorted (run : Steps N s t) (h : s.functions.Sorted) : t.functions.Sorted := by
  refine run.preserves (P := fun s => s.functions.Sorted) (fun step h => ?_) h
  cases step with
  | register => exact h.add _
  | openFunction => exact h
  | bind => exact h
  | rebindRoot => exact h

/-- A name that is registered stays so. -/
theorem Steps.has_of_has (run : Steps N s t) {n : Bytes} (h : s.functions.has n = true) :
    t.functions.has n = true := by
  refine run.preserves (P := fun s => s.functions.has n = true) (fun step h => ?_) h
  cases step with
  | register => simp [h]
  | openFunction => exact h
  | bind => exact h
  | rebindRoot => exact h

/-- Only names of the program are registered. -/
theorem Steps.has_outside (run : Steps N s t) {n : Bytes} (outside : n ∉ N) :
    t.functions.has n = s.functions.has n := by
  refine run.preserves (P := fun t => t.functions.has n = s.functions.has n) (fun step h => ?_) rfl
  cases step with
  | register mem =>
    have different : n ≠ _ := fun same => outside (same ▸ mem)
    simp [different, h]
  | openFunction => exact h
  | bind => exact h
  | rebindRoot => exact h

/-- A step that changes the root frame rebinds a name of the program in it and is counted. -/
theorem Step.root_cases (step : Step N s t) (pos : 0 < s.frames.size) :
    t.frames.root = s.frames.root ∧ t.rootChanges = s.rootChanges
      ∨ ∃ name ∈ N, ∃ value, t.frames = s.frames.set 0 name value
          ∧ t.rootChanges = s.rootChanges + 1 := by
  cases step with
  | register => exact Or.inl ⟨rfl, rfl⟩
  | openFunction => exact Or.inl ⟨Frames.root_push _ _ pos, rfl⟩
  | bind _ below => exact Or.inl ⟨Frames.root_set_of_ne_zero _ _ _ (by omega), rfl⟩
  | rebindRoot value mem => exact Or.inr ⟨_, mem, value, rfl, rfl⟩

/-- While no change of the root is counted, the root is what it was. -/
theorem Steps.root_of_rootChanges (run : Steps N s t) (pos : 0 < s.frames.size)
    {root : Bindings Binding} (start : s.rootChanges = 0 → s.frames.root = root) :
    t.rootChanges = 0 → t.frames.root = root := by
  refine (run.preserves (P := fun t => 0 < t.frames.size
    ∧ (t.rootChanges = 0 → t.frames.root = root)) (fun step h => ?_) ⟨pos, start⟩).2
  refine ⟨step.size_pos h.1, fun none => ?_⟩
  rcases step.root_cases h.1 with ⟨same, count⟩ | ⟨_, _, _, _, count⟩
  · rw [same]
    exact h.2 (count ▸ none)
  · omega

/-- Only names of the program are rebound in the root. -/
theorem Steps.root_outside (run : Steps N s t) (pos : 0 < s.frames.size) {n : Bytes}
    (outside : n ∉ N) : t.frames.root.get? n = s.frames.root.get? n := by
  refine (run.preserves (P := fun t => 0 < t.frames.size
    ∧ t.frames.root.get? n = s.frames.root.get? n) (fun step h => ?_) ⟨pos, rfl⟩).2
  refine ⟨step.size_pos h.1, ?_⟩
  rcases step.root_cases h.1 with ⟨same, _⟩ | ⟨name, mem, value, frames, _⟩
  · rw [same]
    exact h.2
  · have different : n ≠ name := fun same => outside (same ▸ mem)
    rw [frames, Frames.get?_root, Frames.own?_set_of_ne _ _ _ _ different, ← Frames.get?_root]
    exact h.2

end Compiler

end EggLang
