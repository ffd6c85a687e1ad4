import EggLang.Proofs.Compiler.Refusals
import EggLang.Proofs.Compiler.Referents

/-!
# The frames wherever a lowering comes

A program is lowered in a frame below the root, and the frame of a function is opened inside the
one of its form. So wherever a lowering comes, the way outward leads through earlier frames and
ends at the root.
-/

namespace EggLang.Compiler

variable {e n : Expr} {env inner : Nat} {s t u : State} {name : Bytes}

/-- The frame `env` is there, and every frame but the root was opened in an earlier one. -/
structure Rooted (env : Nat) (s : State) : Prop extends Ready env s where
  around : ∀ i < s.frames.size, i ≠ 0 → (s.frames.outer? i).isSome

theorem rooted_start (t : Compiler) : Rooted 1 t.start where
  toReady := ready_start t
  around i made below := by
    have here : i = 1 := by
      have : i < 2 := made
      omega
    rw [here]
    rfl

/-- A look-up that finds nothing has looked in the root too. -/
theorem Rooted.not_owns_root (h : Rooted env s) (unbound : s.frames.get? env name = none) :
    s.frames.root.owns name = false := by
  rw [Bindings.owns, Frames.get?_root]
  induction env using Nat.strongRecOn with
  | ind env ih =>
    rw [Frames.get?] at unbound
    split at unbound
    next => cases unbound
    next unowned =>
      by_cases root : env = 0
      · rw [← root, unowned]
        rfl
      · obtain ⟨o, outer⟩ := Option.isSome_iff_exists.1 (h.around env h.made root)
        have before := h.formed env o outer
        simp only [outer, if_pos before] at unbound
        exact ih o before ⟨⟨h.formed, Nat.lt_trans before h.made⟩, h.around⟩ unbound

theorem Rooted.set (h : Rooted env s) (target : Nat) (value : Binding) (changes : Nat) :
    Rooted env
      { s with frames := s.frames.set target name value, rootChanges := changes } where
  formed i o outer := h.formed i o (by simpa using outer)
  made := by simpa using h.made
  around i made below := by simpa using h.around i (by simpa using made) below

theorem Rooted.opened {params : List Bytes} (h : Rooted env s) (opened : Opened env params s t) :
    Rooted s.frames.size t where
  toReady := opened.ready h.toReady
  around i made below := by
    rw [opened.outer]
    split
    next => rfl
    next before =>
      rw [opened.size] at made
      exact h.around i (by omega) below

/-- No lowering breaks the way from a frame to the root. -/
theorem rooted_closed : Closed fun _ env m => ∀ s, Rooted env s → Rooted env (final (m s)) where
  pure _ := fun _ h => h
  refuse _ _ := fun _ h => h
  bind {_ _ _ m f} first next := by
    intro s h
    have before := first s h
    rcases final_bind m f s with ⟨a, t, run, ends⟩ | ends
    · rw [run] at before
      rw [ends]
      exact next a t before
    · rwa [ends]
  get_bind next := fun s h => next s s h
  registerName _ := fun _ h => ⟨⟨h.formed, h.made⟩, h.around⟩
  bindName _ _ := fun _ h => h.set _ _ _
  rebind name value := by
    intro s h
    rw [rebind_apply]
    split
    · exact h
    · exact h.set _ _ _
  openFunction_bind {_ env} params f next := by
    intro s h
    obtain ⟨t, run, opened⟩ := openFunction_run params env s
    rw [bind_ok run]
    have inside := next _ t (h.opened opened)
    exact ⟨⟨inside.formed, Nat.lt_trans h.made inside.made⟩, inside.around⟩

theorem Rooted.evaluate {b : Binding} (h : Rooted env s) (run : evaluate e env s = .ok b t) :
    Rooted env t := by
  have kept := rooted_closed.evaluate e env s h
  rwa [run] at kept

theorem Rooted.lowerAll {args : List Expr} {codes : List Code} (h : Rooted env s)
    (run : lowerAll args env s = .ok codes t) : Rooted env t := by
  have kept := rooted_closed.lowerAll
    (fun (arg : Expr) (_ : arg ∈ args) env => rooted_closed.evaluate arg env) s h
  rwa [run] at kept

theorem Begins.rooted {parts : List Expr} (h : Begins e env s parts inner u)
    (rooted : Rooted env s) :
    Rooted inner u := by
  cases h
  case defineFunction => exact ⟨⟨rooted.formed, rooted.made⟩, rooted.around⟩
  case «fun» params _ _ _ opened =>
    obtain ⟨v, run, opens⟩ := openFunction_run params env s
    rw [opened] at run
    cases run
    exact rooted.opened opens
  all_goals exact rooted

theorem Visits.rooted (h : Visits e env s n inner u) (rooted : Rooted env s) : Rooted inner u := by
  induction h with
  | here => exact rooted
  | part begins run _ ih => exact ih ((begins.rooted rooted).lowerAll run)

end EggLang.Compiler
