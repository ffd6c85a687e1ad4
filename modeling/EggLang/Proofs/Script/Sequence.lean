import EggLang.Proofs.Script.Parts

/-!
# What scripts write in turn

A script that calls a function around statements goes on to its value. If the statements are those
of several scripts, one after the other, then it comes to a value where they do, and writes what
they write, in their order.
-/

namespace EggLang.Script

open EggLang.Script.Parser (wrapper callOf)

variable {s e : Store} {body : List Stmt} {start : Place} {extent n budget : Nat}
  {script text : Bytes} {r : Run} {d : Data}

/-- A script is read as a call of a function around statements. -/
def Executes (script : Bytes) (body : List Stmt) : Prop :=
  ∃ start extent,
    (Text.chars? script).bind parse? = some (callOf (wrapper start extent body))

/-! ## Runs that end -/

namespace Run

/-- All stops of a run from here on are those of generated code. -/
def StaysQuiet (r : Run) : Prop :=
  ∀ n, (Run.step^[n] r).isQuiet = true ∨ ∃ outcome s, Run.step^[n] r = .done outcome s

theorem StaysQuiet.step (h : r.StaysQuiet) : r.step.StaysQuiet := fun n => h (n + 1)

/-- A run that comes to a value within a budget goes on to it within a smaller one. -/
theorem finish_step (ends : r.finish budget = (.value d, e)) (goes_on : ∀ o s, r ≠ .done o s) :
    ∃ less < budget, r.step.finish less = (.value d, e) := by
  cases budget with
  | zero =>
    rw [finish] at ends
    · cases ends
    · exact goes_on
  | succ b =>
    rw [finish] at ends
    · exact ⟨_, by omega, ends⟩
    · exact goes_on

theorem settles_of_finish (h : r.StaysQuiet) (ends : r.finish budget = (.value d, e)) :
    ∃ n, r.Settles e n := by
  induction budget using Nat.strongRecOn generalizing r with
  | ind budget ih =>
    rcases h 0 with quiet | ⟨o, s, rfl⟩
    · have goes_on (o : Outcome) (s : Store) : r ≠ .done o s := by
        rintro rfl
        cases quiet
      obtain ⟨less, below, ends⟩ := finish_step ends goes_on
      obtain ⟨n, rest⟩ := ih less below h.step ends
      exact ⟨n + 1, .step quiet rest⟩
    · rw [finish_done] at ends
      cases ends
      exact ⟨0, .done 0 d⟩

theorem Settles.ends (h : r.Settles e n) : ∃ j d, Run.step^[j] r = .done (.value d) e := by
  induction h with
  | done n d => exact ⟨0, d, rfl⟩
  | step _ _ ih =>
    obtain ⟨j, d, ends⟩ := ih
    exact ⟨j + 1, d, ends⟩

end Run

/-! ## Scripts from their start -/

theorem start_step (start : Place) (extent : Nat) (body : List Stmt) :
    (Run.start (callOf (wrapper start extent body))).step
      = calling Start.store (wrapper start extent body) := by
  change Action.runCode (callOf (wrapper start extent body)) 0 _ Shift.caught Start.store = _
  rw [call_host Start.store_ready.idle rfl rfl]
  rfl

/-- All stops of a script are those of generated code, but for the first one, at which the function
around its statements is made. -/
def RunsQuietly (script : Bytes) : Prop :=
  ∀ statements, (Text.chars? script).bind parse? = some statements →
    (Run.start statements).step.StaysQuiet

theorem evaluate_value {statements : List Stmt}
    (parsed : (Text.chars? script).bind parse? = some statements) :
    evaluate budget script = (.value d, text)
      ↔ ∃ e, (Run.start statements).finish budget = (.value d, e) ∧ e.output = text := by
  rw [evaluate, parsed]
  dsimp only
  generalize (Run.start statements).finish budget = last
  obtain ⟨outcome, e⟩ := last
  cases outcome <;> simp

/-- What a script does alone that comes to a value and calls no other functions. -/
theorem writesAlone_of_evaluate (reads : Executes script body) (quiet : RunsQuietly script)
    (gives : evaluate budget script = (.value d, text)) : WritesAlone Start.store body text := by
  obtain ⟨start, extent, parsed⟩ := reads
  obtain ⟨e, ends, output⟩ := (evaluate_value parsed).1 gives
  have stays := quiet _ parsed
  obtain ⟨less, -, ends⟩ := Run.finish_step ends (by simp [Run.start])
  rw [start_step] at stays ends
  obtain ⟨n, settles⟩ := Run.settles_of_finish stays ends
  exact ⟨start, extent, n, e, output, settles⟩

end EggLang.Script
