import EggLang.Proofs.Compiler.Root
import EggLang.Proofs.Session.Transparency

/-!
# The root over the calls of sessions

Any calls are made on sessions, some of which may share a cache. The root of each session owns the
same names throughout, the count of its changes never goes down, and at two moments with the same
count the root is the same. What stands in a function body has no part in any change.
-/

namespace EggLang

namespace Compiler.RootLater

theorem compile (t : Compiler) (source : Bytes) : RootLater t (t.compile source).2 := by
  rcases t.compile_cases source with same | ⟨e, s, _, run, after⟩
  · rw [same]
    exact .refl t
  · rw [after]
    exact .of_steps t run

theorem compileAfresh (s : Session) (path source : Bytes) :
    RootLater s.compiler (s.compileAfresh path source).2.compiler := by
  rw [Session.compileAfresh_eq]
  exact .compile s.compiler source

theorem compileInto (s : Session) (cache : Cache) (path source key : Bytes) (log : List Bytes) :
    RootLater s.compiler (s.compileInto cache path source key log).session.compiler := by
  have afresh := compileAfresh s path source
  rw [Session.compileInto]
  split
  next compiled => rwa [compiled] at afresh
  next compiled => rwa [compiled] at afresh

/-- With a cache or without one: what is taken from a cache registers names and no more. -/
theorem compileCached (s : Session) (cache : Option Cache) (path source : Bytes) :
    RootLater s.compiler (s.compile cache path source).session.compiler := by
  cases cache with
  | none => exact .compileAfresh s path source
  | some c =>
    rw [Session.compile]
    split
    next =>
      dsimp only
      split
      next => exact ⟨fun _ => rfl, Nat.le_refl _, fun _ => rfl⟩
      next => exact .compileInto s c path source _ _
      next => exact .compileInto s c path source _ _
    next => exact .compileAfresh s path source

theorem run (s : Session) (path source : Bytes) (cancelled : Bool) :
    RootLater s.compiler (s.run path source cancelled).2.compiler := by
  rw [Session.run_session]
  exact .compile s.compiler source

end Compiler.RootLater

namespace Pool

open Compiler (RootLater RootKept)

variable {ι : Type} [DecidableEq ι]

/-- The pool after some calls in a row. -/
def after (p : Pool ι) (calls : List (Call ι)) : Pool ι :=
  calls.foldl (fun p c => (p.call c).2) p

/-- The compiler of a session. -/
def compiler (p : Pool ι) (member : ι) : Compiler := (p.sessions member).compiler

theorem rootLater_setSession (p : Pool ι) (member changed : ι) {s : Session}
    (later : RootLater (p.compiler changed) s.compiler) :
    RootLater (p.compiler member) ((p.setSession changed s).compiler member) := by
  simp only [compiler, setSession]
  split
  next same => exact same ▸ later
  next => exact .refl _

theorem rootLater_call (p : Pool ι) (member : ι) (c : Call ι) :
    RootLater (p.compiler member) ((p.call c).2.compiler member) := by
  cases c with
  | compile changed path source =>
    exact p.rootLater_setSession member changed (.compileCached _ _ path source)
  | run changed path source cancelled =>
    exact p.rootLater_setSession member changed (.run _ path source cancelled)
  | closeCache => exact .refl _

theorem rootLater_after (p : Pool ι) (member : ι) (calls : List (Call ι)) :
    RootLater (p.compiler member) ((p.after calls).compiler member) := by
  induction calls generalizing p with
  | nil => exact .refl _
  | cons c rest ih => exact (p.rootLater_call member c).trans (ih (p.call c).2)

/-- From one moment between calls to a later one, the root of a session owns the same names, the
count of its changes has not gone down, and if the count is the same then so is the root. The
lowering of a function, which ends with code or with an error, never changes the root. -/
theorem root_discipline (p : Pool ι) (member : ι) :
    (∀ earlier later : List (Call ι), RootLater ((p.after earlier).compiler member)
        ((p.after (earlier ++ later)).compiler member))
      ∧ ∀ (place : Place) (args : List Expr) (env : Nat) (s : Compiler.State),
          0 < env → 0 < s.frames.size → RootKept s
            (Compiler.final (Compiler.evaluate
              (.apply place SpecialForm.fun.name args) env s)) := by
  refine ⟨fun earlier later => ?_, fun place args env s below pos => ?_⟩
  · have split : p.after (earlier ++ later) = (p.after earlier).after later := List.foldl_append
    rw [split]
    exact (p.after earlier).rootLater_after member later
  · exact .function_form place args below pos

/-- A session whose first call rebinds `<` and then fails, and whose later calls define `<` in a
function body and try to set it there: the root stays as the first call left it. -/
theorem root_discipline_shadowed :
    let p := new (fun _ : Unit => ⟨utf8 " ", ⟨utf8 "idle", fun _ _ => {}⟩, 0, true⟩)
      { path := utf8 "egg.db" }
    let first : Call Unit := .run () [] (utf8 "do(set(<,2),g)") false
    let shadow := utf8 "fun(do(define(<,1),set(<,3)))"
    let more : List (Call Unit) := [.compile () [] shadow, .compile () [] (utf8 "fun(set(<,4))")]
    let before := (p.after [first]).compiler ()
    let later := (p.after (first :: more)).compiler ()
    let parts : List Expr := [.apply ⟨4, 1, 5⟩ (utf8 "define")
      [.word ⟨11, 1, 12⟩ (utf8 "<"), .number ⟨13, 1, 14⟩ (utf8 "1")]]
    before.rootChanges = 1 ∧ later.rootChanges = 1 ∧ later.root = before.root
      ∧ 0 < before.start.frames.size
      ∧ RootKept before.start (Compiler.final
          (Compiler.evaluate (.apply ⟨0, 1, 1⟩ SpecialForm.fun.name parts) 1 before.start)) := by
  intro p first shadow more before later parts
  have count : before.rootChanges = 1 := by decide +kernel
  have count' : later.rootChanges = 1 := by decide +kernel
  have discipline := p.root_discipline ()
  have same : later.root = before.root := (discipline.1 [first] more).same (count'.trans count.symm)
  have pos := before.start_size_pos
  exact ⟨count, count', same, pos, discipline.2 ⟨0, 1, 1⟩ parts 1 before.start (by decide) pos⟩

end Pool

end EggLang
