import EggLang.Proofs.Script.Meeting

/-!
# Actions in lockstep

An action in one store and an action in a store with more in it keep step if they get to
corresponding values after as many stops. Only runs of the first action are looked at that come to
a value in the end and on the way do nothing but what generated code is for: they call functions of
the script, print, convert values and go round loops.
-/

namespace EggLang.Script

/-! ## Quiet runs -/

/-- The functions that generated code calls: that which prints, and those by which values are
converted. -/
def Native.isQuiet : Native → Bool
  | .log | .array .toString | .array .join | .object .valueOf | .object .toString
  | .function .toString => true
  | _ => false

def ObjectKind.isQuiet : ObjectKind → Bool
  | .closure .. => true
  | .native f => f.isQuiet
  | _ => false

/-- Whether a run is at a stop of generated code. -/
def Run.isQuiet : Run → Bool
  | .call callee _ _ none _ _ s => (s.object callee).kind.isQuiet
  | .loop (.steps ..) _ _ _ => true
  | _ => false

/-- A run comes to a value in a store after at most so many stops, and all of these are quiet. -/
inductive Run.Settles (e : Store) : Nat → Run → Prop where
  | done (n : Nat) (d : Data) : Settles e n (.done (.value d) e)
  | step {n : Nat} {r : Run} : r.isQuiet = true → Settles e n r.step → Settles e (n + 1) r

namespace Run

variable {e : Store} {r : Run} {n l j : Nat}

theorem Settles.mono (h : r.Settles e n) (more : n ≤ l) : r.Settles e l := by
  induction h generalizing l with
  | done n d => exact .done l d
  | @step n r quiet _ ih =>
    obtain ⟨m, rfl⟩ : ∃ m, l = m + 1 := ⟨l - 1, by omega⟩
    exact .step quiet (ih (by omega))

theorem Settles.iterate (h : r.Settles e n) (few : j ≤ n) :
    (Run.step^[j] r).Settles e (n - j) := by
  induction j generalizing r n with
  | zero => exact h
  | succ j ih =>
    obtain ⟨m, rfl⟩ : ∃ m, n = m + 1 := ⟨n - 1, by omega⟩
    rw [Function.iterate_succ_apply, Nat.add_sub_add_right]
    cases h with
    | done _ d => exact ih (r := (Run.done (.value d) e).step) (.done m d) (by omega)
    | step _ rest => exact ih rest (by omega)

end Run

namespace Shift

variable {α β γ δ : Type} {w : Shift} {s t u v : Store} {n : Nat} {silent : Bool}
  {R : α → β → Prop} {Q : γ → δ → Prop} {m : Action α} {m' : Action β} {f : α → Action γ}
  {f' : β → Action δ} {a : α} {b : β}

/-- What follows on an exception is no run that comes to a value. -/
def Hopeless (w : Shift) (h : Value → Store → Run) : Prop :=
  ∀ x x' s t e n, w.Values x x' → w.Meet s t → ¬ (h x s).Settles e n

/-- Two actions have got to corresponding values in corresponding stores. -/
structure Lands (w : Shift) (silent : Bool) (R : α → β → Prop) (s : Store) (a : α) (b : β)
    (u v : Store) : Prop where
  related : R a b
  meet : w.Meet u v
  grows : s.Grows u
  console : silent = true → u.console = s.console

/-- An action in one store is followed by an action in another one, as far as the first comes to
a value after at most so many stops. -/
def Follows (w : Shift) (n : Nat) (silent : Bool) (R : α → β → Prop) (m : Action α)
    (m' : Action β) (s t : Store) : Prop :=
  ∀ l ≤ n, ∀ k h e, w.Hopeless h → (m k h s).Settles e l → ∃ j ≤ l, ∃ a b u v,
    w.Lands silent R s a b u v
      ∧ (∀ k h, Run.step^[j] (m k h s) = k a u) ∧ ∀ k h, Run.step^[j] (m' k h t) = k b v

theorem Lands.refl (meet : w.Meet s t) (related : R a b) : w.Lands silent R s a b s t :=
  ⟨related, meet, .refl s, fun _ => rfl⟩

theorem Lands.mono {R' : α → β → Prop} {loud : Bool} (h : w.Lands silent R s a b u v)
    (weaker : R a b → R' a b) (quieter : loud = true → silent = true) :
    w.Lands loud R' s a b u v :=
  ⟨weaker h.related, h.meet, h.grows, fun is => h.console (quieter is)⟩

/-- The object of an error with a message. -/
def errorObject (kind : ErrorKind) (message : Units) : Object where
  kind := .error
  proto := some kind.prototype.ref
  members := #[(messageKey, .hidden (.string message))]

namespace Follows

/-- Actions that go straight on. -/
theorem yields (first : m.Yields s a u) (second : m'.Yields t b v)
    (lands : w.Lands silent R s a b u v) : w.Follows n silent R m m' s t :=
  fun _ _ _ _ _ _ _ =>
    ⟨0, Nat.zero_le _, a, b, u, v, lands, first, second⟩

theorem pure (meet : w.Meet s t) (related : R a b) :
    w.Follows n silent R (Pure.pure a) (Pure.pure b) s t :=
  yields (Action.yields_pure a s) (Action.yields_pure b t) (.refl meet related)

theorem bind (first : w.Follows n silent R m m' s t)
    (next : ∀ a b u v, w.Lands silent R s a b u v → w.Follows n silent Q (f a) (f' b) u v) :
    w.Follows n silent Q (m >>= f) (m' >>= f') s t := by
  intro l few k h e hopeless settles
  obtain ⟨j, le, a, b, u, v, lands, runs, runs'⟩ := first l few _ h e hopeless settles
  have rest := settles.iterate le
  rw [Action.bind_run, runs] at rest
  obtain ⟨i, le', c, d, x, y, lands', goes, goes'⟩ :=
    next a b u v lands (l - j) (by omega) k h e hopeless rest
  refine ⟨i + j, by omega, c, d, x, y, ⟨lands'.related, lands'.meet,
    lands.grows.trans lands'.grows, fun is => (lands'.console is).trans (lands.console is)⟩,
    fun k h => ?_, fun k h => ?_⟩
  · rw [Function.iterate_add_apply, Action.bind_run, runs, goes]
  · rw [Function.iterate_add_apply, Action.bind_run, runs', goes']

theorem map {g : α → γ} {g' : β → δ} (first : w.Follows n silent R m m' s t)
    (weaker : ∀ a b, R a b → Q (g a) (g' b)) :
    w.Follows n silent Q (g <$> m) (g' <$> m') s t :=
  first.bind fun _ _ _ _ lands => .pure lands.meet (weaker _ _ lands.related)

theorem mono {R' : α → β → Prop} {loud : Bool} (h : w.Follows n silent R m m' s t)
    (weaker : ∀ a b, R a b → R' a b) (quieter : loud = true → silent = true) :
    w.Follows n loud R' m m' s t := by
  intro l few k h' e hopeless settles
  obtain ⟨j, le, a, b, u, v, lands, runs⟩ := h l few k h' e hopeless settles
  exact ⟨j, le, a, b, u, v, lands.mono (weaker a b) quieter, runs⟩

theorem weaken {R' : α → β → Prop} (h : w.Follows n silent R m m' s t)
    (weaker : ∀ a b, R a b → R' a b) : w.Follows n silent R' m m' s t :=
  h.mono weaker id

theorem loud (h : w.Follows n true R m m' s t) : w.Follows n silent R m m' s t :=
  h.mono (fun _ _ => id) fun _ => rfl

/-- An action that throws comes to no value. -/
theorem throws {x x' : Value} (meet : w.Meet u v) (same : w.Values x x')
    (h : ∀ k h, m k h s = h x u) : w.Follows n silent R m m' s t := by
  intro l few k h' e hopeless settles
  rw [h] at settles
  exact absurd settles (hopeless x x' u v e l same meet)

theorem failWith {kind : ErrorKind} {message : Units} (meet : w.Meet s t) :
    w.Follows n silent R (Action.failWith kind message) m' s t := by
  have same : w.Objects (errorObject kind message) (errorObject kind message) := by
    refine ⟨.error, rfl, ?_, .cons ⟨rfl, .value true (.string message), rfl, rfl⟩ .nil⟩
    rintro p ⟨⟩
    exact Nat.lt_of_lt_of_le (Store.Intrinsic.ref_lt _) meet.heaps.ready.builtIn.enough
  have made : IsMade (errorObject kind message) := by
    constructor <;> simp [errorObject, madeKeys, Property.hidden]
  exact throws (meet.alloc same made (by simp [errorObject]))
    (.object (Nat.ne_of_gt meet.heaps.more)) fun _ _ => rfl

/-- What follows on an action that throws does not matter. -/
theorem stop (h : w.Follows n silent (fun _ _ => False) m m' s t) :
    w.Follows n silent Q (m >>= f) (m' >>= f') s t :=
  h.bind fun _ _ _ _ lands => lands.related.elim

theorem read {g : Store → α} {g' : Store → β} (meet : w.Meet s t) (related : R (g s) (g' t)) :
    w.Follows n silent R (Action.read g) (Action.read g') s t :=
  yields (fun _ _ => rfl) (fun _ _ => rfl) (.refl meet related)

/-- What is read of the stores is looked at one by one. -/
theorem read_bind {g : Store → α} {g' : Store → β}
    (next : w.Follows n silent Q (f (g s)) (f' (g' t)) s t) :
    w.Follows n silent Q (Action.read g >>= f) (Action.read g' >>= f') s t := next

theorem modify {g g' : Store → Store} (meet : w.Meet (g s) (g' t)) (grows : s.Grows (g s))
    (same : (g s).console = s.console) :
    w.Follows n silent (fun _ _ => True) (Action.modify g) (Action.modify g') s t :=
  yields (fun _ _ => rfl) (fun _ _ => rfl) ⟨trivial, meet, grows, fun _ => same⟩

end Follows

end Shift

end EggLang.Script
