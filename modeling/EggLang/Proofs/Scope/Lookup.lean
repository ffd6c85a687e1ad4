import EggLang.Proofs.Scope.Frames

/-!
# Look-ups after any history of scope frames

Frames are opened, and names are set in any of them at any time, also in a frame that others were
opened inside of long before. A history keeps what was done, in order. It tells by itself which
frames lie around a frame and which value a frame was last given for a name. A look-up gives the
latter for the nearest frame in which the name was set, and a setting is seen from the frames that
come to its frame before another one that owns the name.
-/

namespace EggLang

variable {α : Type} {n : Nat}

/-- How a frame is opened when there are `n` frames. -/
inductive FrameOpening (n : Nat) where
  | outermost
  | enclosed (outer : Fin n)
  | function (outer : Fin n)

namespace FrameOpening

/-- The frame around the new one. -/
def outer? : FrameOpening n → Option Nat
  | outermost => none
  | enclosed outer => some outer
  | function outer => some outer

/-- The frames with the new one. -/
def applyTo (fs : Frames α) : FrameOpening n → Frames α
  | outermost => fs.outermost.2
  | enclosed outer => (fs.enclosed outer).2
  | function outer => (fs.function outer).2

/-- However it is opened, the new frame comes last, binds nothing and has its outer frame. -/
theorem applyTo_eq (fs : Frames α) (o : FrameOpening n) :
    ∃ f : Frame α, o.applyTo fs = (fs.push f).2 ∧ f.outer = o.outer? ∧ f.bindings = .empty := by
  cases o with
  | outermost => exact ⟨_, rfl, rfl, rfl⟩
  | enclosed outer => exact ⟨_, rfl, rfl, rfl⟩
  | function outer => exact ⟨_, rfl, rfl, rfl⟩

theorem outer?_lt {o : FrameOpening n} {outer : Nat} (h : o.outer? = some outer) : outer < n := by
  cases o with
  | outermost => cases h
  | enclosed i => exact Option.some.inj h ▸ i.isLt
  | function i => exact Option.some.inj h ▸ i.isLt

end FrameOpening

/-- What was done to scope frames until there were `n` of them, the latest last. Frames are
numbered as they are made, and only a frame made before can be named. -/
inductive ScopeHistory (α : Type) : Nat → Type where
  | start : ScopeHistory α 0
  | opened {n : Nat} (h : ScopeHistory α n) (o : FrameOpening n) : ScopeHistory α (n + 1)
  | set {n : Nat} (h : ScopeHistory α n) (env : Fin n) (name : Bytes) (value : α) :
      ScopeHistory α n

namespace ScopeHistory

/-- The frames after a history. -/
def frames {n : Nat} : ScopeHistory α n → Frames α
  | start => {}
  | opened h o => o.applyTo h.frames
  | set h env name value => h.frames.set env name value

/-- A frame and the frames around it, from the inside outward. -/
def chain {n : Nat} : ScopeHistory α n → Nat → List Nat
  | start, _ => []
  | opened (n := n) h o, e =>
    if e = n then n :: o.outer?.elim [] fun outer => h.chain outer else h.chain e
  | set h _ _ _, e => h.chain e

/-- The value that was last set for a name in a frame. -/
def latest? {n : Nat} : ScopeHistory α n → (f : Nat) → (x : Bytes) → Option α
  | start, _, _ => none
  | opened h _, f, x => h.latest? f x
  | set h env name value, f, x => if f = env ∧ x = name then some value else h.latest? f x

/-- The name was set in the frame at some time. -/
def WasSet {n : Nat} : ScopeHistory α n → (f : Nat) → (x : Bytes) → Prop
  | start, _, _ => False
  | opened h _, f, x => h.WasSet f x
  | set h env name _, f, x => (f = env ∧ x = name) ∨ h.WasSet f x

/-- On the way along some frames, `f` comes up before every other frame in which the name was
set. -/
def ReachedAlong (h : ScopeHistory α n) (f : Nat) (x : Bytes) (way : List Nat) : Prop :=
  ∃ inner outer, way = inner ++ f :: outer ∧ ∀ g ∈ inner, ¬ h.WasSet g x

/-- Going outward from `e`, one comes to `f` without passing a frame in which the name was set. -/
def Reaches (h : ScopeHistory α n) (e f : Nat) (x : Bytes) : Prop := h.ReachedAlong f x (h.chain e)

variable {h : ScopeHistory α n} {e f : Nat} {x : Bytes} {v : α}

/-! ## Frames and histories -/

@[simp] theorem size_frames (h : ScopeHistory α n) : h.frames.size = n := by
  induction h with
  | start => rfl
  | opened h o ih =>
    obtain ⟨f, pushed, -, -⟩ := o.applyTo_eq h.frames
    rw [frames, pushed, Frames.size_push, ih]
  | set h env name value ih => rw [frames, Frames.size_set, ih]

theorem latest?_of_le (h : ScopeHistory α n) (x : Bytes) (unmade : n ≤ f) :
    h.latest? f x = none := by
  induction h with
  | start => rfl
  | opened h o ih => exact ih (Nat.le_of_succ_le unmade)
  | set h env name value ih =>
    have other : f ≠ env := fun same => Nat.not_le_of_lt env.isLt (same ▸ unmade)
    rw [latest?, if_neg fun both => other both.1, ih unmade]

/-- A frame binds a name to the value that was last set for it there. -/
theorem own?_frames (h : ScopeHistory α n) (f : Nat) (x : Bytes) :
    h.frames.own? f x = h.latest? f x := by
  induction h with
  | start => rfl
  | opened h o ih =>
    obtain ⟨new, pushed, -, bare⟩ := o.applyTo_eq h.frames
    rw [frames, pushed, Frames.own?_push, size_frames, latest?]
    split
    next last =>
      rw [bare, h.latest?_of_le x (Nat.le_of_eq last.symm)]
      rfl
    next => exact ih
  | set h env name value ih =>
    rw [frames, Frames.own?_set, size_frames, latest?, ih]
    by_cases here : f = env ∧ x = name
    · rw [if_pos here, if_pos ⟨here.1, here.2, here.1 ▸ env.isLt⟩]
    · rw [if_neg here, if_neg fun all => here ⟨all.1, all.2.1⟩]

theorem isSome_latest? (h : ScopeHistory α n) (f : Nat) (x : Bytes) :
    (h.latest? f x).isSome = true ↔ h.WasSet f x := by
  induction h with
  | start => simp [latest?, WasSet]
  | opened h o ih => exact ih
  | set h env name value ih =>
    rw [latest?, WasSet]
    split
    next here => simp [here]
    next other => simp [other, ih]

theorem latest?_eq_none : h.latest? f x = none ↔ ¬ h.WasSet f x := by
  rw [← isSome_latest?, Option.not_isSome_iff_eq_none]

/-- The frame around a frame was made before it. -/
theorem outer?_lt (h : ScopeHistory α n) {outer : Nat} (around : h.frames.outer? e = some outer) :
    outer < e := by
  induction h with
  | start => cases around
  | opened h o ih =>
    obtain ⟨new, pushed, enclosing, -⟩ := o.applyTo_eq h.frames
    rw [frames, pushed, Frames.outer?_push, size_frames, enclosing] at around
    split at around
    next last => exact last ▸ FrameOpening.outer?_lt around
    next => exact ih around
  | set h env name value ih =>
    rw [frames, Frames.outer?_set] at around
    exact ih around

/-- Around a frame lie the frame around it and the frames around that one. -/
theorem chain_eq (h : ScopeHistory α n) (made : e < n) :
    h.chain e = e :: (h.frames.outer? e).elim [] fun outer => h.chain outer := by
  induction h with
  | start => exact absurd made (Nat.not_lt_zero e)
  | @opened n h o ih =>
    obtain ⟨new, pushed, enclosing, -⟩ := o.applyTo_eq h.frames
    -- the frames around an older frame are older, so the new one is not among them
    have older {outer : Nat} (before : outer < n) : (h.opened o).chain outer = h.chain outer :=
      if_neg (Nat.ne_of_lt before)
    rw [frames, pushed, Frames.outer?_push, size_frames, enclosing, chain]
    split
    next last =>
      subst last
      cases around : o.outer? with
      | none => rfl
      | some outer => exact congrArg _ (older (FrameOpening.outer?_lt around)).symm
    next different =>
      have before : e < n := Nat.lt_of_le_of_ne (Nat.le_of_lt_succ made) different
      rw [ih before]
      cases around : h.frames.outer? e with
      | none => rfl
      | some outer =>
        exact congrArg _ (older (Nat.lt_trans (h.outer?_lt around) before)).symm
  | set h env name value ih =>
    rw [frames, Frames.outer?_set]
    exact ih made

/-- A look-up goes through the frames around a frame, from the inside outward. -/
theorem get?_frames (h : ScopeHistory α n) (x : Bytes) (made : e < n) :
    h.frames.get? e x = (h.chain e).findSome? fun f => h.latest? f x := by
  induction e using Nat.strongRecOn with
  | ind e ih =>
    rw [Frames.get?, own?_frames, chain_eq h made, List.findSome?_cons]
    cases h.latest? e x with
    | some value => rfl
    | none =>
      cases around : h.frames.outer? e with
      | none => rfl
      | some outer =>
        have before := h.outer?_lt around
        simp only [if_pos before, Option.elim_some]
        exact ih outer before (Nat.lt_trans before made)

/-! ## The nearest frame in which a name was set -/

theorem reachedAlong_cons {g : Nat} {way : List Nat} :
    h.ReachedAlong f x (g :: way) ↔ g = f ∨ (¬ h.WasSet g x ∧ h.ReachedAlong f x way) := by
  constructor
  · rintro ⟨inner, outer, split, unset⟩
    cases inner with
    | nil => exact .inl (List.cons.inj split).1
    | cons first inner =>
      obtain ⟨rfl, rest⟩ := List.cons.inj split
      obtain ⟨here, further⟩ := List.forall_mem_cons.1 unset
      exact .inr ⟨here, inner, outer, rest, further⟩
  · rintro (rfl | ⟨here, inner, outer, rfl, further⟩)
    · exact ⟨[], way, rfl, fun _ mem => absurd mem List.not_mem_nil⟩
    · exact ⟨g :: inner, outer, rfl, List.forall_mem_cons.2 ⟨here, further⟩⟩

theorem findSome?_eq_some_iff (way : List Nat) :
    (way.findSome? fun f => h.latest? f x) = some v
      ↔ ∃ f, h.ReachedAlong f x way ∧ h.latest? f x = some v := by
  constructor
  · intro found
    obtain ⟨inner, f, outer, split, here, unset⟩ := List.findSome?_eq_some_iff.1 found
    exact ⟨f, ⟨inner, outer, split, fun g mem => latest?_eq_none.1 (unset g mem)⟩, here⟩
  · rintro ⟨f, ⟨inner, outer, split, unset⟩, here⟩
    exact List.findSome?_eq_some_iff.2
      ⟨inner, f, outer, split, here, fun g mem => latest?_eq_none.2 (unset g mem)⟩

/-- Along a way, a setting is seen if its frame comes up before another one that owns the name. -/
theorem findSome?_set_reached (env : Fin n) {way : List Nat} (reached : h.ReachedAlong env x way) :
    (way.findSome? fun f => (h.set env x v).latest? f x) = some v := by
  induction way with
  | nil =>
    obtain ⟨inner, outer, split, -⟩ := reached
    cases inner <;> cases split
  | cons g way ih =>
    rw [List.findSome?_cons, latest?]
    by_cases here : g = env
    · rw [if_pos ⟨here, rfl⟩]
    · obtain ⟨unset, further⟩ := (reachedAlong_cons.1 reached).resolve_left here
      rw [if_neg fun both => here both.1, latest?_eq_none.2 unset]
      exact ih further

theorem findSome?_set_unreached (env : Fin n) {way : List Nat}
    (unreached : ¬ h.ReachedAlong env x way) :
    (way.findSome? fun f => (h.set env x v).latest? f x)
      = way.findSome? fun f => h.latest? f x := by
  induction way with
  | nil => rfl
  | cons g way ih =>
    rw [reachedAlong_cons, not_or] at unreached
    obtain ⟨other, hidden⟩ := unreached
    rw [List.findSome?_cons, List.findSome?_cons, latest?, if_neg fun both => other both.1]
    cases here : h.latest? g x with
    | some value => rfl
    | none => exact ih fun further => hidden ⟨latest?_eq_none.1 here, further⟩

/-- What looking a name up from a frame gives, and what changes it. -/
structure LooksUp (h : ScopeHistory α n) (e : Fin n) (x : Bytes) : Prop where
  /-- The value is the one last set in the nearest frame around `e` in which the name was set. -/
  found : ∀ v, h.frames.get? e x = some v ↔ ∃ f, h.Reaches e f x ∧ h.latest? f x = some v
  /-- There is none just where the name was set in no frame around `e`. -/
  missing : h.frames.get? e x = none ↔ ∀ f ∈ h.chain e, ¬ h.WasSet f x
  /-- A frame owns the names that were set in it. -/
  owned : h.frames.owns e x = true ↔ h.WasSet e x
  /-- A setting is seen from where its frame is reached. -/
  reached : ∀ (f : Fin n) (v : α), h.Reaches e f x → (h.set f x v).frames.get? e x = some v
  /-- A setting changes nothing for another name or from elsewhere. -/
  changed : ∀ (f : Fin n) (y : Bytes) (v : α),
    (h.set f y v).frames.get? e x ≠ h.frames.get? e x → x = y ∧ h.Reaches e f y
  /-- Opening a frame changes nothing for the frames before it. -/
  opening : ∀ o : FrameOpening n, (h.opened o).frames.get? e x = h.frames.get? e x

/-- Whatever frames were opened and whatever names were set in them, in whatever order, a name is
looked up in the nearest frame that owns it, and a setting is seen from exactly the frames that
come to its frame before another one that owns the name. -/
theorem lookup_nearest (h : ScopeHistory α n) (e : Fin n) (x : Bytes) : h.LooksUp e x where
  found v := by
    rw [get?_frames h x e.isLt]
    exact findSome?_eq_some_iff _
  missing := by
    rw [get?_frames h x e.isLt, List.findSome?_eq_none_iff]
    exact forall₂_congr fun f _ => latest?_eq_none
  owned := by
    rw [Frames.owns, own?_frames]
    exact isSome_latest? h e x
  reached f v reaches := by
    rw [get?_frames _ x e.isLt, chain]
    exact findSome?_set_reached f reaches
  changed f y v differs := by
    refine Classical.byContradiction fun unseen => differs ?_
    by_cases same : x = y
    · subst same
      rw [get?_frames _ x e.isLt, get?_frames _ x e.isLt, chain]
      exact findSome?_set_unreached f fun reaches => unseen ⟨rfl, reaches⟩
    · exact Frames.get?_set_of_ne _ f v same e
  opening o := by
    obtain ⟨new, pushed, -, -⟩ := o.applyTo_eq h.frames
    have made : e < h.frames.size := by rw [size_frames]; exact e.isLt
    rw [frames, pushed, Frames.get?_push _ new made]

/-- A root, a frame inside it and a function inside that; the root is given another value once the
inner frames exist, and then the middle frame hides it. -/
example :
    let x := utf8 "x"
    let made : ScopeHistory Nat 3 :=
      (((ScopeHistory.start.opened .outermost).set 0 x 1).opened (.enclosed 0)).opened (.function 1)
    (made.frames.get? 2 x = some 1 ∧ (made.set 0 x 2).frames.get? 2 x = some 2)
      ∧ ((made.set 1 x 3).set 0 x 4).frames.get? 2 x = some 3 := by
  refine ⟨⟨?_, ?_⟩, ?_⟩ <;> rw [get?_frames _ _ (by decide)] <;> rfl

end ScopeHistory

end EggLang
