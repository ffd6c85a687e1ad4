import EggLang.Proofs.Compiler.Registration
import EggLang.Proofs.Compiler.Runs
import Mathlib.Data.List.Forall2
import Mathlib.Tactic.SplitIfs

/-!
# Programs that are lowered behind others

Behind other programs a program finds the names that they have defined in the frame around it and
in the registry, and its own frames come after theirs. If it defines no such name, and makes none
that of an operation, its lowering does not notice: where it succeeds alone, it gives the same code
there.
-/

namespace EggLang

namespace Expr

/-- The name that a form `define(name, …)` defines. -/
def definedName? : Expr → Option Bytes
  | apply _ name [target, _] => if name = SpecialForm.define.name then target.word? else none
  | _ => none

/-- The name that a form `set(name, word)` sets to what another word stands for. -/
def aliasedName? : Expr → Option Bytes
  | apply _ name (target :: .word .. :: _) =>
    if name = SpecialForm.set.name then target.word? else none
  | _ => none

/-- The names that a program defines, at any depth. -/
def definedNames (e : Expr) : List Bytes := e.compiledParts.filterMap definedName?

/-- The names that a program sets to what words stand for, at any depth. -/
def aliasedNames (e : Expr) : List Bytes := e.compiledParts.filterMap aliasedName?

variable {args : List Expr} {name : Bytes} {place : Place} {e arg : Expr}

theorem self_mem_compiledParts (e : Expr) : e ∈ e.compiledParts := by
  cases e <;> simp [compiledParts]

theorem compiledParts_arg (mem : arg ∈ args.take (compiledArity name args)) :
    arg.compiledParts ⊆ (apply place name args).compiledParts := by
  intro part inside
  rw [compiledParts, compiledPartsOf_eq]
  exact List.mem_cons_of_mem _ (List.mem_flatMap.2 ⟨arg, mem, inside⟩)

theorem compiledParts_operand {operator : Expr} (mem : arg ∈ operator :: args) :
    arg.compiledParts ⊆ (closure operator args).compiledParts := by
  intro part inside
  rw [compiledParts, compiledPartsOf_eq, List.take_length]
  refine List.mem_cons_of_mem _ (List.mem_append.2 ?_)
  rcases List.mem_cons.1 mem with rfl | mem
  · exact .inl inside
  · exact .inr (List.mem_flatMap.2 ⟨arg, mem, inside⟩)

/-- A program that defines names of `E` only and makes no aliases of those of `D`. -/
structure KeepsTo (D E : List Bytes) (e : Expr) : Prop where
  defined : e.definedNames ⊆ E
  aliased : ∀ n ∈ e.aliasedNames, n ∉ D

theorem KeepsTo.mono {D E : List Bytes} {f : Expr} (h : KeepsTo D E e)
    (parts : f.compiledParts ⊆ e.compiledParts) : KeepsTo D E f where
  defined n mem := by
    obtain ⟨part, inside, named⟩ := List.mem_filterMap.1 mem
    exact h.defined (List.mem_filterMap.2 ⟨part, parts inside, named⟩)
  aliased n mem := by
    obtain ⟨part, inside, named⟩ := List.mem_filterMap.1 mem
    exact h.aliased n (List.mem_filterMap.2 ⟨part, parts inside, named⟩)

end Expr

namespace Compiler

/-- The number of a frame where `k` frames come before the third one. -/
def moved (k env : Nat) : Nat := if env < 2 then env else env + k

section

variable {k i j : Nat}

theorem moved_of_lt (low : i < 2) : moved k i = i := if_pos low

theorem moved_of_le (high : 2 ≤ i) : moved k i = i + k := if_neg (by omega)

theorem moved_lt : moved k i < moved k j ↔ i < j := by
  unfold moved
  split_ifs <;> omega

theorem moved_inj : moved k i = moved k j ↔ i = j := by
  unfold moved
  split_ifs <;> omega

end

/-- The state of a program alone, which defines names of `E`, and the state of the program behind
others, which have defined names of `D` and opened `k` frames. -/
structure Aside (D E : List Bytes) (k : Nat) (s s' : State) : Prop where
  opened : 2 ≤ s.frames.size
  size : s'.frames.size = s.frames.size + k
  outer : ∀ env, s'.frames.outer? (moved k env) = (s.frames.outer? env).map (moved k)
  isFunction : ∀ env, s'.frames.isFunction (moved k env) = s.frames.isFunction env
  /-- The frame of the program and the one around it are the same but for the others' names. -/
  shared : ∀ env < 2, ∀ n ∉ D, s'.frames.own? env n = s.frames.own? env n
  /-- The frames that the program has opened are its own. -/
  private_ : ∀ env, 2 ≤ env → ∀ n, s'.frames.own? (moved k env) n = s.frames.own? env n
  has : ∀ n ∉ D, s'.functions.has n = s.functions.has n
  registered : ∀ n, s.functions.has n = true → n ∈ E
  owned : ∀ n, s.frames.owns 1 n = true → n ∈ E
  unrooted : ∀ n ∈ D, s.frames.own? 0 n = none
  /-- A parameter with one of the others' names stands for itself. -/
  codes : ∀ env, 2 ≤ env → ∀ n ∈ D, ∀ p, s.frames.own? env n ≠ some (.primitive p)
  /-- Alone nothing is around the frame of the program but the root. -/
  base : s.frames.outer? 0 = none ∧ s.frames.outer? 1 = some 0
    ∧ s.frames.isFunction 0 = false ∧ s.frames.isFunction 1 = false
  apart : ∀ n ∈ D, n ∉ E
  ordinary : ∀ n ∈ D, SpecialForm.ofName? n = none

namespace Aside

variable {D E : List Bytes} {k env : Nat} {s s' : State} {name : Bytes} {b : Binding}

/-- The names of the others are not those of the frames that are there for both. -/
theorem hidden (h : Aside D E k s s') (low : env < 2) (mem : name ∈ D) :
    s.frames.own? env name = none := by
  obtain rfl | rfl : env = 0 ∨ env = 1 := by omega
  · exact h.unrooted name mem
  · cases own : s.frames.own? 1 name with
    | none => rfl
    | some b => exact absurd (h.owned name (by rw [Frames.owns, own]; rfl)) (h.apart name mem)

theorem own? (h : Aside D E k s s') (shown : 2 ≤ env ∨ name ∉ D) :
    s'.frames.own? (moved k env) name = s.frames.own? env name := by
  by_cases low : env < 2
  · rw [moved_of_lt low]
    exact h.shared env low name (shown.resolve_left (by omega))
  · exact h.private_ env (by omega) name

theorem owns (h : Aside D E k s s') (shown : 2 ≤ env ∨ name ∉ D) :
    s'.frames.owns (moved k env) name = s.frames.owns env name := by
  rw [Frames.owns, Frames.owns, h.own? shown]

/-- Of the names of the others nothing is found from the frames that are there for both. -/
theorem get?_hidden (h : Aside D E k s s') (low : env < 2) (mem : name ∈ D) :
    s.frames.get? env name = none := by
  obtain ⟨outermost, around, -⟩ := h.base
  have root : s.frames.get? 0 name = none := by
    rw [Frames.get?, h.hidden Nat.two_pos mem]
    simp [outermost]
  obtain rfl | rfl : env = 0 ∨ env = 1 := by omega
  · exact root
  · rw [Frames.get?, h.hidden low mem]
    simp [around, root]

/-- What a name stands for alone it stands for behind the others, and it stands for no more unless
it is a name of theirs. -/
theorem get? (h : Aside D E k s s')
    (shown : name ∉ D ∨ (s.frames.get? env name).isSome) :
    s'.frames.get? (moved k env) name = s.frames.get? env name := by
  induction env using Nat.strongRecOn with
  | ind env ih =>
    have visible : 2 ≤ env ∨ name ∉ D := by
      rcases Nat.lt_or_ge env 2 with low | high
      · refine .inr fun mem => ?_
        rw [h.get?_hidden low mem] at shown
        exact shown.elim (· mem) (by simp)
      · exact .inl high
    rw [Frames.get?, Frames.get?, h.own? visible, h.outer]
    rw [Frames.get?] at shown
    cases own : s.frames.own? env name with
    | some b => rfl
    | none =>
      rw [own] at shown
      cases around : s.frames.outer? env with
      | none => rfl
      | some outer =>
        rw [around] at shown
        dsimp only [Option.map_some] at shown ⊢
        simp only [moved_lt]
        split_ifs at shown ⊢ with inside
        · exact ih outer inside shown
        · rfl

/-- A name of the others is no operation. -/
theorem get?_code (h : Aside D E k s s') (mem : name ∈ D) (p : Primitive) :
    s.frames.get? env name ≠ some (.primitive p) := by
  induction env using Nat.strongRecOn with
  | ind env ih =>
    rcases Nat.lt_or_ge env 2 with low | high
    · simp [h.get?_hidden low mem]
    · rw [Frames.get?]
      split
      next b own =>
        rw [← own]
        exact h.codes env high name mem p
      next =>
        split
        next outer _ =>
          split_ifs with inside
          · exact ih outer inside
          · simp
        next => simp

/-- A name is set in the frame that stands for the one in which it is set alone. If it is a name of
the others, that is none of the frames that are there for both. -/
theorem targetOf? (h : Aside D E k s s') {frame : Nat} (found : s.targetOf? env name = some frame) :
    s'.targetOf? (moved k env) name = some (moved k frame) ∧ s.frames.owns frame name = true
      ∧ (2 ≤ frame ∨ name ∉ D) := by
  unfold State.targetOf? at found ⊢
  have owned : s.frames.owns frame name = true :=
    List.find?_some (p := fun i => s.frames.owns i name) found
  have hidden (i : Nat) (low : i < 2) (mem : name ∈ D) : s.frames.owns i name = false := by
    rw [Frames.owns, h.hidden low mem]
    rfl
  have shown (i : Nat) (owns : s.frames.owns i name = true) : 2 ≤ i ∨ name ∉ D := by
    rw [or_iff_not_imp_left, Nat.not_le]
    exact fun low mem => absurd ((hidden i low mem).symm.trans owns) (by decide)
  refine ⟨?_, owned, shown frame owned⟩
  rw [List.find?_cons] at found ⊢
  cases here : s.frames.owns env name with
  | true =>
    simp only [here] at found
    obtain rfl := Option.some.inj found
    rw [h.owns (shown env here), here]
  | false =>
    simp only [here] at found
    have outer : s.frames.outer? env = some frame := by
      cases around : s.frames.outer? env with
      | none => simp [around] at found
      | some outer =>
        rw [around] at found
        simp only [Option.toList_some, List.find?_cons] at found
        split at found
        next => exact found
        next => cases found
    -- around the frames that are there for both there are no others
    have inner : 2 ≤ env ∨ name ∉ D := by
      rw [or_iff_not_imp_left, Nat.not_le]
      intro low mem
      have low' : frame < 2 := by
        obtain rfl | rfl : env = 0 ∨ env = 1 := by omega
        · simp [h.base.1] at outer
        · rw [h.base.2.1] at outer
          obtain rfl := Option.some.inj outer
          decide
      exact absurd ((hidden frame low' mem).symm.trans owned) (by decide)
    rw [h.owns inner, here, h.outer, outer]
    simp [h.owns (shown frame owned), owned]

theorem register (h : Aside D E k s s') (mem : name ∈ E) :
    Aside D E k { s with functions := s.functions.add name }
      { s' with functions := s'.functions.add name } :=
  { h with
    has := fun n free => by simp [h.has n free]
    registered := fun n registered => by
      simp only [Registry.has_add, Bool.or_eq_true, beq_iff_eq] at registered
      rcases registered with rfl | old
      · exact mem
      · exact h.registered n old }

/-- A name is bound: one that is not of the others, or a parameter to itself. -/
theorem set (h : Aside D E k s s') (fits : name ∉ D ∨ 2 ≤ env ∧ ∀ p, b ≠ .primitive p)
    (own : env = 1 → name ∈ E) :
    Aside D E k { s with frames := s.frames.set env name b }
      { s' with frames := s'.frames.set (moved k env) name b } where
  opened := by simpa using h.opened
  size := by simpa using h.size
  outer i := by simpa using h.outer i
  isFunction i := by simpa using h.isFunction i
  shared i low n free := by
    have opened := h.opened
    have size := h.size
    have same : i = moved k env ↔ i = env := by
      rw [← moved_inj (k := k) (i := i) (j := env), moved_of_lt low]
    simp only [Frames.own?_set, same, h.shared i low n free]
    simp only [show i < s'.frames.size ↔ i < s.frames.size by omega]
  private_ i high n := by
    have size := h.size
    have bound : moved k i < s'.frames.size ↔ i < s.frames.size := by
      rw [moved_of_le high]
      omega
    simp only [Frames.own?_set, moved_inj, bound, h.private_ i high n]
  has := h.has
  registered := h.registered
  owned n owns := by
    rcases (Frames.owns_set_iff ..).1 owns with old | ⟨here, rfl, -⟩
    · exact h.owned n old
    · exact own here.symm
  unrooted n mem := by
    have other : ¬ (0 = env ∧ n = name ∧ 0 < s.frames.size) := by
      rintro ⟨rfl, rfl, -⟩
      exact fits.elim (· mem) fun high => absurd high.1 (by omega)
    rw [Frames.own?_set, if_neg other]
    exact h.unrooted n mem
  codes i high n mem p := by
    rw [Frames.own?_set]
    split_ifs with here
    · obtain ⟨rfl, rfl, -⟩ := here
      exact fun same => (fits.resolve_left (· mem)).2 p (Option.some.inj same)
    · exact h.codes i high n mem p
  base := by simpa using h.base
  apart := h.apart
  ordinary := h.ordinary

theorem count (h : Aside D E k s s') (c c' : Nat) :
    Aside D E k { s with rootChanges := c } { s' with rootChanges := c' } := { h with }

theorem moved_size (h : Aside D E k s s') : moved k s.frames.size = s'.frames.size := by
  rw [moved_of_le h.opened, h.size]

theorem function (h : Aside D E k s s') (env : Nat) :
    Aside D E k { s with frames := (s.frames.function env).2 }
      { s' with frames := (s'.frames.function (moved k env)).2 } := by
  have opened := h.opened
  have size := h.size
  have newest (i : Nat) : moved k i = s'.frames.size ↔ i = s.frames.size := by
    rw [← h.moved_size, moved_inj]
  have old {i : Nat} (low : i < 2) : i ≠ s.frames.size := by omega
  have old' {i : Nat} (low : i < 2) : i ≠ s'.frames.size := by omega
  have own (i : Nat) (n : Bytes) : (s.frames.function env).2.own? i n
      = if i = s.frames.size then none else s.frames.own? i n := Frames.own?_push ..
  have own' (i : Nat) (n : Bytes) : (s'.frames.function (moved k env)).2.own? i n
      = if i = s'.frames.size then none else s'.frames.own? i n := Frames.own?_push ..
  refine { h with
    opened := ?_, size := ?_, outer := fun i => ?_, isFunction := fun i => ?_,
    shared := fun i low n free => ?_, private_ := fun i high n => ?_, owned := fun n owns => ?_,
    unrooted := fun n mem => ?_, codes := fun i high n mem p => ?_, base := ?_ }
  · simp only [Frames.function, Frames.size_push]
    omega
  · simp only [Frames.function, Frames.size_push]
    omega
  · simp only [Frames.function, Frames.outer?_push, newest]
    split_ifs
    · rfl
    · exact h.outer i
  · simp only [Frames.function, Frames.isFunction_push, newest]
    split_ifs
    · rfl
    · exact h.isFunction i
  · rw [own, own', if_neg (old low), if_neg (old' low)]
    exact h.shared i low n free
  · simp only [own, own', newest]
    split_ifs
    · rfl
    · exact h.private_ i high n
  · rw [Frames.owns, own, if_neg (old Nat.one_lt_two)] at owns
    exact h.owned n owns
  · rw [own, if_neg (old Nat.two_pos)]
    exact h.unrooted n mem
  · rw [own]
    split_ifs
    · simp
    · exact h.codes i high n mem p
  · simp only [Frames.function, Frames.outer?_push, Frames.isFunction_push,
      if_neg (old Nat.two_pos), if_neg (old Nat.one_lt_two)]
    exact h.base

end Aside

/-- Where the first lowering succeeds alone, the second one does behind others, with the same
outcome. -/
def Repeats {α : Type} (D E : List Bytes) (k : Nat) (m m' : Lowering α) : Prop :=
  ∀ s s' a t, Aside D E k s s' → m s = .ok a t → ∃ t', m' s' = .ok a t' ∧ Aside D E k t t'

namespace Repeats

variable {α β : Type} {D E : List Bytes} {k env : Nat} {name : Bytes} {value : Binding}

protected theorem pure (a : α) : Repeats D E k (pure a : Lowering α) (pure a) := by
  intro s s' b t aside ok
  cases ok
  exact ⟨s', rfl, aside⟩

/-- Of a lowering that fails nothing has to be shown. -/
theorem refuse {fault : Fault} {place : Place} {m' : Lowering α} :
    Repeats D E k (refuse fault place) m' := by
  intro s s' a t _ ok
  cases ok

protected theorem bind {m m' : Lowering α} {f f' : α → Lowering β} (first : Repeats D E k m m')
    (next : ∀ a, Repeats D E k (f a) (f' a)) : Repeats D E k (m >>= f) (m' >>= f') := by
  intro s s' b u aside ok
  obtain ⟨a, t, run, rest⟩ := bind_eq_ok ok
  obtain ⟨t', run', between⟩ := first s s' a t aside run
  obtain ⟨u', rest', after⟩ := next a t t' b u between rest
  exact ⟨u', (bind_ok run').trans rest', after⟩

theorem get_bind {f f' : State → Lowering α}
    (next : ∀ s s', Aside D E k s s' → Repeats D E k (f s) (f' s')) :
    Repeats D E k (get >>= f) (get >>= f') :=
  fun s s' a t aside ok => next s s' aside s s' a t aside ok

theorem modify {g g' : State → State}
    (keeps : ∀ s s', Aside D E k s s' → Aside D E k (g s) (g' s')) :
    Repeats D E k (modify g : Lowering PUnit) (modify g') := by
  intro s s' a t aside ok
  cases ok
  exact ⟨g' s', rfl, keeps s s' aside⟩

theorem registerName (mem : name ∈ E) :
    Repeats D E k (registerName name) (registerName name) :=
  modify fun _ _ aside => aside.register mem

theorem bindName (fits : name ∉ D ∨ 2 ≤ env ∧ ∀ p, value ≠ .primitive p)
    (own : env = 1 → name ∈ E) :
    Repeats D E k (bindName env name value) (bindName (moved k env) name value) :=
  modify fun _ _ aside => aside.set fits own

theorem evaluateWord (place : Place) (name : Bytes) (env : Nat) :
    Repeats D E k (evaluateWord place name env) (evaluateWord place name (moved k env)) := by
  unfold Compiler.evaluateWord
  refine get_bind fun s s' aside => ?_
  cases found : s.frames.get? env name with
  | some b =>
    rw [aside.get? (.inr (by rw [found]; rfl)), found]
    cases b <;> exact .pure _
  | none =>
    by_cases registered : s.functions.has name = true
    · have free : name ∉ D := fun mem => aside.apart name mem (aside.registered name registered)
      simp only [aside.get? (.inl free), found, aside.has name free, if_pos registered]
      exact .pure _
    · simp only [if_neg registered]
      exact refuse

theorem bindParams (params : List Bytes) (high : 2 ≤ env) :
    Repeats D E k (params.forM fun p => Compiler.bindName env p (.code (.ident p)))
      (params.forM fun p => Compiler.bindName (moved k env) p (.code (.ident p))) := by
  induction params with
  | nil => exact .pure _
  | cons p rest ih =>
    exact (bindName (.inr ⟨high, by simp⟩) (by omega)).bind fun _ => ih

theorem openFunction_bind (params : List Bytes) {f f' : Nat → Lowering α}
    (next : ∀ inner, Repeats D E k (f inner) (f' (moved k inner))) :
    Repeats D E k (openFunction params env >>= f) (openFunction params (moved k env) >>= f') := by
  intro s s' a t aside ok
  rw [openFunction_bind_apply] at ok ⊢
  rw [← aside.moved_size]
  have body := (bindParams params aside.opened).bind fun _ => next s.frames.size
  exact body _ _ a t (aside.function env) ok

end Repeats

/-- The lowering of an expression in a frame is repeated in the frame that stands for it. -/
def Recurs (D E : List Bytes) (k : Nat) (e : Expr) : Prop :=
  ∀ env, Repeats D E k (evaluate e env) (evaluate e (moved k env))

section Forms

variable {D E : List Bytes} {k env : Nat} {args : List Expr} {place : Place}

theorem Repeats.lowerAll (each : ∀ arg ∈ args, Recurs D E k arg) :
    Repeats D E k (lowerAll args env) (lowerAll args (moved k env)) := by
  induction args with
  | nil =>
    rw [Compiler.lowerAll, Compiler.lowerAll]
    exact .pure _
  | cons e rest ih =>
    rw [Compiler.lowerAll, Compiler.lowerAll]
    obtain ⟨first, others⟩ := List.forall_mem_cons.1 each
    exact (first env).bind fun _ => (ih others).bind fun _ => .pure _

theorem Repeats.lowerIf (each : ∀ arg ∈ args, Recurs D E k arg) :
    Repeats D E k (lowerIf place args env) (lowerIf place args (moved k env)) := by
  unfold Compiler.lowerIf
  split
  next cond yes no =>
    have run (arg : Expr) (mem : arg ∈ [cond, yes, no]) := each arg mem env
    exact (run yes (by simp)).bind fun _ => (run no (by simp)).bind fun _ =>
      (run cond (by simp)).bind fun _ => .pure _
  next => exact .refuse

theorem Repeats.lowerWhile (each : ∀ arg ∈ args, Recurs D E k arg) :
    Repeats D E k (lowerWhile place args env) (lowerWhile place args (moved k env)) := by
  unfold Compiler.lowerWhile
  split
  next cond body =>
    have run (arg : Expr) (mem : arg ∈ [cond, body]) := each arg mem env
    exact (run cond (by simp)).bind fun _ => (run body (by simp)).bind fun _ => .pure _
  next => exact .refuse

/-- An application of one of the others' names does not succeed alone. -/
theorem Aside.not_applied {s s' t : State} {name : Bytes} {b : Binding} (h : Aside D E k s s')
    (mem : name ∈ D) : evaluate (.apply place name args) env s ≠ .ok b t := by
  intro ok
  rw [evaluate, h.ordinary name mem] at ok
  have unregistered : ¬ s.functions.has name = true := fun has =>
    h.apart name mem (h.registered name has)
  simp only [get_bind_apply, if_neg unregistered] at ok
  obtain ⟨value, u, word, rest⟩ := bind_eq_ok ok
  rw [Compiler.evaluateWord, get_bind_apply] at word
  cases found : s.frames.get? env name with
  | none =>
    simp only [found, if_neg unregistered] at word
    cases word
  | some c =>
    cases c with
    | primitive p => exact h.get?_code mem p found
    | code c =>
      simp only [found] at word
      cases word
      cases rest

/-- The last argument of a `do` that succeeds alone is closed alike. -/
theorem Aside.closing {s s' t t' : State} {e : Expr} {b : Binding} (before : Aside D E k s s')
    (ok : evaluate e env s = .ok b t) (after : Aside D E k t t') (code : Code) :
    t'.closing e code = t.closing e code := by
  have same : e.operator?.map t'.returnsValue = e.operator?.map t.returnsValue := by
    cases e with
    | apply place name args =>
      have free : name ∉ D := fun mem => before.not_applied mem ok
      have own := after.shared 0 Nat.two_pos name free
      rw [Expr.operator?, Option.map_some, Option.map_some, State.returnsValue, State.returnsValue,
        after.has name free, own]
    | _ => rfl
  rw [State.closing, State.closing, same]

theorem Repeats.lowerDo (each : ∀ arg ∈ args, Recurs D E k arg) :
    Repeats D E k (lowerDo args env) (lowerDo args (moved k env)) := by
  induction args with
  | nil =>
    rw [Compiler.lowerDo, Compiler.lowerDo]
    exact .pure _
  | cons arg rest ih =>
    obtain ⟨first, others⟩ := List.forall_mem_cons.1 each
    cases rest with
    | nil =>
      rw [Compiler.lowerDo, Compiler.lowerDo]
      intro s s' codes u aside ok
      obtain ⟨b, t, run, rest⟩ := bind_eq_ok ok
      obtain ⟨t', run', after⟩ := first env s s' b t aside run
      rw [bind_ok run']
      cases rest
      refine ⟨t', ?_, after⟩
      simp only [get_bind_apply, after.isFunction, aside.closing run after]
      rfl
    | cons next later =>
      rw [lowerDo_cons arg (by simp), lowerDo_cons arg (by simp)]
      exact (first env).bind fun _ => (ih others).bind fun _ => .pure _

theorem Repeats.lowerDefine (keeps : (Expr.apply place SpecialForm.define.name args).KeepsTo D E)
    (apart : ∀ n ∈ D, n ∉ E) (each : ∀ arg ∈ args, Recurs D E k arg) :
    Repeats D E k (lowerDefine place args env) (lowerDefine place args (moved k env)) := by
  unfold Compiler.lowerDefine
  split
  next target value =>
    have run := each value (by simp) env
    split
    next => exact .refuse
    next name word =>
      have own : name ∈ E := by
        refine keeps.defined (List.mem_filterMap.2 ⟨_, Expr.self_mem_compiledParts _, ?_⟩)
        simpa [Expr.definedName?] using word
      have free : name ∉ D := fun mem => apart name mem own
      split
      next => exact (registerName own).bind fun _ => run.bind fun _ => .pure _
      next =>
        refine get_bind fun s s' aside => ?_
        rw [aside.owns (.inr free)]
        split
        next => exact run.bind fun _ => .pure _
        next =>
          exact run.bind fun _ => (bindName (.inl free) fun _ => own).bind fun _ => .pure _
  next => exact .refuse

theorem Repeats.lowerSet (keeps : (Expr.apply place SpecialForm.set.name args).KeepsTo D E)
    (each : ∀ arg ∈ args.take 2, Recurs D E k arg) :
    Repeats D E k (lowerSet place args env) (lowerSet place args (moved k env)) := by
  intro s s' b u aside ok
  obtain ⟨target, value, rest, name, v, t, frame, rfl, word, run, found, rfl, rfl⟩ :=
    lowerSet_ok ok
  obtain ⟨t', run', after⟩ := each value (by simp) env s s' v t aside run
  obtain ⟨found', owned, shown⟩ := after.targetOf? found
  -- a name of the others that is set to an operation would be an alias
  have fits : name ∉ D ∨ 2 ≤ frame ∧ ∀ p, v ≠ .primitive p := by
    by_cases mem : name ∈ D
    · refine .inr ⟨shown.resolve_right (absurd mem), ?_⟩
      rintro p rfl
      refine keeps.aliased name (List.mem_filterMap.2 ⟨_, Expr.self_mem_compiledParts _, ?_⟩) mem
      cases value with
      | word => simpa [Expr.aliasedName?] using word
      | _ => exact absurd rfl (word_of_primitive run)
    · exact .inl mem
  have rebound := rebind_apply (moved k env) name v t'
  rw [found'] at rebound
  refine ⟨{ t' with
      frames := t'.frames.set (moved k frame) name v
      rootChanges := if moved k frame = 0 then t'.rootChanges + 1 else t'.rootChanges }, ?_,
    (after.set fits fun here => after.owned name (here ▸ owned)).count _ _⟩
  rw [Compiler.lowerSet, if_neg (by simp [word]), bind_ok run']
  simp only [word]
  rw [bind_ok rebound]
  rfl

theorem Repeats.lowerFun (params : List Bytes) (each : ∀ arg ∈ args, Recurs D E k arg) :
    Repeats D E k (lowerFun place params args env) (lowerFun place params args (moved k env)) := by
  induction args generalizing params with
  | nil =>
    rw [Compiler.lowerFun, Compiler.lowerFun]
    exact .refuse
  | cons arg rest ih =>
    obtain ⟨first, others⟩ := List.forall_mem_cons.1 each
    cases rest with
    | nil =>
      rw [Compiler.lowerFun, Compiler.lowerFun]
      exact openFunction_bind params fun inner => (first inner).bind fun _ => .pure _
    | cons next later =>
      rw [Compiler.lowerFun, Compiler.lowerFun]
      · split
        next => exact .refuse
        next name _ => exact ih (params ++ [name]) others
      · simp
      · simp

end Forms

/-- A program that has nothing to do with the names of others is lowered behind them as alone. -/
theorem Recurs.of {D E : List Bytes} {k : Nat} (apart : ∀ n ∈ D, n ∉ E) (e : Expr)
    (keeps : e.KeepsTo D E) : Recurs D E k e := by
  have smaller (arg : Expr) (less : sizeOf arg < sizeOf e) (keeps : arg.KeepsTo D E) :
      Recurs D E k arg := Recurs.of apart arg keeps
  match e with
  | .number .. | .string .. =>
    intro env
    rw [evaluate]
    exact .pure _
  | .word place name =>
    intro env
    rw [evaluate, evaluate]
    exact .evaluateWord place name env
  | .apply place name args =>
    have each : ∀ arg ∈ args.take (Expr.compiledArity name args), Recurs D E k arg := by
      intro arg mem
      have := List.sizeOf_lt_of_mem (List.mem_of_mem_take mem)
      refine smaller arg ?_ (keeps.mono (Expr.compiledParts_arg mem))
      rw [Expr.apply.sizeOf_spec]
      omega
    have all (other : name ≠ SpecialForm.set.name) : ∀ arg ∈ args, Recurs D E k arg := by
      rwa [Expr.compiledArity, if_neg other, List.take_length] at each
    have all_of {form : SpecialForm} (is : SpecialForm.ofName? name = some form)
        (other : form.name ≠ SpecialForm.set.name) : ∀ arg ∈ args, Recurs D E k arg :=
      all (SpecialForm.name_of_ofName? is ▸ other)
    intro env
    by_cases mem : name ∈ D
    · intro s s' b t aside ok
      exact absurd ok (aside.not_applied mem)
    rw [evaluate, evaluate]
    split
    next is => exact .lowerIf (all_of is (by decide))
    next is => exact .lowerWhile (all_of is (by decide))
    next is => exact (Repeats.lowerDo (all_of is (by decide))).bind fun _ => .pure _
    next is =>
      have args_recur := all_of is (by decide)
      obtain rfl := SpecialForm.name_of_ofName? is
      exact .lowerDefine keeps apart args_recur
    next is =>
      obtain rfl := SpecialForm.name_of_ofName? is
      exact .lowerSet keeps each
    next is => exact .lowerFun [] (all_of is (by decide))
    next is =>
      have args_recur := all fun same => by
        rw [same, SpecialForm.ofName?_name .set] at is
        cases is
      refine .get_bind fun s s' aside => ?_
      rw [aside.has name mem]
      split
      next => exact (Repeats.lowerAll args_recur).bind fun _ => .pure _
      next =>
        refine (Repeats.evaluateWord place name env).bind fun value => ?_
        split
        next => exact .refuse
        next => exact (Repeats.lowerAll args_recur).bind fun _ => .pure _
  | .closure operator args =>
    have each : ∀ arg ∈ operator :: args, Recurs D E k arg := by
      intro arg mem
      refine smaller arg ?_ (keeps.mono (Expr.compiledParts_operand mem))
      rw [Expr.closure.sizeOf_spec]
      rcases List.mem_cons.1 mem with rfl | mem
      · omega
      · have := List.sizeOf_lt_of_mem mem
        omega
    obtain ⟨callee, args_recur⟩ := List.forall_mem_cons.1 each
    intro env
    rw [evaluate, evaluate]
    exact (callee env).bind fun _ => (Repeats.lowerAll args_recur).bind fun _ => .pure _
termination_by sizeOf e

/-! ## One program after the other -/

/-- A name that no new compiler knows. -/
def IsNew (n : Bytes) : Prop :=
  (rootBindings Primitive.all).get? n = none ∧ SpecialForm.ofName? n = none

/-- What a program is lowered to alone that leaves the root as it is. -/
def LowersAlone (indent : Bytes) (e : Expr) (c : Code) : Prop :=
  ∃ b t, evaluate e 1 (Compiler.new indent).start = .ok b t ∧ b.toCode = c ∧ t.rootChanges = 0

variable {indent : Bytes} {D E : List Bytes} {k : Nat} {s t : State} {e : Expr} {c : Code}

/-- What is left in the frame of the programs and in the one around it decides whether they are
behind what follows. -/
structure Leaves (indent : Bytes) (D : List Bytes) (s : State) : Prop where
  opened : 2 ≤ s.frames.size
  around : s.frames.outer? 0 = none ∧ s.frames.outer? 1 = some 0
  plain : s.frames.isFunction 0 = false ∧ s.frames.isFunction 1 = false
  root : ∀ n ∉ D, s.frames.own? 0 n = (Compiler.new indent).root.get? n
  own : ∀ n ∉ D, s.frames.own? 1 n = none
  unregistered : ∀ n ∉ D, s.functions.has n = false
  new : ∀ n ∈ D, IsNew n

theorem Leaves.start (indent : Bytes) : Leaves indent [] (Compiler.new indent).start := by
  constructor <;> simp [Compiler.start, Compiler.new, Frames.enclosed, Frames.ofRoot, Frames.push,
    Frames.size, Frames.outer?, Frames.isFunction, Frames.own?, Frames.frame?, Registry.has,
    Registry.empty, Bindings.get?, Bindings.empty, Bindings.findEntry]

theorem Leaves.aside (h : Leaves indent D s) (apart : ∀ n ∈ D, n ∉ E) :
    Aside D E (s.frames.size - 2) (Compiler.new indent).start s := by
  have opened := h.opened
  have fresh := Leaves.start indent
  have size : (Compiler.new indent).start.frames.size = 2 := rfl
  -- no frame is there alone beyond the second, and none behind the others beyond theirs
  have gone {i : Nat} (high : 2 ≤ i) :
      (Compiler.new indent).start.frames.frame? i = none
        ∧ s.frames.frame? (moved (s.frames.size - 2) i) = none := by
    rw [moved_of_le high]
    exact ⟨Frames.frame?_of_size_le (by omega), Frames.frame?_of_size_le (by omega)⟩
  refine {
    opened := Nat.le_refl 2, size := by omega, outer := fun i => ?_, isFunction := fun i => ?_,
    shared := fun i low n free => ?_, private_ := fun i high n => ?_, has := fun n free => ?_,
    registered := fun n has => ?_, owned := fun n owns => ?_,
    unrooted := fun n mem => (h.new n mem).1,
    codes := fun i high n mem p => ?_, base := ?_, apart, ordinary := fun n mem => (h.new n mem).2 }
  · match i with
    | 0 => exact h.around.1
    | 1 => exact h.around.2
    | i + 2 => rw [Frames.outer?, Frames.outer?, (gone (by omega)).1, (gone (by omega)).2]; rfl
  · match i with
    | 0 => exact h.plain.1
    | 1 => exact h.plain.2
    | i + 2 => rw [Frames.isFunction, Frames.isFunction, (gone (by omega)).1, (gone (by omega)).2]
  · obtain rfl | rfl : i = 0 ∨ i = 1 := by omega
    · exact h.root n free
    · exact h.own n free
  · rw [Frames.own?, Frames.own?, (gone high).1, (gone high).2]
  · exact h.unregistered n free
  · rw [fresh.unregistered n List.not_mem_nil] at has
    cases has
  · rw [Frames.owns, fresh.own n List.not_mem_nil] at owns
    cases owns
  · rw [Frames.own?, (gone high).1]
    simp
  · exact ⟨fresh.around.1, fresh.around.2, fresh.plain.1, fresh.plain.2⟩

end Compiler

end EggLang
