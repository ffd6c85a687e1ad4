import EggLang.Proofs.Compiler.Scopes

/-!
# Scopes around the names of a lowering

A frame is opened for each function of a program, and the function becomes a function literal of
the code. While a program is lowered, look-ups go from a frame to the one around it, and what is
lowered in a frame binds names in it and in frames that are opened meanwhile. So the scopes around
a name lead to the frame that owns it by then, if that was opened on the way, or else to the frame
in which all was lowered; and no scope on the way had bound the name before.
-/

namespace EggLang

namespace Frames

variable {α : Type} {fs gs : Frames α} {env f : Nat} {name : Bytes}

theorem owner?_le (found : fs.owner? env name = some f) : f ≤ env := by
  induction env using Nat.strongRecOn with
  | ind env ih =>
    rw [owner?] at found
    split at found
    next =>
      cases found
      exact Nat.le_refl _
    next =>
      split at found
      next outer _ =>
        split at found
        next inside => exact Nat.le_trans (ih outer inside found) (Nat.le_of_lt inside)
        next => cases found
      next => cases found

/-- A look-up only goes through earlier frames. -/
theorem owner?_congr (outer : ∀ i ≤ env, gs.outer? i = fs.outer? i)
    (owns : ∀ i ≤ env, gs.owns i name = fs.owns i name) :
    gs.owner? env name = fs.owner? env name := by
  induction env using Nat.strongRecOn with
  | ind env ih =>
    rw [owner?, owner?, owns env (Nat.le_refl _), outer env (Nat.le_refl _)]
    split
    next => rfl
    next =>
      split
      next around _ =>
        split
        next inside =>
          exact ih around inside (fun i le => outer i (by omega)) fun i le => owns i (by omega)
        next => rfl
      next => rfl

theorem owns_function (fs : Frames α) (env i : Nat) (n : Bytes) (before : i ≠ fs.size) :
    (fs.function env).2.owns i n = fs.owns i n := by
  rw [owns, owns, function, own?_push, if_neg before]

theorem not_owns_function (fs : Frames α) (env : Nat) (n : Bytes) :
    (fs.function env).2.owns fs.size n = false := by
  rw [owns, function, own?_push, if_pos rfl]
  rfl

end Frames

namespace Compiler

open Mention (Nested)
open NameStep (Bound)

/-- Every frame was opened after the one around it. -/
def Formed (s : State) : Prop := ∀ i o, s.frames.outer? i = some o → o < i

/-- The state of a lowering in a frame. -/
structure Ready (env : Nat) (s : State) : Prop where
  formed : Formed s
  made : env < s.frames.size

/-- The owner is found from the scope at the start, or is the scope's frame itself by the time of
the name. -/
def Reaches (s : State) (here : Scope) (before : List NameStep) (m : Mention) : Prop :=
  m.owner = here.frame ∧ Bound before here m.name
    ∨ s.frames.owner? here.frame m.name = some m.owner
      ∧ (m.owner = here.frame ∨ ¬ Bound before here m.name)

/-- A name that is looked up in a lowering has scopes around it that were opened since its start,
besides those that were around all of it. They lead to the owner, or else to what the look-up from
there reaches. -/
structure Fits (s : State) (here : Scope) (outer : List Scope) (before : List NameStep)
    (m : Mention) (inner : List Scope) : Prop where
  around : m.around = inner ++ here :: outer
  nested : Nested inner
  opened : ∀ x ∈ inner, s.frames.size ≤ x.frame
  leads : Scope.LeadsTo before m.name m.owner (Reaches s here before m) inner

/-- What holds of a succeeding lowering in a scope that takes some steps. -/
structure Tracked (here : Scope) (outer : List Scope) (steps : List NameStep) (s t : State) :
    Prop where
  ready : Ready here.frame t
  size : s.frames.size ≤ t.frames.size
  around : ∀ i < s.frames.size, t.frames.outer? i = s.frames.outer? i
  /-- Of the frames that were there, that of the scope gets the names which the steps bind. -/
  owns : ∀ i < s.frames.size, ∀ n, t.frames.owns i n = true
    ↔ s.frames.owns i n = true ∨ i = here.frame ∧ Bound steps here n
  /-- All definitions are in the scope or in one that was opened meanwhile. -/
  scopes : ∀ x n b k, .define x n b k ∈ steps →
    x = here ∨ s.frames.size ≤ x.frame ∧ x.frame < t.frames.size
  fits : ∀ before m k after, steps = before ++ .look m k :: after →
    ∃ inner, Fits s here outer before m inner

namespace Tracked

variable {here : Scope} {outer : List Scope} {steps steps' : List NameStep} {s t u : State}

/-- What is done to the registry or to the values of names is no step. -/
theorem still (ready : Ready here.frame t) (size : t.frames.size = s.frames.size)
    (around : ∀ i, t.frames.outer? i = s.frames.outer? i)
    (owns : ∀ i n, t.frames.owns i n = s.frames.owns i n) : Tracked here outer [] s t where
  ready := ready
  size := Nat.le_of_eq size.symm
  around i _ := around i
  owns i _ n := by
    rw [owns]
    exact ⟨.inl, fun h => h.resolve_right fun ⟨_, _, mem⟩ => by cases mem⟩
  scopes x n b k mem := by cases mem
  fits before m k after split := by simp at split

theorem nil (ready : Ready here.frame s) : Tracked here outer [] s s :=
  .still ready rfl (fun _ => rfl) fun _ _ => rfl

/-- An owner found after some steps was found before, or is the frame that they bind names in. -/
theorem reaches (h : Tracked here outer steps s t) (ready : Ready here.frame s)
    {before : List NameStep} {m : Mention} (found : Reaches t here before m) :
    Reaches s here (steps ++ before) m := by
  rcases found with ⟨same, kept, bound⟩ | ⟨found, unbound⟩
  · exact .inl ⟨same, kept, List.mem_append_right _ bound⟩
  · cases owned : t.frames.owns here.frame m.name with
    | true =>
      rw [Frames.owner?_of_owns owned] at found
      have same := (Option.some.inj found).symm
      rcases (h.owns here.frame ready.made m.name).1 owned with before | ⟨-, kept, bound⟩
      · exact .inr ⟨by rw [same, Frames.owner?_of_owns before], .inl same⟩
      · exact .inl ⟨same, kept, List.mem_append_left _ bound⟩
    | false =>
      have unowned : ¬ (s.frames.owns here.frame m.name = true
          ∨ here.frame = here.frame ∧ Bound steps here m.name) := by
        rw [← h.owns here.frame ready.made m.name, owned]
        nofun
      have same : t.frames.owner? here.frame m.name = s.frames.owner? here.frame m.name := by
        refine Frames.owner?_congr (fun i le => ?_) fun i le => ?_
        · exact h.around i (Nat.lt_of_le_of_lt le ready.made)
        · rw [Bool.eq_iff_iff, h.owns i (Nat.lt_of_le_of_lt le ready.made)]
          refine ⟨fun owned => owned.resolve_right ?_, .inl⟩
          rintro ⟨rfl, bound⟩
          exact unowned (.inr ⟨rfl, bound⟩)
      refine .inr ⟨same ▸ found, unbound.imp_right fun later => ?_⟩
      rintro ⟨kept, mem⟩
      rcases List.mem_append.1 mem with mem | mem
      · exact unowned (.inr ⟨rfl, kept, mem⟩)
      · exact later ⟨kept, mem⟩

/-- Two lowerings in a scope, one after the other. -/
theorem append (first : Tracked here outer steps s t) (second : Tracked here outer steps' t u)
    (ready : Ready here.frame s) : Tracked here outer (steps ++ steps') s u where
  ready := second.ready
  size := Nat.le_trans first.size second.size
  around i made :=
    (second.around i (Nat.lt_of_lt_of_le made first.size)).trans (first.around i made)
  owns i made n := by
    have bound : Bound (steps ++ steps') here n ↔ Bound steps here n ∨ Bound steps' here n := by
      simp only [Bound, List.mem_append, exists_or]
    rw [second.owns i (Nat.lt_of_lt_of_le made first.size), first.owns i made, bound, and_or_left,
      or_assoc]
  scopes x n b k mem := by
    have longer := first.size
    have further := second.size
    rcases List.mem_append.1 mem with mem | mem
    · exact (first.scopes x n b k mem).imp_right fun _ => by omega
    · exact (second.scopes x n b k mem).imp_right fun _ => by omega
  fits before m k after split := by
    rcases List.append_eq_append_iff.1 split with ⟨mid, rfl, rest⟩ | ⟨mid, parts, rest⟩
    · obtain ⟨inner, fits⟩ := second.fits mid m k after rest
      refine ⟨inner, fits.around, fits.nested, fun x mem => ?_, ?_⟩
      · exact Nat.le_trans first.size (fits.opened x mem)
      · refine (fits.leads.after fun x mem n kept defined => ?_).mono (first.reaches ready)
        have later := fits.opened x mem
        have longer := first.size
        have made := ready.made
        rcases first.scopes x n true kept defined with rfl | between <;> omega
    · cases mid with
      | nil =>
        rw [List.append_nil] at parts
        obtain ⟨inner, fits⟩ := second.fits [] m k after rest.symm
        subst parts
        refine ⟨inner, fits.around, fits.nested, fun x mem => ?_, ?_⟩
        · exact Nat.le_trans first.size (fits.opened x mem)
        · have none (x : Scope) (mem : x ∈ inner) (n : Bytes) (kept : Bool) :
              .define x n true kept ∉ steps := by
            intro defined
            have later := fits.opened x mem
            have longer := first.size
            have made := ready.made
            rcases first.scopes x n true kept defined with rfl | between <;> omega
          have reaches := (fits.leads.after none).mono (first.reaches ready)
          rwa [List.append_nil] at reaches
      | cons step mid =>
        obtain ⟨rfl, -⟩ := List.cons.inj rest
        exact first.fits before m k mid parts

/-- The look-up of a name. -/
theorem look (ready : Ready here.frame s) {name : Bytes} {owner : Nat}
    (found : s.frames.owner? here.frame name = some owner) (code : Code) (kept : Bool) :
    Tracked here outer [.look ⟨name, owner, code, here :: outer⟩ kept] s s := by
  have still : Tracked here outer [] s s := nil ready
  refine ⟨ready, still.size, still.around, fun i made n => ?_, fun x n b k mem => ?_, ?_⟩
  · exact ⟨.inl, fun h => h.resolve_right fun ⟨_, _, mem⟩ => by cases List.mem_singleton.1 mem⟩
  · cases List.mem_singleton.1 mem
  · intro before m k after split
    rcases List.append_eq_cons_iff.1 split.symm with ⟨rfl, same⟩ | ⟨rest, -, split⟩
    · cases same
      refine ⟨[], rfl, .nil, by simp, .inr ⟨found, .inr ?_⟩⟩
      rintro ⟨_, mem⟩
      cases mem
    · simp at split

/-- The definition of a name. -/
theorem define (ready : Ready here.frame s) (name : Bytes) (b : Binding) (kept : Bool) :
    Tracked here outer [.define here name true kept] s
      { s with frames := s.frames.set here.frame name b } where
  ready := ⟨fun i o around => ready.formed i o (by simpa using around), by simpa using ready.made⟩
  size := by simp
  around i _ := by simp
  owns i made n := by
    rw [Frames.owns_set_iff]
    refine or_congr_right ⟨?_, ?_⟩
    · rintro ⟨rfl, rfl, -⟩
      exact ⟨rfl, kept, List.mem_singleton_self _⟩
    · rintro ⟨rfl, k, mem⟩
      cases List.mem_singleton.1 mem
      exact ⟨rfl, rfl, made⟩
  scopes x n b k mem := by
    cases List.mem_singleton.1 mem
    exact .inl rfl
  fits before m k after split := by
    rcases List.append_eq_cons_iff.1 split.symm with ⟨-, split⟩ | ⟨rest, -, split⟩
    · cases (List.cons.inj split).1
    · simp at split

/-- The definition of a function. -/
theorem defineFunction (ready : Ready here.frame s) (name : Bytes) (kept : Bool) :
    Tracked here outer [.define here name false kept] s s := by
  have still : Tracked here outer [] s s := nil ready
  refine ⟨ready, still.size, still.around, fun i made n => ?_, fun x n b k mem => ?_, ?_⟩
  · exact ⟨.inl, fun h => h.resolve_right fun ⟨_, _, mem⟩ => by cases List.mem_singleton.1 mem⟩
  · cases List.mem_singleton.1 mem
    exact .inl rfl
  · intro before m k after split
    rcases List.append_eq_cons_iff.1 split.symm with ⟨-, split⟩ | ⟨rest, -, split⟩
    · cases (List.cons.inj split).1
    · simp at split

end Tracked

/-! ## Functions -/

/-- The parameters are bound in the frame of the function and nowhere else. -/
theorem bindParams_run (params : List Bytes) {inner : Nat} (s : State)
    (made : inner < s.frames.size) :
    ∃ t, (params.forM fun p => bindName inner p (.code (.ident p))) s = .ok () t
      ∧ t.frames.size = s.frames.size ∧ (∀ i, t.frames.outer? i = s.frames.outer? i)
      ∧ ∀ i n, t.frames.owns i n = true ↔ s.frames.owns i n = true ∨ i = inner ∧ n ∈ params := by
  induction params generalizing s with
  | nil => exact ⟨s, rfl, rfl, fun _ => rfl, by simp⟩
  | cons p rest ih =>
    let bound : State := { s with frames := s.frames.set inner p (.code (.ident p)) }
    obtain ⟨t, run, size, outer, owns⟩ := ih bound (by simpa [bound] using made)
    refine ⟨t, run, by simp [size, bound], fun i => by simp [outer, bound], fun i n => ?_⟩
    rw [owns, Frames.owns_set_iff, List.mem_cons]
    constructor
    · rintro ((before | ⟨rfl, rfl, _⟩) | ⟨rfl, mem⟩)
      · exact .inl before
      · exact .inr ⟨rfl, .inl rfl⟩
      · exact .inr ⟨rfl, .inr mem⟩
    · rintro (before | ⟨rfl, rfl | mem⟩)
      · exact .inl (.inl before)
      · exact .inl (.inr ⟨rfl, rfl, made⟩)
      · exact .inr ⟨rfl, mem⟩

/-- What opening a function does to the frames. -/
structure Opened (env : Nat) (params : List Bytes) (s t : State) : Prop where
  size : t.frames.size = s.frames.size + 1
  outer : ∀ i, t.frames.outer? i = if i = s.frames.size then some env else s.frames.outer? i
  other : ∀ i < s.frames.size, ∀ n, t.frames.owns i n = s.frames.owns i n
  own : ∀ n, t.frames.owns s.frames.size n = true ↔ n ∈ params

theorem openFunction_run (params : List Bytes) (env : Nat) (s : State) :
    ∃ t, openFunction params env s = .ok s.frames.size t ∧ Opened env params s t := by
  let pushed : State := { s with frames := (s.frames.function env).2 }
  have size : pushed.frames.size = s.frames.size + 1 := by simp [pushed, Frames.function]
  have made : s.frames.size < pushed.frames.size := by omega
  obtain ⟨t, run, size', outer, owns⟩ := bindParams_run params pushed made
  refine ⟨t, ?_, size'.trans size, fun i => ?_, fun i made n => ?_, fun n => ?_⟩
  · have opened := openFunction_bind_apply params env pure s
    rw [bind_pure] at opened
    rw [opened]
    simp only [bind, EStateM.bind]
    rw [run]
    rfl
  · rw [outer]
    exact Frames.outer?_push _ _ i
  · have before : i ≠ s.frames.size := Nat.ne_of_lt made
    rw [Bool.eq_iff_iff, owns, Frames.owns_function _ _ _ _ before]
    simp [before]
  · rw [owns, Frames.not_owns_function]
    simp

variable {env : Nat} {params : List Bytes} {body : Resolved} {s t u : State}

theorem Opened.ready (h : Opened env params s t) (ready : Ready env s) :
    Ready s.frames.size t where
  formed i o around := by
    rw [h.outer] at around
    split at around
    next here =>
      cases around
      exact here ▸ ready.made
    next => exact ready.formed i o around
  made := by
    rw [h.size]
    exact Nat.lt_succ_self _

/-- A look-up that leaves the frame of a function goes on in the frame around it. -/
theorem Opened.owner? (h : Opened env params s t) (ready : Ready env s) {name : Bytes} {f : Nat}
    (found : t.frames.owner? s.frames.size name = some f) :
    f = s.frames.size ∧ name ∈ params ∨ name ∉ params ∧ s.frames.owner? env name = some f := by
  rw [Frames.owner?] at found
  split at found
  next owned =>
    cases found
    exact .inl ⟨rfl, (h.own name).1 owned⟩
  next unowned =>
    rw [h.outer, if_pos rfl] at found
    simp only [if_pos ready.made] at found
    have same : t.frames.owner? env name = s.frames.owner? env name := by
      refine Frames.owner?_congr (fun i le => ?_) fun i le => ?_
      · have := ready.made
        rw [h.outer, if_neg (by omega)]
      · have := ready.made
        exact h.other i (by omega) name
    exact .inr ⟨fun mem => unowned ((h.own name).2 mem), same ▸ found⟩

theorem Tracked.function {here : Scope} {outer : List Scope} {steps : List NameStep}
    (opened : Opened here.frame params s t) (ready : Ready here.frame s)
    (h : Tracked (.function s.frames.size params body) (here :: outer) steps t u) :
    Tracked here outer steps s u := by
  let inside : Scope := .function s.frames.size params body
  have made := ready.made
  have size := opened.size
  have grown := h.size
  have elsewhere (n : Bytes) : ¬ Bound steps here n := by
    rintro ⟨kept, defined⟩
    rcases h.scopes here n true kept defined with same | between
    · have frame : here.frame = s.frames.size := congrArg Scope.frame same
      omega
    · omega
  refine ⟨⟨h.ready.formed, by omega⟩, by omega, fun i before => ?_, fun i before n => ?_,
    fun x n b k defined => ?_, fun before m k after split => ?_⟩
  · rw [h.around i (by omega), opened.outer, if_neg (by omega)]
  · have further : i ≠ inside.frame := Nat.ne_of_lt before
    rw [h.owns i (by omega), opened.other i before]
    exact or_congr_right (iff_of_false (fun h => further h.1) fun h => elsewhere n h.2)
  · rcases h.scopes x n b k defined with rfl | between
    · have frame : inside.frame = s.frames.size := rfl
      have last := h.ready.made
      exact .inr ⟨Nat.le_of_eq frame.symm, last⟩
    · exact .inr (by omega)
  · obtain ⟨inner, fits⟩ := h.fits before m k after split
    have above (x : Scope) (mem : x ∈ inner) : s.frames.size < x.frame := by
      have := fits.opened x mem
      omega
    refine ⟨inner ++ [inside], by simp [fits.around, inside], ?_, fun x mem => ?_, ?_⟩
    · refine List.pairwise_append.2 ⟨fits.nested, List.pairwise_singleton _ _, ?_⟩
      intro x mem y last
      rw [List.mem_singleton.1 last]
      exact above x mem
    · rcases List.mem_append.1 mem with mem | last
      · exact Nat.le_of_lt (above x mem)
      · rw [List.mem_singleton.1 last]
        exact Nat.le_refl _
    · refine fits.leads.append ?_
      rintro (⟨same, bound⟩ | ⟨found, unbound⟩)
      · exact .inl ⟨same.symm, .inr bound⟩
      · rcases opened.owner? ready found with ⟨same, param⟩ | ⟨free, found⟩
        · exact .inl ⟨same.symm, .inl param⟩
        · have le := Frames.owner?_le found
          have further : s.frames.size ≠ m.owner := by omega
          refine .inr ⟨further, free, unbound.resolve_left further.symm, .inr ⟨found, .inr ?_⟩⟩
          rintro ⟨kept, mem⟩
          exact elsewhere m.name ⟨kept, by simp [split, mem]⟩

/-! ## Forms -/

/-- Every result of a lowering has a property. -/
def Gives (P : Resolved → Prop) (m : Lowering Resolved) : Prop := ∀ s r t, m s = .ok r t → P r

namespace Gives

variable {P : Resolved → Prop} {α : Type} {args : List Expr}

theorem pure {r : Resolved} (h : P r) : Gives P (Pure.pure r) := by
  intro s r' t run
  cases run
  exact h

theorem refuse (fault : Fault) (place : Place) : Gives P (refuse fault place) := by
  intro s r t run
  cases run

theorem bind {m : Lowering α} {f : α → Lowering Resolved} (next : ∀ a, Gives P (f a)) :
    Gives P (m >>= f) := by
  intro s r t run
  obtain ⟨a, s', -, run⟩ := bind_eq_ok run
  exact next a s' r t run

theorem resolveWord (place : Place) (name : Bytes) (env : Nat) :
    Gives (·.isFunction = false) (resolveWord place name env) := by
  unfold Compiler.resolveWord
  refine .bind fun s => ?_
  split
  · split <;> exact .pure rfl
  · split
    · exact .pure rfl
    · exact .refuse _ _

theorem resolveIf (place : Place) (args : List Expr) (env : Nat) :
    Gives (·.isFunction = false) (resolveIf place args env) := by
  unfold Compiler.resolveIf
  split
  · exact .bind fun _ => .bind fun _ => .bind fun _ => .pure rfl
  · exact .refuse _ _

theorem resolveWhile (place : Place) (args : List Expr) (env : Nat) :
    Gives (·.isFunction = false) (resolveWhile place args env) := by
  unfold Compiler.resolveWhile
  split
  · exact .bind fun _ => .bind fun _ => .pure rfl
  · exact .refuse _ _

theorem resolveDefine (place : Place) (args : List Expr) (env : Nat) :
    Gives (·.isFunction = false) (resolveDefine place args env) := by
  unfold Compiler.resolveDefine
  split
  · split
    · exact .refuse _ _
    · split
      · exact .bind fun _ => .bind fun _ => .pure rfl
      · refine .bind fun s => ?_
        split
        · exact .bind fun _ => .pure rfl
        · exact .bind fun _ => .bind fun _ => .pure rfl
  · exact .refuse _ _

theorem resolveSet (place : Place) (args : List Expr) (env : Nat) :
    Gives (·.isFunction = false) (resolveSet place args env) := by
  unfold Compiler.resolveSet
  split
  · exact .refuse _ _
  · exact .refuse _ _
  · split
    · exact .refuse _ _
    · refine .bind fun _ => ?_
      split
      · exact .refuse _ _
      · refine .bind fun s => ?_
        split
        · exact .refuse _ _
        · exact .bind fun _ => .pure rfl

theorem resolveFun (place : Place) (params : List Bytes) (args : List Expr) (env : Nat) :
    Gives (·.isFunction = true) (resolveFun place params args env) := by
  induction args generalizing params with
  | nil =>
    rw [Compiler.resolveFun]
    exact .refuse _ _
  | cons arg rest ih =>
    cases rest with
    | nil =>
      rw [Compiler.resolveFun]
      exact .bind fun _ => .bind fun _ => .pure rfl
    | cons next later =>
      rw [Compiler.resolveFun]
      · split
        · exact .refuse _ _
        · exact ih _
      · simp

end Gives

/-- Just the form `fun` resolves to a function. -/
theorem Gives.resolve (e : Expr) (env : Nat) :
    Gives (·.isFunction = e.isCallOf SpecialForm.fun.name) (resolve e env) := by
  cases e with
  | number | string =>
    rw [Compiler.resolve]
    exact .pure rfl
  | word place name =>
    rw [Compiler.resolve]
    exact .resolveWord place name env
  | closure =>
    rw [Compiler.resolve]
    exact .bind fun _ => .bind fun _ => .pure rfl
  | apply place name args =>
    rw [Compiler.resolve]
    cases form : SpecialForm.ofName? name with
    | none =>
      have other : Expr.isCallOf SpecialForm.fun.name (.apply place name args) = false := by
        simp only [Expr.isCallOf, Expr.operator?, beq_eq_false_iff_ne, ne_eq, Option.some.injEq]
        rintro rfl
        cases form
      rw [other]
      refine .bind fun s => ?_
      split
      · exact .bind fun _ => .pure rfl
      · refine .bind fun w => ?_
        cases w with
        | primitive => exact .bind fun _ => .pure rfl
        | _ => exact .refuse _ _
    | some kind =>
      obtain rfl : kind.name = name := by simpa using List.find?_some form
      cases kind with
      | «if» => exact .resolveIf place args env
      | «while» => exact .resolveWhile place args env
      | «do» => exact .bind fun _ => .pure rfl
      | define => exact .resolveDefine place args env
      | set => exact .resolveSet place args env
      | «fun» => exact .resolveFun place [] args env

/-- The succeeding lowering of an expression is tracked. -/
def Follows (e : Expr) : Prop := ∀ here outer kept s r t, Ready here.frame s →
  resolve e here.frame s = .ok r t → Tracked here outer (r.steps kept here outer) s t

section Forms

variable {args : List Expr} {r : Resolved} {rs : List Resolved} {here : Scope}
  {outer : List Scope} {kept : Bool}

theorem resolveWord_state {place : Place} {name : Bytes}
    (run : Compiler.resolveWord place name env s = .ok r t) : t = s := by
  unfold Compiler.resolveWord at run
  obtain ⟨_, _, got, run⟩ := bind_eq_ok run
  cases got
  cases found : s.frames.owner? env name with
  | none =>
    simp only [found] at run
    split at run <;> cases run
    rfl
  | some owner =>
    simp only [found] at run
    rcases own : s.frames.own? owner name with _ | _ | p <;> simp only [own] at run <;> cases run
      <;> rfl

theorem Tracked.resolveWord {place : Place} {name : Bytes} (ready : Ready here.frame s)
    (run : resolveWord place name here.frame s = .ok r t) :
    Tracked here outer (r.steps kept here outer) s t := by
  obtain rfl := resolveWord_state run
  unfold Compiler.resolveWord at run
  obtain ⟨_, _, got, run⟩ := bind_eq_ok run
  cases got
  cases found : t.frames.owner? here.frame name with
  | none =>
    simp only [found] at run
    split at run
    next =>
      cases run
      exact .nil ready
    next => cases run
  | some owner =>
    simp only [found] at run
    rcases own : t.frames.own? owner name with _ | _ | p
    · simp only [own] at run
      cases run
      exact .look ready found _ kept
    · simp only [own] at run
      cases run
      exact .look ready found _ kept
    · simp only [own] at run
      cases run
      exact .nil ready

theorem Tracked.resolveAll (follow : ∀ arg ∈ args, Follows arg) (ready : Ready here.frame s)
    (run : resolveAll args here.frame s = .ok rs t) (count : Nat) :
    Tracked here outer (Resolved.stepsAll kept count here outer rs) s t := by
  induction args generalizing s rs count with
  | nil =>
    rw [Compiler.resolveAll] at run
    cases run
    exact .nil ready
  | cons e rest ih =>
    obtain ⟨first, others⟩ := List.forall_mem_cons.1 follow
    rw [Compiler.resolveAll] at run
    obtain ⟨r, s₁, run₁, run⟩ := bind_eq_ok run
    obtain ⟨rs, s₂, run₂, run⟩ := bind_eq_ok run
    cases run
    have head := first here outer (kept && 0 < count) _ _ _ ready run₁
    exact head.append (ih others head.ready run₂ (count - 1)) ready

theorem Tracked.resolveIf {place : Place} (follow : ∀ arg ∈ args, Follows arg)
    (ready : Ready here.frame s) (run : resolveIf place args here.frame s = .ok r t) :
    Tracked here outer (r.steps kept here outer) s t := by
  unfold Compiler.resolveIf at run
  split at run
  next cond yes no =>
    have each (arg : Expr) (mem : arg ∈ [cond, yes, no]) := follow arg mem here outer kept
    obtain ⟨yes', s₁, run₁, run⟩ := bind_eq_ok run
    obtain ⟨no', s₂, run₂, run⟩ := bind_eq_ok run
    obtain ⟨cond', s₃, run₃, run⟩ := bind_eq_ok run
    cases run
    have first := each yes (by simp) _ _ _ ready run₁
    have second := each no (by simp) _ _ _ first.ready run₂
    have third := each cond (by simp) _ _ _ second.ready run₃
    exact first.append (second.append third first.ready) ready
  next => cases run

theorem Tracked.resolveWhile {place : Place} (follow : ∀ arg ∈ args, Follows arg)
    (ready : Ready here.frame s) (run : resolveWhile place args here.frame s = .ok r t) :
    Tracked here outer (r.steps kept here outer) s t := by
  unfold Compiler.resolveWhile at run
  split at run
  next cond body =>
    have each (arg : Expr) (mem : arg ∈ [cond, body]) := follow arg mem here outer kept
    obtain ⟨cond', s₁, run₁, run⟩ := bind_eq_ok run
    obtain ⟨body', s₂, run₂, run⟩ := bind_eq_ok run
    cases run
    have first := each cond (by simp) _ _ _ ready run₁
    exact first.append (each body (by simp) _ _ _ first.ready run₂) ready
  next => cases run

/-- What closes a `do` of a function takes no steps but those of the last argument. -/
theorem stepsAll_closing (u : State) (last : Expr) (r : Resolved) :
    Resolved.stepsAll kept (u.closingResolved last r).length here outer
        (u.closingResolved last r) = r.steps kept here outer := by
  rw [State.closingResolved]
  split
  next => simp [Resolved.stepsAll, Resolved.steps]
  next => split <;> simp [Resolved.stepsAll, Resolved.steps]

theorem Tracked.resolveDo (follow : ∀ arg ∈ args, Follows arg) (ready : Ready here.frame s)
    (run : resolveDo args here.frame s = .ok rs t) :
    Tracked here outer (Resolved.stepsAll kept rs.length here outer rs) s t := by
  induction args generalizing s rs with
  | nil =>
    rw [Compiler.resolveDo] at run
    cases run
    exact .nil ready
  | cons arg rest ih =>
    obtain ⟨first, others⟩ := List.forall_mem_cons.1 follow
    cases rest with
    | nil =>
      rw [Compiler.resolveDo] at run
      obtain ⟨r, s₁, run₁, run⟩ := bind_eq_ok run
      obtain ⟨_, _, got, run⟩ := bind_eq_ok run
      cases got
      cases run
      have last := first here outer kept _ _ _ ready run₁
      split
      next =>
        rwa [stepsAll_closing]
      next => simpa [Resolved.stepsAll] using last
    | cons next later =>
      rw [Compiler.resolveDo] at run
      · obtain ⟨r, s₁, run₁, run⟩ := bind_eq_ok run
        obtain ⟨rs, s₂, run₂, run⟩ := bind_eq_ok run
        cases run
        have head := first here outer kept _ _ _ ready run₁
        have both := head.append (ih others head.ready run₂) ready
        simpa [Resolved.stepsAll] using both
      · simp

theorem Tracked.resolveDefine {place : Place} (follow : ∀ arg ∈ args, Follows arg)
    (ready : Ready here.frame s) (run : resolveDefine place args here.frame s = .ok r t) :
    Tracked here outer (r.steps kept here outer) s t := by
  unfold Compiler.resolveDefine at run
  split at run
  next target value =>
    have follow := follow value (by simp) here outer kept
    cases word : target.word? with
    | none =>
      rw [word] at run
      cases run
    | some name =>
      simp only [word] at run
      split at run
      next isFunction =>
        obtain ⟨_, s₁, registered, run⟩ := bind_eq_ok run
        cases registered
        obtain ⟨v, s₂, run₁, run⟩ := bind_eq_ok run
        cases run
        have still : Tracked here outer [] s { s with functions := s.functions.add name } :=
          .still ⟨ready.formed, ready.made⟩ rfl (fun _ => rfl) fun _ _ => rfl
        have valued := still.append (follow _ _ _ still.ready run₁) ready
        rw [Resolved.steps, Gives.resolve _ _ _ _ _ run₁, isFunction]
        exact valued.append (.defineFunction valued.ready name kept) ready
      next notFunction =>
        obtain ⟨_, _, got, run⟩ := bind_eq_ok run
        cases got
        split at run
        next owned =>
          obtain ⟨v, s₁, run₁, run⟩ := bind_eq_ok run
          cases run
          have valued := follow _ _ _ ready run₁
          have still_owned := (valued.owns here.frame ready.made name).2 (.inl owned)
          exact valued.append (.look valued.ready (Frames.owner?_of_owns still_owned) _ kept) ready
        next =>
          obtain ⟨v, s₁, run₁, run⟩ := bind_eq_ok run
          obtain ⟨_, s₂, bound, run⟩ := bind_eq_ok run
          cases bound
          cases run
          have valued := follow _ _ _ ready run₁
          have other := Bool.eq_false_iff.2 notFunction
          rw [Resolved.steps, Gives.resolve _ _ _ _ _ run₁, other]
          exact valued.append (.define valued.ready name v.binding kept) ready
  next => cases run

theorem targetOf?_owner (formed : Formed s) {name : Bytes} {target : Nat}
    (found : s.targetOf? env name = some target) : s.frames.owner? env name = some target := by
  rw [Frames.owner?]
  unfold State.targetOf? at found
  split
  next owned =>
    rw [List.find?_cons_of_pos (by exact owned)] at found
    exact found
  next unowned =>
    rw [List.find?_cons_of_neg (by exact unowned)] at found
    cases around : s.frames.outer? env with
    | none => simp [around] at found
    | some o =>
      simp only [around, Option.toList_some, List.find?_singleton] at found
      split at found
      next owned =>
        cases found
        simp only [if_pos (formed env _ around), Frames.owner?_of_owns owned]
      next => cases found

/-- Rebinding a name changes the owner of none. -/
theorem Tracked.rebound {name : Bytes} {target : Nat} {value : Binding} {b : Bool}
    (ready : Ready here.frame t) (found : t.targetOf? here.frame name = some target)
    (run : rebind here.frame name value t = .ok b u) : Tracked here outer [] t u := by
  have owned := Frames.owns_of_owner? (targetOf?_owner ready.formed found)
  rw [rebind_apply, found] at run
  cases run
  refine .still ⟨fun i o around => ?_, ?_⟩ (by simp) (fun i => by simp) fun i n => ?_
  · exact ready.formed i o (by simpa using around)
  · simpa using ready.made
  · rw [Bool.eq_iff_iff, Frames.owns_set_iff]
    refine ⟨?_, .inl⟩
    rintro (before | ⟨rfl, rfl, _⟩)
    · exact before
    · exact owned

theorem Tracked.resolveSet {place : Place} (follow : ∀ arg ∈ args, Follows arg)
    (ready : Ready here.frame s) (run : resolveSet place args here.frame s = .ok r t) :
    Tracked here outer (r.steps kept here outer) s t := by
  unfold Compiler.resolveSet at run
  split at run
  next => cases run
  next => cases run
  next target value rest =>
    split at run
    next => cases run
    next =>
      obtain ⟨v, s₁, run₁, run⟩ := bind_eq_ok run
      have valued := follow value (by simp) here outer kept _ _ _ ready run₁
      cases word : target.word? with
      | none =>
        rw [word] at run
        cases run
      | some name =>
        simp only [word] at run
        obtain ⟨_, _, got, run⟩ := bind_eq_ok run
        cases got
        cases found : s₁.targetOf? here.frame name with
        | none =>
          rw [found] at run
          cases run
        | some frame =>
          simp only [found] at run
          obtain ⟨_, s₂, rebound, run⟩ := bind_eq_ok run
          cases run
          have owner := targetOf?_owner valued.ready.formed found
          have looked := valued.append (.look valued.ready owner (.assign name v.code) kept) ready
          have whole := looked.append (.rebound valued.ready found rebound) ready
          rwa [List.append_nil] at whole

theorem Tracked.resolveFun {place : Place} {params : List Bytes}
    (follow : ∀ arg ∈ args, Follows arg) (ready : Ready here.frame s)
    (run : resolveFun place params args here.frame s = .ok r t) :
    Tracked here outer (r.steps kept here outer) s t := by
  induction args generalizing params with
  | nil =>
    rw [Compiler.resolveFun] at run
    cases run
  | cons arg rest ih =>
    obtain ⟨first, others⟩ := List.forall_mem_cons.1 follow
    cases rest with
    | nil =>
      rw [Compiler.resolveFun] at run
      obtain ⟨inner, s₁, run₁, run⟩ := bind_eq_ok run
      obtain ⟨body, s₂, run₂, run⟩ := bind_eq_ok run
      cases run
      obtain ⟨t, opens, opened⟩ := openFunction_run params here.frame s
      rw [opens] at run₁
      cases run₁
      have inside := first (.function s.frames.size params body) (here :: outer) kept
      exact .function opened ready (inside _ _ _ (opened.ready ready) run₂)
    | cons next later =>
      rw [Compiler.resolveFun] at run
      · cases word : arg.word? with
        | none =>
          rw [word] at run
          cases run
        | some name =>
          rw [word] at run
          exact ih others run
      · simp

end Forms

/-- The succeeding lowering of every expression is tracked. -/
theorem Follows.of (e : Expr) : Follows e := by
  intro here outer kept s r t ready run
  have smaller (args : List Expr) (less : sizeOf args < sizeOf e) : ∀ arg ∈ args, Follows arg :=
    fun arg mem =>
      have := List.sizeOf_lt_of_mem mem
      Follows.of arg
  cases e with
  | number | string =>
    rw [resolve] at run
    cases run
    exact .nil ready
  | word place name =>
    rw [resolve] at run
    exact .resolveWord ready run
  | apply place name args =>
    have follow := smaller args (by rw [Expr.apply.sizeOf_spec]; omega)
    rw [resolve] at run
    rcases form : SpecialForm.ofName? name with _ | _ | _ | _ | _ | _ | _ <;> rw [form] at run
    · obtain ⟨_, _, got, run⟩ := bind_eq_ok run
      cases got
      split at run
      next =>
        obtain ⟨rs, s₁, run₁, run⟩ := bind_eq_ok run
        cases run
        exact .resolveAll follow ready run₁ _
      next =>
        obtain ⟨w, s₁, run₁, run⟩ := bind_eq_ok run
        obtain rfl := resolveWord_state run₁
        cases w with
        | primitive p =>
          obtain ⟨rs, s₂, run₂, run⟩ := bind_eq_ok run
          cases run
          exact .resolveAll follow ready run₂ _
        | _ => cases run
    · exact .resolveIf follow ready run
    · exact .resolveWhile follow ready run
    · obtain ⟨rs, s₁, run₁, run⟩ := bind_eq_ok run
      cases run
      exact .resolveDo follow ready run₁
    · exact .resolveDefine follow ready run
    · exact .resolveSet follow ready run
    · exact .resolveFun follow ready run
  | closure operator args =>
    have follow := smaller args (by rw [Expr.closure.sizeOf_spec]; omega)
    rw [resolve] at run
    obtain ⟨callee, s₁, run₁, run⟩ := bind_eq_ok run
    obtain ⟨rs, s₂, run₂, run⟩ := bind_eq_ok run
    cases run
    have first := Follows.of operator here outer kept _ _ _ ready run₁
    exact first.append (.resolveAll follow first.ready run₂ _) ready
termination_by sizeOf e

end Compiler

end EggLang
