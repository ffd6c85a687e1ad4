import EggLang.Proofs.Compiler.Locality
import EggLang.Proofs.Expr.Programs

/-!
# What lowering can count on

The lowering of a program finds every variable and every function that was defined, and every
operation, in the frame that it works in. Lowering an expression only adds frames, and binding a
name that no operation has hides none.
-/

namespace EggLang.Compiler

open Code (IsVariable)

/-! ## States -/

/-- What a lowering in a frame can count on: the variables and functions that are defined, and that
no operation is hidden by one. -/
structure Knows (functions vars : List Bytes) (env : Nat) (s : State) : Prop where
  inside : env < s.frames.size
  bound : ∀ v ∈ vars, ∃ c, s.frames.get? env v = some (.code c)
  truth : ∀ b : Bool, ∃ c, s.frames.get? env (utf8 (toString b)) = some (.code c)
  registered : ∀ f ∈ functions, s.functions.has f = true
  primitive : ∀ p : Primitive, s.frames.get? env p.name = some (.primitive p)
  unregistered : ∀ p : Primitive, s.functions.has p.name = false
  names : ∀ v ∈ vars, Expr.IsOwn v
  functionNames : ∀ f ∈ functions, Expr.IsOwn f

/-- Nothing but frames was added to a state. -/
structure Extends (s t : State) : Prop where
  functions : t.functions = s.functions
  size : s.frames.size ≤ t.frames.size
  frame : ∀ i < s.frames.size, t.frames.frame? i = s.frames.frame? i

variable {functions vars : List Bytes} {env : Nat} {s t u : State}

theorem Extends.refl (s : State) : Extends s s := ⟨rfl, Nat.le_refl _, fun _ _ => rfl⟩

theorem Extends.trans (h : Extends s t) (g : Extends t u) : Extends s u where
  functions := g.functions.trans h.functions
  size := Nat.le_trans h.size g.size
  frame i below := (g.frame i (Nat.lt_of_lt_of_le below h.size)).trans (h.frame i below)

theorem Extends.get? (h : Extends s t) (env : Nat) (inside : env < s.frames.size) (name : Bytes) :
    t.frames.get? env name = s.frames.get? env name := by
  have same (i : Nat) (below : i ≤ env) : t.frames.frame? i = s.frames.frame? i :=
    h.frame i (Nat.lt_of_le_of_lt below inside)
  refine Frames.get?_congr (fun i below => ?_) fun i below => ?_
  · rw [Frames.own?, Frames.own?, same i below]
  · rw [Frames.outer?, Frames.outer?, same i below]

theorem Extends.owns (h : Extends s t) (inside : env < s.frames.size) (name : Bytes) :
    t.frames.owns env name = s.frames.owns env name := by
  rw [Frames.owns, Frames.owns, Frames.own?, Frames.own?, h.frame env inside]

theorem owns_set {frames : Frames Binding} (inside : env < frames.size) (name : Bytes) (b : Binding)
    (n : Bytes) :
    (frames.set env name b).owns env n = true ↔ frames.owns env n = true ∨ name = n := by
  by_cases same : n = name
  · rw [Frames.owns, Frames.own?_set, if_pos ⟨rfl, same, inside⟩]
    simp [same]
  · rw [Frames.owns, Frames.own?_set_of_ne _ _ _ _ same, Frames.owns]
    simp [Ne.symm same]

theorem Knows.extends (h : Knows functions vars env s) (g : Extends s t) :
    Knows functions vars env t where
  inside := Nat.lt_of_lt_of_le h.inside g.size
  bound v mem := by
    rw [g.get? env h.inside]
    exact h.bound v mem
  truth b := by
    rw [g.get? env h.inside]
    exact h.truth b
  registered f mem := by
    rw [g.functions]
    exact h.registered f mem
  primitive p := by
    rw [g.get? env h.inside]
    exact h.primitive p
  unregistered p := by
    rw [g.functions]
    exact h.unregistered p
  names := h.names
  functionNames := h.functionNames

/-! ## Names -/

theorem utf8_injective {m n : String} (same : utf8 m = utf8 n) : m = n := by
  have chars : some m.toList = some n.toList := by
    rw [← Code.chars_ofChars, ← Code.chars_ofChars]
    exact congrArg Text.chars? same
  exact String.toList_inj.1 (Option.some.inj chars)

theorem ne_truth {v : Bytes} (h : IsVariable v) (b : Bool) : utf8 (toString b) ≠ v := by
  obtain ⟨n, rfl, free⟩ := h
  intro same
  have reserved : toString b ∈ Script.reserved := by cases b <;> decide
  exact free.reserved (utf8_injective same ▸ reserved)

theorem ne_primitive {v : Bytes} (h : Primitive.ofName? v = none) (p : Primitive) : p.name ≠ v := by
  rintro rfl
  revert h
  cases p <;> decide

/-! ## Frames -/

/-- Binding a name of the program hides nothing. -/
theorem Knows.bind (h : Knows functions vars env s) {v : Bytes} (own : Expr.IsOwn v) (c : Code) :
    Knows functions (v :: vars) env { s with frames := s.frames.set env v (.code c) } where
  inside := by simpa using h.inside
  bound w mem := by
    by_cases same : w = v
    · subst same
      refine ⟨c, ?_⟩
      rw [Frames.get?, Frames.own?_set, if_pos ⟨rfl, rfl, h.inside⟩]
    · rw [Frames.get?_set_of_ne _ _ _ same]
      exact h.bound w ((List.mem_cons.1 mem).resolve_left same)
  truth b := by
    rw [Frames.get?_set_of_ne _ _ _ (ne_truth own.variable b)]
    exact h.truth b
  registered := h.registered
  primitive p := by
    rw [Frames.get?_set_of_ne _ _ _ (ne_primitive own.primitive p)]
    exact h.primitive p
  unregistered := h.unregistered
  names w mem := by
    rcases List.mem_cons.1 mem with rfl | mem
    · exact own
    · exact h.names w mem
  functionNames := h.functionNames

/-- The state inside a function with one parameter. -/
def State.entered (s : State) (env : Nat) (q : Bytes) : State :=
  { s with frames := (s.frames.function env).2.set s.frames.size q (.code (.ident q)) }

theorem extends_entered (s : State) (env : Nat) (q : Bytes) : Extends s (s.entered env q) where
  functions := rfl
  size := by simp [State.entered, Frames.function]
  frame i below := by
    have other : i ≠ s.frames.size := Nat.ne_of_lt below
    simp [State.entered, Frames.function, Frames.frame?_set, Frames.frame?_push, other]

theorem get?_entered (s : State) {env : Nat} (inside : env < s.frames.size) (q n : Bytes) :
    (s.entered env q).frames.get? s.frames.size n
      = if n = q then some (.code (.ident q)) else s.frames.get? env n := by
  by_cases same : n = q
  · subst same
    rw [if_pos rfl, Frames.get?, State.entered, Frames.own?_set,
      if_pos ⟨rfl, rfl, by simp [Frames.function]⟩]
  · have own : (s.frames.function env).2.own? s.frames.size n = none := by
      rw [Frames.function, Frames.own?_push, if_pos rfl]
      rfl
    have outer : (s.frames.function env).2.outer? s.frames.size = some env := by
      rw [Frames.function, Frames.outer?_push, if_pos rfl]
    have below : (s.frames.function env).2.get? env n = s.frames.get? env n :=
      Frames.get?_push _ _ inside n
    rw [if_neg same, State.entered, Frames.get?_set_of_ne _ _ _ same, Frames.get?, own, outer]
    simp only [if_pos inside, below]

theorem Knows.entered (h : Knows functions vars env s) {q : Bytes} (own : Expr.IsOwn q) :
    Knows functions (q :: vars) s.frames.size (s.entered env q) where
  inside := by simp [State.entered, Frames.function]
  bound v mem := by
    rw [get?_entered s h.inside]
    by_cases same : v = q
    · exact ⟨.ident q, if_pos same⟩
    · rw [if_neg same]
      exact h.bound v ((List.mem_cons.1 mem).resolve_left same)
  truth b := by
    rw [get?_entered s h.inside, if_neg (ne_truth own.variable b)]
    exact h.truth b
  registered := h.registered
  primitive p := by
    rw [get?_entered s h.inside, if_neg (ne_primitive own.primitive p)]
    exact h.primitive p
  unregistered := h.unregistered
  names v mem := by
    rcases List.mem_cons.1 mem with rfl | mem
    · exact own
    · exact h.names v mem
  functionNames := h.functionNames

/-! ## The frame of the statements -/

/-- What the lowering of a statement can count on besides: its frame is no function's, and it owns
the variables and binds no name to an operation. -/
structure Stands (functions vars : List Bytes) (env : Nat) (s : State) : Prop
    extends Knows functions vars env s where
  plain : s.frames.isFunction env = false
  owned : ∀ v ∈ vars, s.frames.owns env v = true
  codes : ∀ v b, s.frames.own? env v = some b → ∃ c, b = .code c

theorem Stands.extends (h : Stands functions vars env s) (g : Extends s t) :
    Stands functions vars env t where
  toKnows := h.toKnows.extends g
  plain := by
    rw [Frames.isFunction, g.frame env h.inside]
    exact h.plain
  owned v mem := by
    rw [Frames.owns, Frames.own?, g.frame env h.inside]
    exact h.owned v mem
  codes v b := by
    rw [Frames.own?, g.frame env h.inside]
    exact h.codes v b

theorem Stands.bind (h : Stands functions vars env s) {v : Bytes} (own : Expr.IsOwn v) (c : Code) :
    Stands functions (v :: vars) env { s with frames := s.frames.set env v (.code c) } where
  toKnows := h.toKnows.bind own c
  plain := by simpa using h.plain
  owned w mem := by
    by_cases same : w = v
    · rw [Frames.owns, Frames.own?_set, if_pos ⟨rfl, same, h.inside⟩]
      rfl
    · rw [Frames.owns, Frames.own?_set_of_ne _ _ _ _ same]
      exact h.owned w ((List.mem_cons.1 mem).resolve_left same)
  codes w b found := by
    by_cases same : w = v
    · rw [Frames.own?_set, if_pos ⟨rfl, same, h.inside⟩] at found
      exact ⟨c, (Option.some.inj found).symm⟩
    · rw [Frames.own?_set_of_ne _ _ _ _ same] at found
      exact h.codes w b found

/-- A variable that is bound already is defined again. -/
theorem Stands.rename (h : Stands functions vars env s) {v : Bytes} (own : Expr.IsOwn v)
    (bound : s.frames.owns env v = true) : Stands functions (v :: vars) env s where
  inside := h.inside
  bound w mem := by
    rcases List.mem_cons.1 mem with rfl | mem
    · obtain ⟨b, found⟩ := Option.isSome_iff_exists.1 bound
      obtain ⟨c, rfl⟩ := h.codes _ b found
      exact ⟨c, by rw [Frames.get?, found]⟩
    · exact h.bound w mem
  truth := h.truth
  registered := h.registered
  primitive := h.primitive
  unregistered := h.unregistered
  names w mem := by
    rcases List.mem_cons.1 mem with rfl | mem
    · exact own
    · exact h.names w mem
  functionNames := h.functionNames
  plain := h.plain
  owned w mem := by
    rcases List.mem_cons.1 mem with rfl | mem
    · exact bound
    · exact h.owned w mem
  codes := h.codes

/-- Less can be counted on. -/
theorem Knows.mono {fewer few : List Bytes} (h : Knows functions vars env s)
    (functions_within : fewer ⊆ functions) (vars_within : few ⊆ vars) : Knows fewer few env s where
  inside := h.inside
  bound v mem := h.bound v (vars_within mem)
  truth := h.truth
  registered f mem := h.registered f (functions_within mem)
  primitive := h.primitive
  unregistered := h.unregistered
  names v mem := h.names v (vars_within mem)
  functionNames f mem := h.functionNames f (functions_within mem)

theorem Stands.mono {fewer few : List Bytes} (h : Stands functions vars env s)
    (functions_within : fewer ⊆ functions) (vars_within : few ⊆ vars) :
    Stands fewer few env s where
  toKnows := h.toKnows.mono functions_within vars_within
  plain := h.plain
  owned v mem := h.owned v (vars_within mem)
  codes := h.codes

theorem Stands.register (h : Stands functions vars env s) {f : Bytes} (own : Expr.IsOwn f) :
    Stands (f :: functions) vars env { s with functions := s.functions.add f } where
  inside := h.inside
  bound := h.bound
  truth := h.truth
  registered g mem := by
    rcases List.mem_cons.1 mem with rfl | mem
    · simp
    · simp [h.registered g mem]
  primitive := h.primitive
  unregistered p := by simp [h.unregistered p, ne_primitive own.primitive p]
  names := h.names
  functionNames g mem := by
    rcases List.mem_cons.1 mem with rfl | mem
    · exact own
    · exact h.functionNames g mem
  plain := h.plain
  owned := h.owned
  codes := h.codes

end EggLang.Compiler
