import EggLang.Proofs.Compiler.Resolution

/-!
# Names and definitions in generated code

A name that a frame owns is only named in the code, and there it belongs to the innermost scope
around it that declares it: a function literal or the program. What a lowering looks up and what it
defines is read off the tree of resolved expressions as a list of steps, in the order in which the
lowering came to them, each with the scope it belongs to. What the operands have that the code of a
primitive leaves out is among the steps too, and marked as not kept.
-/

namespace EggLang

/-- A scope of generated code: a function literal, or the program around all of them. -/
structure Scope where
  frame : Nat
  params : List Bytes
  body : Resolved
  isFunction : Bool

namespace Scope

def program (r : Resolved) : Scope where
  frame := 1
  params := []
  body := r
  isFunction := false

def function (frame : Nat) (params : List Bytes) (body : Resolved) : Scope where
  frame := frame
  params := params
  body := body
  isFunction := true

/-- The function literal of the scope. -/
def literal (s : Scope) : Code.Literal := ⟨s.params, s.body.code.returning⟩

/-- Whether a name belongs to the scope: it is a parameter or declared somewhere in the body, or
it is the name that every function has besides. -/
def declares (s : Scope) (name : Bytes) : Bool :=
  s.params.contains name || s.body.code.hoisted.contains name
    || (s.isFunction && name == utf8 "arguments")

theorem declares_iff {s : Scope} {name : Bytes} :
    s.declares name = true ↔ name ∈ s.params ∨ name ∈ s.body.code.hoisted
      ∨ s.isFunction = true ∧ name = utf8 "arguments" := by
  simp [declares, or_assoc]

end Scope

/-- A name in generated code that a frame owns, and the scopes around it, the innermost first. -/
structure Mention where
  name : Bytes
  owner : Nat
  /-- The name itself, or the assignment to it. -/
  code : Code
  around : List Scope

namespace Mention

/-- The frame of the scope that the name belongs to, zero if there is none in the program. -/
def referent (m : Mention) : Nat :=
  match m.around.find? fun s => s.declares m.name with
  | some s => s.frame
  | none => 0

/-- The scopes before that of the owner. -/
def between (m : Mention) : List Scope := m.around.takeWhile fun s => s.frame != m.owner

/-- The function literals around the name. -/
def literals (m : Mention) : List Code.Literal :=
  (m.around.filter fun s => s.isFunction).map Scope.literal

end Mention

/-- Something that a lowering does with a name; what is kept is in the code. -/
inductive NameStep where
  /-- The name is looked up. -/
  | look (m : Mention) (kept : Bool)
  /-- The name is defined in a scope. The definition of a function does not bind it. -/
  | define (scope : Scope) (name : Bytes) (binds kept : Bool)

def NameStep.isKept : NameStep → Bool
  | look _ kept | define _ _ _ kept => kept

/-- A name was bound in the frame of a scope in some steps. -/
def NameStep.Bound (steps : List NameStep) (s : Scope) (name : Bytes) : Prop :=
  ∃ kept, .define s name true kept ∈ steps

namespace Resolved

mutual

/-- The steps of the lowering of an expression in a scope that has others around it. -/
def steps (kept : Bool) (here : Scope) (outer : List Scope) : Resolved → List NameStep
  | text _ | primitive _ => []
  | word name owner => [.look ⟨name, owner, .ident name, here :: outer⟩ kept]
  | call _ args | .do args => stepsAll kept args.length here outer args
  | operation p args => stepsAll kept (p.kept args.length) here outer args
  | closure callee args =>
    callee.steps kept here outer ++ stepsAll kept args.length here outer args
  | .if cond yes no =>
    yes.steps kept here outer ++ (no.steps kept here outer ++ cond.steps kept here outer)
  | .while cond body => cond.steps kept here outer ++ body.steps kept here outer
  | declare name value =>
    value.steps kept here outer ++ [.define here name (!value.isFunction) kept]
  | assign name owner value =>
    value.steps kept here outer
      ++ [.look ⟨name, owner, .assign name value.code, here :: outer⟩ kept]
  | function frame params body =>
    body.steps kept (.function frame params body) (here :: outer)
  | returned value => value.steps kept here outer

/-- The steps of a list of operands, of which so many are in the code. -/
def stepsAll (kept : Bool) (count : Nat) (here : Scope) (outer : List Scope) :
    List Resolved → List NameStep
  | [] => []
  | r :: rest =>
    r.steps (kept && 0 < count) here outer ++ stepsAll kept (count - 1) here outer rest

end

/-- The steps of a program. -/
def trace (r : Resolved) : List NameStep := r.steps true (.program r) []

/-- Expressions that are in the code of a whole, or are not. -/
def marked (kept : Bool) (rs : List Resolved) : List (Resolved × Bool) := rs.map (·, kept)

/-- What an expression is put together from, and whether it is in the code of the whole. -/
def pieces : Resolved → List (Resolved × Bool)
  | text _ | word .. | primitive _ | function .. => []
  | call _ args | .do args => marked true args
  | operation p args =>
    marked true (args.take (p.kept args.length)) ++ marked false (args.drop (p.kept args.length))
  | closure callee args => marked true (callee :: args)
  | .if cond yes no => [(yes, true), (no, true), (cond, true)]
  | .while cond body => [(cond, true), (body, true)]
  | declare _ value | assign _ _ value | returned value => [(value, true)]

/-- The steps of an expression besides those of its pieces. -/
def own (kept : Bool) (here : Scope) (outer : List Scope) : Resolved → List NameStep
  | word name owner => [.look ⟨name, owner, .ident name, here :: outer⟩ kept]
  | declare name value => [.define here name (!value.isFunction) kept]
  | assign name owner value => [.look ⟨name, owner, .assign name value.code, here :: outer⟩ kept]
  | function frame params body => body.steps kept (.function frame params body) (here :: outer)
  | _ => []

variable {r piece : Resolved} {name : Bytes} {m : Mention} {here s : Scope} {outer : List Scope}
  {kept : Bool}

@[simp] theorem mem_marked {rs : List Resolved} {k : Bool} :
    (piece, k) ∈ marked kept rs ↔ piece ∈ rs ∧ k = kept := by
  simp only [marked, List.mem_map, Prod.mk.injEq]
  constructor
  · rintro ⟨_, mem, rfl, rfl⟩
    exact ⟨mem, rfl⟩
  · rintro ⟨mem, rfl⟩
    exact ⟨piece, mem, rfl, rfl⟩

theorem stepsAll_eq (kept : Bool) (count : Nat) (here : Scope) (outer : List Scope)
    (args : List Resolved) : stepsAll kept count here outer args
      = (marked true (args.take count) ++ marked false (args.drop count)).flatMap
          fun (c, k) => c.steps (kept && k) here outer := by
  induction args generalizing count with
  | nil => simp [stepsAll, marked]
  | cons r rest ih =>
    rw [stepsAll, ih]
    cases count <;> simp [marked]

/-- The steps of an expression are those of its pieces and then its own. -/
theorem steps_eq (kept : Bool) (here : Scope) (outer : List Scope) (r : Resolved) :
    r.steps kept here outer
      = (r.pieces.flatMap fun (c, k) => c.steps (kept && k) here outer)
        ++ r.own kept here outer := by
  cases r <;> simp [steps, pieces, own, stepsAll_eq, marked]

theorem sizeOf_piece_lt {k : Bool} (mem : (piece, k) ∈ r.pieces) : sizeOf piece < sizeOf r := by
  have among {args : List Resolved} (mem : piece ∈ args) : sizeOf piece < sizeOf args :=
    List.sizeOf_lt_of_mem mem
  cases r with
  | text | word | primitive | function => cases mem
  | call _ args =>
    have := among (mem_marked.1 mem).1
    rw [call.sizeOf_spec]
    omega
  | «do» args =>
    have := among (mem_marked.1 mem).1
    rw [Resolved.do.sizeOf_spec]
    omega
  | operation p args =>
    have inside : piece ∈ args := by
      rcases List.mem_append.1 mem with mem | mem
      · exact List.mem_of_mem_take (mem_marked.1 mem).1
      · exact List.mem_of_mem_drop (mem_marked.1 mem).1
    have := among inside
    rw [operation.sizeOf_spec]
    omega
  | closure callee args =>
    have inside := List.mem_cons.1 (mem_marked.1 mem).1
    rw [closure.sizeOf_spec]
    rcases inside with rfl | inside
    · omega
    · have := among inside
      omega
  | «if» cond yes no =>
    have inside : piece = yes ∨ piece = no ∨ piece = cond := by
      simp only [pieces, List.mem_cons, Prod.mk.injEq, List.not_mem_nil, or_false] at mem
      exact mem.imp And.left (Or.imp And.left And.left)
    rw [Resolved.if.sizeOf_spec]
    rcases inside with rfl | rfl | rfl <;> omega
  | «while» cond body =>
    have inside : piece = cond ∨ piece = body := by
      simp only [pieces, List.mem_cons, Prod.mk.injEq, List.not_mem_nil, or_false] at mem
      exact mem.imp And.left And.left
    rw [Resolved.while.sizeOf_spec]
    rcases inside with rfl | rfl <;> omega
  | declare | assign | returned =>
    cases List.mem_singleton.1 mem
    simp only [declare.sizeOf_spec, assign.sizeOf_spec, returned.sizeOf_spec]
    omega

/-- What holds of an expression if it holds of its pieces, and of a function if it holds of its
body, holds of every expression. -/
theorem pieces_induction {motive : Resolved → Prop} (r : Resolved)
    (pieces : ∀ r, (∀ piece ∈ r.pieces, motive piece.1) →
      (∀ frame params body, r ≠ function frame params body) → motive r)
    (function : ∀ frame params body, motive body → motive (function frame params body)) :
    motive r := by
  have smaller (c : Resolved) (less : sizeOf c < sizeOf r) : motive c :=
    pieces_induction c pieces function
  cases r with
  | function frame params body =>
    exact function frame params body (smaller body (by rw [Resolved.function.sizeOf_spec]; omega))
  | _ => exact pieces _ (fun c mem => smaller c.1 (sizeOf_piece_lt mem)) nofun
termination_by sizeOf r

/-! ## What is in the code -/

theorem steps_piece_subset (mem : (piece, true) ∈ r.pieces) :
    piece.steps true here outer ⊆ r.steps true here outer := by
  intro step inside
  rw [steps_eq true here outer r]
  exact List.mem_append_left _ (List.mem_flatMap.2 ⟨_, mem, inside⟩)

/-- What an operand does that is left out is not kept. -/
theorem isKept_of_mem_steps {step : NameStep} (mem : step ∈ r.steps false here outer) :
    step.isKept = false := by
  induction r using pieces_induction generalizing here outer with
  | pieces r ih other =>
    rw [steps_eq] at mem
    rcases List.mem_append.1 mem with mem | mem
    · obtain ⟨c, piece, inside⟩ := List.mem_flatMap.1 mem
      exact ih c piece inside
    · cases r with
      | word | declare | assign =>
        rw [List.mem_singleton.1 mem]
        rfl
      | function => exact (other _ _ _ rfl).elim
      | _ => cases mem
  | function frame params body ih => exact ih mem

/-- A kept step of an expression is one of a piece in its code, or its own. -/
theorem mem_steps_true {step : NameStep} (isKept : step.isKept = true)
    (mem : step ∈ r.steps true here outer) :
    (∃ piece, (piece, true) ∈ r.pieces ∧ step ∈ piece.steps true here outer)
      ∨ step ∈ r.own true here outer := by
  rw [steps_eq] at mem
  rcases List.mem_append.1 mem with mem | mem
  · obtain ⟨⟨c, k⟩, piece, inside⟩ := List.mem_flatMap.1 mem
    cases k with
    | true => exact .inl ⟨c, piece, inside⟩
    | false =>
      have lost := isKept_of_mem_steps inside
      rw [lost] at isKept
      cases isKept
  · exact .inr mem

/-- The code of a piece stands in the code of the whole. -/
theorem under_pieces (mem : (piece, true) ∈ r.pieces) : Code.Under piece.code [] r.code := by
  have all {args : List Resolved} (mem : piece ∈ args) : piece.code ∈ codeAll args := by
    rw [codeAll_eq]
    exact List.mem_map_of_mem mem
  cases r with
  | text | word | primitive | function => cases mem
  | call _ args =>
    have inside : piece ∈ args := by simpa [pieces] using mem
    exact .part (List.mem_cons_of_mem _ (all inside)) .here
  | «do» args =>
    have inside : piece ∈ args := by simpa [pieces] using mem
    exact .part (all inside) .here
  | operation p args =>
    have inside : piece ∈ args.take (p.kept args.length) := by
      rcases List.mem_append.1 mem with mem | mem
      · exact (mem_marked.1 mem).1
      · cases (mem_marked.1 mem).2
    refine p.under_expand ?_
    rw [codeAll_eq, List.length_map, ← List.map_take]
    exact List.mem_map_of_mem inside
  | closure callee args =>
    have inside : piece = callee ∨ piece ∈ args := by simpa [pieces] using mem
    rcases inside with rfl | inside
    · exact .part (List.mem_cons_self ..) .here
    · exact .part (List.mem_cons_of_mem _ (all inside)) .here
  | «if» cond yes no =>
    have branch (c : Code) (mem : c.returning ∈ (Resolved.if cond yes no).code.parts) :
        Code.Under c [] (Resolved.if cond yes no).code :=
      (Code.under_returning c).trans (.part mem .here)
    have inside : piece = yes ∨ piece = no ∨ piece = cond := by simpa [pieces] using mem
    rcases inside with rfl | rfl | rfl
    · exact branch _ (by simp [code, Code.parts])
    · exact branch _ (by simp [code, Code.parts])
    · exact .part (List.mem_cons_self ..) .here
  | «while» cond body =>
    have inside : piece = cond ∨ piece = body := by simpa [pieces] using mem
    rcases inside with rfl | rfl
    · exact .part (List.mem_cons_self ..) .here
    · exact .part (by simp [code, Code.parts]) .here
  | declare | assign =>
    cases List.mem_singleton.1 mem
    exact .part (List.mem_singleton_self _) .here
  | returned =>
    cases List.mem_singleton.1 mem
    exact Code.under_returning _

/-- A name that the code declares is declared by a piece, or by the expression itself. -/
theorem hoisted_pieces (declared : name ∈ r.code.hoisted) :
    (∃ piece, (piece, true) ∈ r.pieces ∧ name ∈ piece.code.hoisted)
      ∨ ∃ value, r = declare name value := by
  have among {args : List Resolved} (declared : name ∈ Code.hoistedAll (codeAll args)) :
      ∃ piece ∈ args, name ∈ piece.code.hoisted := by
    rw [Code.hoistedAll_eq, codeAll_eq, List.flatMap_map] at declared
    exact List.mem_flatMap.1 declared
  cases r with
  | text | word | primitive | function => cases declared
  | call _ args =>
    obtain ⟨piece, mem, inside⟩ := among declared
    exact .inl ⟨piece, mem_marked.2 ⟨mem, rfl⟩, inside⟩
  | «do» args =>
    obtain ⟨piece, mem, inside⟩ := among declared
    exact .inl ⟨piece, mem_marked.2 ⟨mem, rfl⟩, inside⟩
  | operation p args =>
    obtain ⟨c, mem, inside⟩ := p.hoisted_expand declared
    rw [codeAll_eq, ← List.map_take, List.length_map] at mem
    obtain ⟨piece, first, rfl⟩ := List.mem_map.1 mem
    exact .inl ⟨piece, List.mem_append_left _ (mem_marked.2 ⟨first, rfl⟩), inside⟩
  | closure callee args =>
    rcases List.mem_append.1 declared with inside | inside
    · exact .inl ⟨callee, by simp [pieces], inside⟩
    · obtain ⟨piece, mem, inside⟩ := among inside
      exact .inl ⟨piece, by simp [pieces, mem], inside⟩
  | «if» cond yes no =>
    simp only [code, Code.hoisted, Code.hoisted_returning, List.mem_append] at declared
    rcases declared with (inside | inside) | inside
    · exact .inl ⟨cond, by simp [pieces], inside⟩
    · exact .inl ⟨yes, by simp [pieces], inside⟩
    · exact .inl ⟨no, by simp [pieces], inside⟩
  | «while» cond body =>
    rcases List.mem_append.1 declared with inside | inside
    · exact .inl ⟨cond, by simp [pieces], inside⟩
    · exact .inl ⟨body, by simp [pieces], inside⟩
  | declare name' value =>
    rcases List.mem_cons.1 declared with rfl | inside
    · exact .inr ⟨value, rfl⟩
    · exact .inl ⟨value, by simp [pieces], inside⟩
  | assign _ _ value => exact .inl ⟨value, by simp [pieces], declared⟩
  | returned value =>
    rw [code, Code.hoisted_returning] at declared
    exact .inl ⟨value, by simp [pieces], declared⟩

/-- What the code declares was defined in its scope by a step that is kept. -/
theorem define_of_hoisted (declared : name ∈ r.code.hoisted) :
    ∃ binds, .define here name binds true ∈ r.steps true here outer := by
  induction r using pieces_induction generalizing here outer with
  | pieces r ih other =>
    rcases hoisted_pieces declared with ⟨piece, mem, inside⟩ | ⟨value, rfl⟩
    · obtain ⟨binds, defined⟩ := ih _ mem inside
      exact ⟨binds, steps_piece_subset mem defined⟩
    · exact ⟨!value.isFunction, List.mem_append_right _ (List.mem_singleton_self _)⟩
  | function => cases declared

/-- What is defined by a step that is kept is declared in the code of the scope. -/
theorem hoisted_of_define {binds : Bool}
    (mem : .define s name binds true ∈ r.steps true here outer) :
    s = here ∧ name ∈ r.code.hoisted ∨ name ∈ s.body.code.hoisted := by
  induction r using pieces_induction generalizing here outer with
  | pieces r ih other =>
    rcases mem_steps_true rfl mem with ⟨piece, mem, inside⟩ | own
    · refine (ih _ mem inside).imp_left fun ⟨same, declared⟩ => ⟨same, ?_⟩
      exact (under_pieces mem).hoisted rfl declared
    · cases r with
      | declare =>
        cases List.mem_singleton.1 own
        exact .inl ⟨rfl, List.mem_cons_self ..⟩
      | word | assign => cases List.mem_singleton.1 own
      | function => exact (other _ _ _ rfl).elim
      | _ => cases own
  | function frame params body ih =>
    rcases ih mem with ⟨same, declared⟩ | declared
    · exact .inr (same ▸ declared)
    · exact .inr declared

/-- A name stands in the code, under the function literals of the scopes it was looked up in. The
steps of these scopes are steps of the whole. -/
theorem look_stands (mem : .look m true ∈ r.steps true here outer) :
    ∃ inner, m.around = inner ++ here :: outer ∧ Code.Under m.code (inner.map Scope.literal) r.code
      ∧ ∀ s ∈ inner, s.isFunction = true
        ∧ ∃ around, s.body.steps true s around ⊆ r.steps true here outer := by
  induction r using pieces_induction generalizing here outer with
  | pieces r ih other =>
    rcases mem_steps_true rfl mem with ⟨piece, mem, inside⟩ | own
    · obtain ⟨inner, around_eq, under, scopes⟩ := ih _ mem inside
      have whole := under.trans (under_pieces mem)
      rw [List.append_nil] at whole
      refine ⟨inner, around_eq, whole, fun s mem' => ?_⟩
      obtain ⟨isFunction, around, among⟩ := scopes s mem'
      exact ⟨isFunction, around, List.Subset.trans among (steps_piece_subset mem)⟩
    · cases r with
      | word | assign =>
        cases List.mem_singleton.1 own
        exact ⟨[], rfl, .here, by simp⟩
      | declare => cases List.mem_singleton.1 own
      | function => exact (other _ _ _ rfl).elim
      | _ => cases own
  | function frame params body ih =>
    obtain ⟨inner, around_eq, under, scopes⟩ := ih mem
    have returned := under.trans (Code.under_returning _)
    rw [List.append_nil] at returned
    refine ⟨inner ++ [.function frame params body], by simp [around_eq], ?_, fun s mem => ?_⟩
    · rw [List.map_append]
      exact .body returned
    · rcases List.mem_append.1 mem with mem | mem
      · exact scopes s mem
      · rw [List.mem_singleton.1 mem]
        exact ⟨rfl, here :: outer, List.Subset.refl _⟩

/-- A name of a program stands in its code, and a scope around it declares just its parameters,
the name that every function has, and what the steps that are kept define in it. -/
theorem trace_stands (mem : .look m true ∈ r.trace) :
    Code.Under m.code m.literals r.code ∧ ∀ s ∈ m.around, ∀ name,
      s.declares name = true ↔ name ∈ s.params ∨ (∃ binds, .define s name binds true ∈ r.trace)
        ∨ s.isFunction = true ∧ name = utf8 "arguments" := by
  obtain ⟨inner, around_eq, under, scopes⟩ := look_stands mem
  refine ⟨?_, fun s mem name => ?_⟩
  · have all : inner.filter (fun s => s.isFunction) = inner :=
      List.filter_eq_self.2 fun s mem => (scopes s mem).1
    have literals : m.literals = inner.map Scope.literal := by
      simp [Mention.literals, around_eq, all, Scope.program]
    rwa [literals]
  · have hoisted : name ∈ s.body.code.hoisted ↔ ∃ binds, .define s name binds true ∈ r.trace := by
      refine ⟨fun declared => ?_, fun ⟨binds, defined⟩ => ?_⟩
      · rw [around_eq] at mem
        rcases List.mem_append.1 mem with mem | mem
        · obtain ⟨-, around, among⟩ := scopes s mem
          obtain ⟨binds, defined⟩ := define_of_hoisted declared
          exact ⟨binds, among defined⟩
        · cases List.mem_singleton.1 mem
          exact define_of_hoisted declared
      · rcases hoisted_of_define defined with ⟨rfl, declared⟩ | declared <;> exact declared
    rw [Scope.declares_iff, hoisted]

end Resolved

/-! ## Referents -/

/-- From the innermost scope outward, a name is no parameter and was not bound in the steps before
until the scope of its owner comes, which has it as a parameter or had bound it; if that scope does
not come, `beyond` holds. -/
def Scope.LeadsTo (before : List NameStep) (name : Bytes) (owner : Nat) (beyond : Prop) :
    List Scope → Prop
  | [] => beyond
  | s :: rest =>
    s.frame = owner ∧ (name ∈ s.params ∨ NameStep.Bound before s name)
      ∨ s.frame ≠ owner ∧ name ∉ s.params ∧ ¬ NameStep.Bound before s name
        ∧ LeadsTo before name owner beyond rest

namespace Scope

variable {before earlier : List NameStep} {name : Bytes} {owner : Nat} {beyond beyond' : Prop}
  {inner outer scopes : List Scope}

theorem LeadsTo.append (h : LeadsTo before name owner beyond inner)
    (next : beyond → LeadsTo before name owner beyond' outer) :
    LeadsTo before name owner beyond' (inner ++ outer) := by
  induction inner with
  | nil => exact next h
  | cons s rest ih =>
    rcases h with here | ⟨other, free, unbound, h⟩
    · exact .inl here
    · exact .inr ⟨other, free, unbound, ih h⟩

theorem LeadsTo.mono (h : LeadsTo before name owner beyond scopes) (next : beyond → beyond') :
    LeadsTo before name owner beyond' scopes := by
  have longer : LeadsTo before name owner beyond' (scopes ++ []) := h.append next
  rwa [List.append_nil] at longer

/-- Steps in which none of the scopes had anything bound make no difference. -/
theorem LeadsTo.after (h : LeadsTo before name owner beyond scopes)
    (none : ∀ s ∈ scopes, ∀ n kept, .define s n true kept ∉ earlier) :
    LeadsTo (earlier ++ before) name owner beyond scopes := by
  induction scopes with
  | nil => exact h
  | cons s rest ih =>
    obtain ⟨first, others⟩ := List.forall_mem_cons.1 none
    have same : NameStep.Bound (earlier ++ before) s name ↔ NameStep.Bound before s name := by
      simp [NameStep.Bound, first]
    rw [LeadsTo, same]
    exact h.imp_right fun ⟨other, free, unbound, h⟩ => ⟨other, free, unbound, ih h others⟩

theorem LeadsTo.found (h : LeadsTo before name owner beyond scopes) :
    beyond ∨ ∃ s ∈ scopes, s.frame = owner ∧ (name ∈ s.params ∨ NameStep.Bound before s name) := by
  induction scopes with
  | nil => exact .inl h
  | cons s rest ih =>
    rcases h with here | ⟨-, -, -, h⟩
    · exact .inr ⟨s, List.mem_cons_self .., here⟩
    · rcases ih h with outside | ⟨s', mem, found⟩
      · exact .inl outside
      · exact .inr ⟨s', List.mem_cons_of_mem _ mem, found⟩

theorem LeadsTo.free (h : LeadsTo before name owner beyond scopes) :
    ∀ s ∈ scopes.takeWhile fun s => s.frame != owner,
      name ∉ s.params ∧ ¬ NameStep.Bound before s name := by
  induction scopes with
  | nil => simp
  | cons s rest ih =>
    rcases h with ⟨here, _⟩ | ⟨other, free, unbound, h⟩
    · simp [here]
    · rw [List.takeWhile_cons_of_pos (by simpa using other)]
      exact List.forall_mem_cons.2 ⟨⟨free, unbound⟩, ih h⟩

end Scope

namespace Mention

/-- Scopes one within the other, each with a frame that was opened before those in it. -/
def Nested (scopes : List Scope) : Prop :=
  scopes.Pairwise fun inner outer => outer.frame < inner.frame

/-- What a name in the code of a program refers to, against the frame that owns it. It is looked up
between the steps `before` and `after`. -/
structure Placed (code : Code) (before after : List NameStep) (m : Mention) : Prop where
  stands : Code.Under m.code m.literals code
  nested : Nested m.around
  /-- The owner is the root, or its scope is around the name: the name is a parameter there or was
  bound by a definition that came before. The scope declares it, unless the definition is in an
  operand that is left out of the code. -/
  owner : m.owner = 0 ∨ ∃ s ∈ m.around, s.frame = m.owner
    ∧ ((m.name ∈ s.params ∨ .define s m.name true true ∈ before) ∧ s.declares m.name = true
      ∨ .define s m.name true false ∈ before)
  /-- In no function before that scope the name is a parameter or was bound by then. -/
  free : ∀ s ∈ m.between, m.name ∉ s.params ∧ ¬ NameStep.Bound before s m.name
  /-- So such a function declares it just in case it is the name that every function has, or in the
  code there is a definition of a function under the name, or another definition that comes
  later. -/
  captures : ∀ s ∈ m.between, s.declares m.name = true
    ↔ s.isFunction = true ∧ m.name = utf8 "arguments"
      ∨ .define s m.name false true ∈ before ++ after ∨ .define s m.name true true ∈ after
  /-- The name refers to its owner just in case no scope before declares it and that scope does. -/
  refers : m.referent = m.owner ↔ (∀ s ∈ m.between, s.declares m.name = false)
    ∧ ∀ s ∈ m.around, s.frame = m.owner → s.declares m.name = true

theorem referent_eq_iff (m : Mention) (nested : Nested m.around)
    (opened : ∀ s ∈ m.around, 0 < s.frame)
    (known : m.owner = 0 ∨ ∃ s ∈ m.around, s.frame = m.owner) :
    m.referent = m.owner ↔ (∀ s ∈ m.between, s.declares m.name = false)
      ∧ ∀ s ∈ m.around, s.frame = m.owner → s.declares m.name = true := by
  obtain ⟨name, owner, code, scopes⟩ := m
  simp only [referent, between] at *
  induction scopes with
  | nil =>
    have root : owner = 0 := by simpa using known
    simp [root]
  | cons s rest ih =>
    obtain ⟨inner, nested⟩ := List.pairwise_cons.1 nested
    obtain ⟨positive, opened⟩ := List.forall_mem_cons.1 opened
    by_cases here : s.frame = owner
    · rw [List.takeWhile_cons_of_neg (by simpa using here)]
      cases declared : s.declares name with
      | true =>
        rw [List.find?_cons_of_pos (by exact declared)]
        refine iff_of_true here ⟨by simp, List.forall_mem_cons.2 ⟨fun _ => declared, ?_⟩⟩
        intro s' mem same
        have := inner s' mem
        omega
      | false =>
        rw [List.find?_cons_of_neg (by simp [declared])]
        refine iff_of_false ?_ fun h => by simp [declared] at h; exact h.1 here
        split
        next s' found =>
          have := inner s' (List.mem_of_find?_eq_some found)
          omega
        next => omega
    · rw [List.takeWhile_cons_of_pos (by simpa using here)]
      cases declared : s.declares name with
      | true =>
        rw [List.find?_cons_of_pos (by exact declared)]
        refine iff_of_false here fun h => ?_
        have := (List.forall_mem_cons.1 h.1).1
        rw [declared] at this
        cases this
      | false =>
        have known : owner = 0 ∨ ∃ s ∈ rest, s.frame = owner := by
          refine known.imp_right fun ⟨s', mem, same⟩ => ⟨s', ?_, same⟩
          rcases List.mem_cons.1 mem with rfl | mem
          · exact absurd same here
          · exact mem
        rw [List.find?_cons_of_neg (by simp [declared]), ih nested opened known,
          List.forall_mem_cons, List.forall_mem_cons]
        simp [declared, here]

theorem Placed.of_leadsTo {m : Mention} {r : Resolved} {before after : List NameStep}
    (split : r.trace = before ++ .look m true :: after) (nested : Nested m.around)
    (opened : ∀ s ∈ m.around, 0 < s.frame)
    (leads : Scope.LeadsTo before m.name m.owner (m.owner = 0) m.around) :
    m.Placed r.code before after := by
  have mem : .look m true ∈ r.trace := by simp [split]
  obtain ⟨stands, declares⟩ := Resolved.trace_stands mem
  have found := leads.found
  refine ⟨stands, nested, found.imp_right ?_, leads.free, fun s mem => ?_, ?_⟩
  · rintro ⟨s, mem, same, bound⟩
    refine ⟨s, mem, same, ?_⟩
    rcases bound with param | ⟨kept, bound⟩
    · exact .inl ⟨.inl param, (declares s mem _).2 (.inl param)⟩
    · cases kept with
      | true =>
        have defined : .define s m.name true true ∈ r.trace := by simp [split, bound]
        exact .inl ⟨.inr bound, (declares s mem _).2 (.inr (.inl ⟨true, defined⟩))⟩
      | false => exact .inr bound
  · obtain ⟨free, unbound⟩ := leads.free s mem
    have around : s ∈ m.around := (List.takeWhile_sublist _).subset mem
    rw [declares s around, split]
    constructor
    · rintro (param | ⟨binds, defined⟩ | arguments)
      · exact (free param).elim
      · have defined : .define s m.name binds true ∈ before ++ after := by simpa using defined
        cases binds with
        | false => exact .inr (.inl defined)
        | true =>
          refine .inr (.inr ((List.mem_append.1 defined).resolve_left fun earlier => ?_))
          exact unbound ⟨true, earlier⟩
      · exact .inl arguments
    · rintro (arguments | defined | later)
      · exact .inr (.inr arguments)
      · exact .inr (.inl ⟨false, by simpa using defined⟩)
      · exact .inr (.inl ⟨true, by simp [later]⟩)
  · refine m.referent_eq_iff nested opened (found.imp_right ?_)
    rintro ⟨s, mem, same, _⟩
    exact ⟨s, mem, same⟩

end Mention

end EggLang
