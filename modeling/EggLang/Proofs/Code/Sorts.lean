import EggLang.Proofs.Code.Scoping
import EggLang.Proofs.Code.Writing

/-!
# Expressions and statements in generated code

Generated code has two sorts, and only an expression may stand where a value is taken: as an
operand, an argument, an element, a condition, or what is declared, assigned or returned. The body
of a function, the branches of a conditional, the body of a loop and the lines of a block may be of
either sort.
-/

namespace EggLang.Code

/-- The parts of code whose values it takes. -/
def operands : Code → List Code
  | absent | raw _ | function .. | block _ => []
  | operation _ cs | array cs => cs
  | call c cs => c :: cs
  | member c _ | effect c | .return c | var _ c | assign _ c => [c]
  | index c d => [c, d]
  | .if c _ _ | .while c _ => [c]

/-- No code is missing, and no statement stands where a value is taken, at any depth and in function
bodies too. -/
def WellSorted (c : Code) : Prop :=
  ∀ piece literals, Under piece literals c →
    piece ≠ absent ∧ ∀ d ∈ piece.operands, d.isStatement = Bool.false

/-- Code that has a value: well-sorted, and no statement. -/
structure IsValue (c : Code) : Prop where
  sorted : c.WellSorted
  expression : c.isStatement = Bool.false

variable {c : Code} {cs : List Code}

theorem WellSorted.function (h : c.WellSorted) (params : List Bytes) :
    (Code.function params c).WellSorted := by
  rintro piece literals under
  cases under with
  | here => exact ⟨nofun, by simp [operands]⟩
  | part mem => cases mem
  | body inside => exact h _ _ inside

/-- Code other than a function literal is well-sorted when its parts are and it takes the values of
expressions only. -/
theorem wellSorted_of_parts (present : c ≠ absent) (literal : c.isFunction = Bool.false)
    (parts : ∀ d ∈ c.parts, d.WellSorted) (values : ∀ d ∈ c.operands, d.isStatement = Bool.false) :
    c.WellSorted := by
  rintro piece literals under
  cases under with
  | here => exact ⟨present, values⟩
  | part mem inside => exact parts _ mem _ _ inside
  | body => cases literal

/-- Code all of whose parts are operands is well-sorted when they have values. -/
theorem wellSorted_of_operands (present : c ≠ absent) (literal : c.isFunction = Bool.false)
    (same : c.parts = c.operands) (values : ∀ d ∈ c.operands, d.IsValue) : c.WellSorted :=
  wellSorted_of_parts present literal (fun d mem => (values d (same ▸ mem)).sorted)
    fun d mem => (values d mem).expression

theorem isValue_raw (text : Bytes) : (raw text).IsValue :=
  ⟨wellSorted_of_operands nofun rfl rfl (by simp [operands]), rfl⟩

theorem isValue_array (values : ∀ d ∈ cs, d.IsValue) : (array cs).IsValue :=
  ⟨wellSorted_of_operands nofun rfl rfl values, rfl⟩

theorem isValue_call {callee : Code} (value : callee.IsValue) (values : ∀ d ∈ cs, d.IsValue) :
    (call callee cs).IsValue :=
  ⟨wellSorted_of_operands nofun rfl rfl (List.forall_mem_cons.2 ⟨value, values⟩), rfl⟩

/-- A statement that only takes a value. -/
theorem wellSorted_of_single (present : c ≠ absent) (literal : c.isFunction = Bool.false)
    (same : c.parts = c.operands) {d : Code} (only : c.operands = [d]) (value : d.IsValue) :
    c.WellSorted :=
  wellSorted_of_operands present literal same (by simpa [only] using value)

theorem wellSorted_if {cond yes no : Code} (value : cond.IsValue) (first : yes.WellSorted)
    (second : no.WellSorted) : (Code.if cond yes no).WellSorted :=
  wellSorted_of_parts nofun rfl (by simpa [parts] using ⟨value.sorted, first, second⟩)
    (by simpa [operands] using value.expression)

theorem WellSorted.return (value : c.IsValue) : (Code.return c).WellSorted :=
  wellSorted_of_single nofun rfl rfl rfl value

/-- What code in a role is: an expression, or the body of a function. -/
def Sorted : Role → Code → Prop
  | .value, c => c.IsValue
  | .body, c => c.WellSorted

/-- The code of an expression has a value, and the code of a function body is well-sorted. -/
theorem Generated.sorted {role : Role} (h : Generated role c) : Sorted role c := by
  -- along the shapes of code; only a body ends in statements, and it stands in a function literal
  induction h with
  | number n => exact isValue_raw _
  | name _ => exact isValue_raw _
  | truth b => exact isValue_raw _
  | operation _ _ _ ih ihs =>
    exact ⟨wellSorted_of_operands nofun rfl rfl (List.forall_mem_cons.2 ⟨ih, ihs⟩), rfl⟩
  | array _ ih => exact isValue_array ih
  | length _ ih => exact ⟨wellSorted_of_single nofun rfl rfl rfl (isValue_array ih), rfl⟩
  | element _ _ ih ihi =>
    refine ⟨wellSorted_of_operands nofun rfl rfl ?_, rfl⟩
    simpa [operands] using ⟨isValue_array ih, ihi⟩
  | call _ _ ih => exact isValue_call (isValue_raw _) (List.forall_mem_singleton.2 ih)
  | applied _ _ _ ihb iha =>
    exact isValue_call ⟨WellSorted.function ihb _, rfl⟩ (List.forall_mem_singleton.2 iha)
  | returned _ ih => exact .return ih
  | branch _ _ _ ihc ihy ihn => exact wellSorted_if ihc (.return ihy) (.return ihn)

/-- The code of a statement is well-sorted. -/
theorem GeneratedLine.wellSorted (h : GeneratedLine c) : c.WellSorted := by
  induction h with
  | value value => exact value.sorted.sorted
  | branch cond yes no =>
    exact wellSorted_if cond.sorted (.return yes.sorted) (.return no.sorted)
  | printed value =>
    exact wellSorted_of_single nofun rfl rfl rfl
      (isValue_call (isValue_raw _) (List.forall_mem_singleton.2 value.sorted))
  | declared _ value => exact wellSorted_of_single nofun rfl rfl rfl value.sorted
  | defined _ _ body =>
    exact wellSorted_of_single nofun rfl rfl rfl ⟨WellSorted.function body.sorted _, rfl⟩
  | assigned _ value => exact wellSorted_of_single nofun rfl rfl rfl value.sorted
  | loop _ ih =>
    have cond : (ident (utf8 "false")).IsValue := isValue_raw _
    exact wellSorted_of_parts nofun rfl (by simpa [parts] using ⟨cond.sorted, ih⟩)
      (List.forall_mem_singleton.2 cond.expression)

theorem wellSorted_block (lines : ∀ c ∈ cs, GeneratedLine c) : (block cs).WellSorted :=
  wellSorted_of_parts nofun rfl (fun c mem => (lines c mem).wellSorted) (by simp [operands])

end EggLang.Code
