import EggLang.Code.Basic
import EggLang.Compiler.Primitive

/-!
# Variables of generated code

A name of generated code belongs to the innermost function literal around it that has it as a
parameter or declares it, wherever in its body the declaration stands: a `var` holds for the whole
function and not for the statements after it. Text that is used as it is counts as no declaration.
-/

namespace EggLang

namespace Code

/-- What code is put together from, function bodies left out. -/
def parts : Code → List Code
  | absent | raw _ | function .. => []
  | operation _ cs | array cs | block cs => cs
  | call c cs => c :: cs
  | member c _ | effect c | .return c | var _ c | assign _ c => [c]
  | index c d | .while c d => [c, d]
  | .if c d e => [c, d, e]

mutual

/-- The names declared by `var` in the function that the code stands in. -/
def hoisted : Code → List Bytes
  | absent | raw _ | function .. => []
  | operation _ cs | array cs | block cs => hoistedAll cs
  | call c cs => c.hoisted ++ hoistedAll cs
  | member c _ | effect c | .return c | assign _ c => c.hoisted
  | var name c => name :: c.hoisted
  | index c d | .while c d => c.hoisted ++ d.hoisted
  | .if c d e => c.hoisted ++ d.hoisted ++ e.hoisted

/-- The names declared in a list of code. -/
def hoistedAll : List Code → List Bytes
  | [] => []
  | c :: rest => c.hoisted ++ hoistedAll rest

end

theorem hoistedAll_eq (cs : List Code) : hoistedAll cs = cs.flatMap hoisted := by
  induction cs with
  | nil => rfl
  | cons c rest ih => rw [hoistedAll, ih, List.flatMap_cons]

/-- What a part declares, the whole declares. -/
theorem hoisted_subset {c d : Code} (mem : d ∈ c.parts) : d.hoisted ⊆ c.hoisted := by
  intro name declared
  cases c with
  | absent | raw | function => cases mem
  | operation | array | block =>
    rw [hoisted, hoistedAll_eq]
    exact List.mem_flatMap.2 ⟨d, mem, declared⟩
  | call c cs =>
    rw [hoisted, hoistedAll_eq]
    rcases List.mem_cons.1 mem with rfl | mem
    · exact List.mem_append_left _ declared
    · exact List.mem_append_right _ (List.mem_flatMap.2 ⟨d, mem, declared⟩)
  | member | effect | «return» | var | assign =>
    cases List.mem_singleton.1 mem
    simp [hoisted, declared]
  | index | «while» | «if» =>
    simp only [parts, List.mem_cons, List.not_mem_nil, or_false] at mem
    rcases mem with rfl | rfl | rfl <;> simp [hoisted, declared]

/-- A function literal. -/
structure Literal where
  params : List Bytes
  body : Code

/-- A piece of code stands in some code, under these function literals, the innermost first. -/
inductive Under (piece : Code) : List Literal → Code → Prop
  | here : Under piece [] piece
  | part {c d : Code} {literals : List Literal} (mem : d ∈ c.parts)
      (inside : Under piece literals d) : Under piece literals c
  | body {params : List Bytes} {c : Code} {literals : List Literal}
      (inside : Under piece literals c) :
      Under piece (literals ++ [⟨params, c⟩]) (.function params c)

variable {piece c d : Code} {literals inner outer : List Literal}

theorem Under.trans (first : Under piece inner c) (second : Under c outer d) :
    Under piece (inner ++ outer) d := by
  induction second with
  | here => rwa [List.append_nil]
  | part mem _ ih => exact .part mem ih
  | body _ ih =>
    rw [← List.append_assoc]
    exact .body ih

/-- What a piece declares that stands under no function literal of some code, the code declares. -/
theorem Under.hoisted (h : Under piece literals c) (none : literals = []) :
    piece.hoisted ⊆ c.hoisted := by
  induction h with
  | here => exact List.Subset.refl _
  | part mem _ ih => exact List.Subset.trans (ih none) (hoisted_subset mem)
  | body => simp at none

/-- Code stands in the code that returns it. -/
theorem under_returning (c : Code) : Under c [] c.returning := by
  cases c with
  | effect | «return» | «if» | «while» | var | assign | block | absent => exact .here
  | raw | operation | call | function | array | member | index =>
    exact .part (List.mem_singleton_self _) .here

/-- Returning code declares nothing. -/
@[simp] theorem hoisted_returning (c : Code) : c.returning.hoisted = c.hoisted := by
  cases c <;> rfl

end Code

namespace Primitive

/-- How many of its operands the code of an operation has in it. -/
def kept (p : Primitive) (operands : Nat) : Nat :=
  match p with
  | add | subtract | multiply | divide | array => operands
  | equal | less | greater | element => 2
  | print | length => 1

variable {args : List Code} {arg : Code}

theorem under_joinAll (operator : Bytes) (mem : arg ∈ args) :
    Code.Under arg [] (joinAll operator args) := by
  match args, mem with
  | [only], mem =>
    cases List.mem_singleton.1 mem
    exact .here
  | _ :: _ :: _, mem => exact .part mem .here

theorem mem_operandAt {count : Nat} (mem : arg ∈ args.take count) :
    ∃ i < count, operandAt args i = arg := by
  obtain ⟨i, bound, at_i⟩ := List.mem_take_iff_getElem.1 mem
  refine ⟨i, by omega, ?_⟩
  rw [operandAt, List.getD_eq_getElem?_getD, List.getElem?_eq_getElem (by omega), at_i]
  rfl

/-- An operand that is kept stands in the code of the operation. -/
theorem under_expand (p : Primitive) (mem : arg ∈ args.take (p.kept args.length)) :
    Code.Under arg [] (p.expand args) := by
  have either (mem : arg ∈ args.take 2) : arg ∈ [operandAt args 0, operandAt args 1] := by
    obtain ⟨i, bound, rfl⟩ := mem_operandAt mem
    have : i = 0 ∨ i = 1 := by omega
    rcases this with rfl | rfl <;> simp
  have first (mem : arg ∈ args.take 1) : arg ∈ [operandAt args 0] := by
    obtain ⟨i, bound, rfl⟩ := mem_operandAt mem
    have : i = 0 := by omega
    simp [this]
  cases p with
  | add | subtract | multiply | divide => exact under_joinAll _ (List.mem_of_mem_take mem)
  | equal | less | greater | element => exact .part (either mem) .here
  | array => exact .part (List.mem_of_mem_take mem) .here
  | length => exact .part (first mem) .here
  | print =>
    refine .part (List.mem_singleton_self _) (.part ?_ .here)
    exact List.mem_cons_of_mem _ (first mem)

theorem hoisted_joinAll (operator : Bytes) :
    (joinAll operator args).hoisted = Code.hoistedAll args := by
  match args with
  | [] => rfl
  | [only] => simp [joinAll, Code.hoistedAll]
  | _ :: _ :: _ => rfl

theorem hoisted_operandAt {i : Nat} {name : Bytes} (declared : name ∈ (operandAt args i).hoisted) :
    ∃ bound : i < args.length, name ∈ args[i].hoisted := by
  rw [operandAt, List.getD_eq_getElem?_getD] at declared
  cases found : args[i]? with
  | none =>
    rw [found] at declared
    cases declared
  | some arg =>
    obtain ⟨bound, rfl⟩ := List.getElem?_eq_some_iff.1 found
    rw [found] at declared
    exact ⟨bound, declared⟩

/-- What the code of an operation declares, one of the operands declares that are kept. -/
theorem hoisted_expand (p : Primitive) {name : Bytes} (declared : name ∈ (p.expand args).hoisted) :
    ∃ arg ∈ args.take (p.kept args.length), name ∈ arg.hoisted := by
  have kept {i count : Nat} (less : i < count) (declared : name ∈ (operandAt args i).hoisted) :
      ∃ arg ∈ args.take count, name ∈ arg.hoisted := by
    obtain ⟨bound, inside⟩ := hoisted_operandAt declared
    exact ⟨args[i], List.mem_take_iff_getElem.2 ⟨i, by omega, rfl⟩, inside⟩
  cases p with
  | add | subtract | multiply | divide =>
    rw [expand, hoisted_joinAll, Code.hoistedAll_eq] at declared
    simpa [Primitive.kept] using declared
  | array =>
    rw [expand, Code.hoisted, Code.hoistedAll_eq] at declared
    simpa [Primitive.kept] using declared
  | equal | less | greater =>
    simp only [expand, Code.hoisted, Code.hoistedAll, List.append_nil, List.mem_append] at declared
    rcases declared with first | second
    · exact kept Nat.zero_lt_two first
    · exact kept Nat.one_lt_two second
  | element =>
    rcases List.mem_append.1 declared with first | second
    · exact kept Nat.zero_lt_two first
    · exact kept Nat.one_lt_two second
  | length => exact kept Nat.zero_lt_one declared
  | print =>
    simp only [expand, Code.hoisted, Code.hoistedAll, Code.ident, List.append_nil,
      List.nil_append] at declared
    exact kept Nat.zero_lt_one declared

end Primitive

end EggLang
