import EggLang.Proofs.Code.Sorts
import EggLang.Proofs.Compiler.Programs

/-!
# Programs are lowered to well-sorted code

Whether a form of the language becomes an expression or a statement is decided where it is lowered.
In a program that defines what it uses, no statement ends up where a value is taken: no variable is
bound to an operation of the library, and each operation has the operands that it needs.
-/

namespace EggLang

open Script Script.Parser

namespace Expr

/-- A name in ASCII with a digit in it is no word of the language. -/
theorem isOwn_of_digit {n : String} (spelled : IsName n.toList)
    (digit : n.toList.any Char.isDigit = true) : IsOwn (utf8 n) := by
  have other {w : String} (plain : w.toList.any Char.isDigit = false) : n ≠ w := by
    rintro rfl
    rw [plain] at digit
    cases digit
  have words : ∀ w ∈ reserved ++ statementWords ++ connectives,
      w.toList.any Char.isDigit = false := by decide
  have forms (f : SpecialForm) : ∃ w, f.name = utf8 w ∧ w.toList.any Char.isDigit = false := by
    cases f <;> exact ⟨_, rfl, by decide⟩
  have primitives (p : Primitive) :
      ∃ w, p.name = utf8 w ∧ w.toList.any Char.isDigit = false := by
    cases p <;> exact ⟨_, rfl, by decide⟩
  refine ⟨⟨n, rfl, spelled, ?_, ?_, ?_⟩, ?_, ?_⟩
  · exact fun mem => other (words n (by simp [mem])) rfl
  · exact fun mem => other (words n (by simp [mem])) rfl
  · exact fun mem => other (words n (by simp [mem])) rfl
  · refine List.find?_eq_none.2 fun f _ same => ?_
    obtain ⟨w, name, plain⟩ := forms f
    exact other plain (Compiler.utf8_injective ((of_decide_eq_true same).symm.trans name))
  · refine List.find?_eq_none.2 fun p _ same => ?_
    obtain ⟨w, name, plain⟩ := primitives p
    exact other plain (Compiler.utf8_injective ((of_decide_eq_true same).symm.trans name))

/-- A letter followed by a number is a name that a program may give. -/
theorem isOwn_numbered {letter : String} (mem : letter ∈ ["v", "f"]) (number : Nat) :
    IsOwn (utf8 letter ++ Bytes.ofNat number) := by
  obtain ⟨c, chars, ascii, start⟩ : ∃ c, letter.toList = [c] ∧ c.toNat < 0x80 ∧
      Text.isIdentifierStart c = true := by
    simp only [List.mem_cons, List.not_mem_nil, or_false] at mem
    rcases mem with rfl | rfl
    · exact ⟨'v', by decide⟩
    · exact ⟨'f', by decide⟩
  have name : utf8 letter ++ Bytes.ofNat number =
      utf8 (String.ofList (c :: Nat.toDigits 10 number)) := by
    rw [Layout.ofNat_eq, utf8, utf8, String.toList_ofList, chars]
    simp [Text.ofChars]
  have digits := Script.isDigit_toDigits number
  obtain ⟨d, more, some⟩ := List.exists_cons_of_length_pos
    (Nat.length_toDigits_pos : 0 < (Nat.toDigits 10 number).length)
  rw [name]
  refine isOwn_of_digit ⟨?_, ?_⟩ ?_ <;> rw [String.toList_ofList]
  · exact List.forall_mem_cons.2 ⟨ascii, fun d mem => Layout.ascii_of_digit (digits d mem)⟩
  · refine ⟨c, _, rfl, start, fun d mem => ?_⟩
    rw [Text.isIdentifierPart, if_pos (Layout.ascii_of_digit (digits d mem)), Char.isAlphanum,
      digits d mem, Bool.or_true]
    rfl
  · rw [List.any_cons, some, List.any_cons, digits d (by simp [some]), Bool.true_or, Bool.or_true]

end Expr

namespace Compiler

/-- A program in which what is used is defined before it compiles, to a block with a line for each
statement, and the code is well-sorted. -/
theorem lower_wellSorted (indent : Bytes) (place : Place) {args : List Expr}
    (statements : Expr.Statements [] [] args) :
    ∃ lines, ((Compiler.new indent).lower (.apply place SpecialForm.do.name args)).1
        = .ok (.block lines) ∧
      lines.length = args.length ∧ (Code.block lines).WellSorted := by
  -- a new compiler binds no name to an operation but the operation's own
  obtain ⟨cs, t, ok, lines⟩ := lowerDo_lowers statements _ (start_stands indent)
  have form : SpecialForm.ofName? SpecialForm.do.name = some .do := rfl
  have run : evaluate (.apply place SpecialForm.do.name args) 1 (Compiler.new indent).start
      = .ok (.code (.block cs)) t := by
    rw [evaluate, form]
    simp only
    rw [bind_ok ok]
    rfl
  refine ⟨cs, ?_, lines.length_eq.symm, Code.wellSorted_block (generated_of_lines lines)⟩
  rw [lower_eq, run]
  rfl

/-- A function whose body is a conditional, a variable defined in a loop, a function that is applied
where it stands, and a conditional at the end. -/
theorem lower_wellSorted_nested :
    let here : Place := ⟨0, 1, 1⟩
    let word (name : Bytes) := Expr.word here name
    let one := Expr.number here (utf8 "1")
    let v₀ := utf8 "v" ++ Bytes.ofNat 0
    let v₁ := utf8 "v" ++ Bytes.ofNat 1
    let f₀ := utf8 "f" ++ Bytes.ofNat 0
    let args : List Expr :=
      [.apply here SpecialForm.define.name [word v₀, .apply here Primitive.array.name [one]],
        .apply here SpecialForm.define.name [word f₀, .apply here SpecialForm.fun.name
          [word (utf8 "p"), .apply here SpecialForm.if.name [word (utf8 "p"), word v₀, one]]],
        .apply here SpecialForm.while.name [word (utf8 "false"),
          .apply here SpecialForm.define.name [word v₁, .apply here f₀ [word v₀]]],
        .apply here Primitive.print.name [.closure (.apply here SpecialForm.fun.name
          [word (utf8 "q"), .apply here Primitive.add.name [word (utf8 "q")]]) [word v₁]],
        .apply here SpecialForm.if.name [word v₁, one, word v₀]]
    Expr.Statements [] [] args ∧
      ∃ lines, ((Compiler.new (utf8 "  ")).lower (.apply here SpecialForm.do.name args)).1
          = .ok (.block lines) ∧
        lines.length = args.length ∧ (Code.block lines).WellSorted := by
  intro here word one v₀ v₁ f₀ args
  have own_v₀ : Expr.IsOwn v₀ := Expr.isOwn_numbered (by decide) 0
  have own_v₁ : Expr.IsOwn v₁ := Expr.isOwn_numbered (by decide) 1
  have own_f₀ : Expr.IsOwn f₀ := Expr.isOwn_numbered (by decide) 0
  have own_p : Expr.IsOwn (utf8 "p") := ⟨⟨"p", rfl, by decide⟩, rfl, rfl⟩
  have own_q : Expr.IsOwn (utf8 "q") := ⟨⟨"q", rfl, by decide⟩, rfl, rfl⟩
  have digit {functions vars : List Bytes} : Expr.Scoped functions .value vars one := .number _ _
  have statements : Expr.Statements [] [] args := by
    refine .cons (.declared _ _ own_v₀ (.array _ (List.forall_mem_singleton.2 digit))) ?_
    refine .cons (.defined _ _ _ _ own_f₀ own_p
      (.branch _ (.name _ (by simp)) (.name _ (by simp)) digit)) ?_
    refine .cons (.loop _ _ (.declared _ _ own_v₁ (.call _ (by simp) (.name _ (by simp))))) ?_
    refine .cons (.printed _ (.applied _ _ own_q
      (.result (.arithmetic _ (by decide) (.name _ (by simp)) (by simp))) (.name _ (by simp)))) ?_
    exact .cons (.branch _ (.name _ (by simp)) digit (.name _ (by simp))) .nil
  exact ⟨statements, lower_wellSorted _ here statements⟩

end Compiler

end EggLang
