import EggLang.Proofs.Script.Numeral
import Mathlib.Data.List.TakeWhile

/-!
# Identifiers

A name of a script may be spelled with any letters and with escapes. It is read as it stands before
every text that does not go on a name.
-/

namespace EggLang.Script

/-- A text that is read as a name as a whole; the name has no escapes left in it. -/
structure IsIdentifier (text : List Char) (n : String) (isEscaped : Bool) : Prop where
  filled : text ≠ []
  reads : Token.nameRest 0 true text = some (n.toList, text.length, isEscaped)

/-! ## Starts of names -/

/-- The blank characters beyond ASCII. -/
def wideBlanks : List Nat :=
  [0x85, 0xA0, 0x1680, 0x2000, 0x2001, 0x2002, 0x2003, 0x2004, 0x2005, 0x2006, 0x2007, 0x2008,
    0x2009, 0x200A, 0x2028, 0x2029, 0x202F, 0x205F, 0x3000, 0xFEFF]

theorem gap_wide {c : Char} (gap : Token.isGap c = true) (wide : 128 ≤ c.toNat) :
    c.toNat ∈ wideBlanks := by
  simp only [Token.isGap, Text.isWhite, Text.isControlBlank, Text.isSpaceSeparator, Bool.or_eq_true,
    Bool.and_eq_true, decide_eq_true_eq] at gap
  simp only [wideBlanks, List.mem_cons, List.not_mem_nil, or_false]
  omega

theorem wide_not_start : ∀ n ∈ wideBlanks, Text.toggled Text.identifierStartToggles n = false := by
  decide +kernel

theorem start_solid {c : Char} (start : Text.isIdentifierStart c = true) :
    Token.isGap c = false ∧ c ≠ '\\' ∧ c ≠ '/' := by
  by_cases ascii : c.toNat < 0x80
  · exact ascii_start ascii start
  · refine ⟨?_, ?_, ?_⟩
    · by_contra gap
      have mem := gap_wide (Bool.not_eq_false _ ▸ gap) (by omega)
      simp [Text.isIdentifierStart, ascii, wide_not_start _ mem] at start
    · rintro rfl
      exact ascii (by decide)
    · rintro rfl
      exact ascii (by decide)

theorem EndsName.not_start {c : Char} {tail : List Char} (h : EndsName (c :: tail)) :
    Text.isIdentifierStart c = false := by
  by_contra start
  have part := part_of_start (Bool.not_eq_false _ ▸ start)
  simp [(h c rfl).1] at part

/-! ## Escapes -/

variable {cs digits letters tail : List Char} {size skip : Nat} {start isEscaped : Bool}

/-- The digits of a code point in braces end at the brace. -/
theorem takeWhile_braced {rest : List Char}
    (closes : (rest.drop (rest.takeWhile (Reading.isDigitOf 16)).length).head? = some '\x7d') :
    ∃ more, rest = rest.takeWhile (Reading.isDigitOf 16) ++ '\x7d' :: more := by
  cases left : rest.drop (rest.takeWhile (Reading.isDigitOf 16)).length with
  | nil => simp [left] at closes
  | cons d more =>
    obtain rfl : d = '\x7d' := by simpa [left] using closes
    refine ⟨more, ?_⟩
    rw [← left]
    conv_lhs => rw [← List.take_append_drop (rest.takeWhile (Reading.isDigitOf 16)).length rest]
    rw [← List.prefix_iff_eq_take.1 (List.takeWhile_prefix _)]

theorem codePoint_append (read : Token.codePoint? cs = some (digits, size)) (tail : List Char) :
    Token.codePoint? (cs ++ tail) = some (digits, size) ∧ size ≤ cs.length := by
  rw [Token.codePoint?.eq_def] at read
  split at read
  · next rest =>
    simp only at read
    split_ifs at read with fits closes
    cases read
    obtain ⟨more, split⟩ := takeWhile_braced closes
    have inside : ∀ d ∈ rest.takeWhile (Reading.isDigitOf 16), Reading.isDigitOf 16 d = true :=
      fun d mem => List.mem_takeWhile_imp mem
    generalize rest.takeWhile (Reading.isDigitOf 16) = ds at *
    subst split
    have same : ((ds ++ '\x7d' :: more) ++ tail).takeWhile (Reading.isDigitOf 16) = ds := by
      rw [List.append_assoc]
      exact takeWhile_append inside (by simp; decide)
    rw [List.cons_append, Token.codePoint?.eq_def]
    simp only [same, fits, if_false, Bool.false_eq_true]
    simp
  · next a b c d rest no_brace =>
    split_ifs at read with hex
    cases read
    exact ⟨by simp [Token.codePoint?.eq_2 _ _ _ _ _ no_brace, hex], by simp⟩
  · cases read

/-! ## Names -/

/-- A name that ends with its text ends there before every text that does not go on a name. -/
theorem nameRest_append (ends : EndsName tail) (fits : skip ≤ cs.length)
    (read : Token.nameRest skip start cs = some (letters, cs.length, isEscaped)) :
    Token.nameRest skip start (cs ++ tail) = some (letters, cs.length, isEscaped) := by
  induction cs generalizing skip start letters isEscaped with
  | nil =>
    obtain rfl : skip = 0 := by simpa using fits
    cases tail with
    | nil => exact read
    | cons c tail =>
      obtain ⟨no_part, no_escape⟩ := ends c rfl
      rw [← read, List.nil_append, Token.nameRest.eq_def]
      cases start <;> simp [no_escape, no_part, ends.not_start, Token.nameRest]
  | cons c cs ih =>
    have onward : ∀ {skip : Nat} {start : Bool}
        {f : List Char × Nat × Bool → List Char × Nat × Bool}, (∀ r, (f r).2.1 = r.2.1 + 1) →
        skip ≤ cs.length →
        (Token.nameRest skip start cs).map f = some (letters, (c :: cs).length, isEscaped) →
        (Token.nameRest skip start (cs ++ tail)).map f
          = some (letters, (c :: cs).length, isEscaped) := by
      intro skip start f counts fits found
      obtain ⟨⟨ls, n, e⟩, inner, done⟩ := Option.map_eq_some_iff.1 found
      obtain rfl : n = cs.length := by
        have := counts (ls, n, e)
        rw [done] at this
        simpa using this.symm
      rw [ih fits inner]
      exact congrArg some done
    rw [Token.nameRest.eq_def] at read
    rw [List.cons_append, Token.nameRest.eq_def]
    cases skip with
    | succ skip => exact onward (fun _ => rfl) (by simpa using fits) read
    | zero =>
      simp only at read ⊢
      generalize (if start = true then Text.isIdentifierStart else Text.isIdentifierPart) = isMember
        at read ⊢
      by_cases escape : c = '\\'
      · simp only [if_pos escape] at read ⊢
        split at read
        · next more =>
          cases point : Token.codePoint? more with
          | none => simp [point] at read
          | some found =>
            obtain ⟨same, within⟩ := codePoint_append point tail
            simp only [point] at read
            simp only [List.cons_append, same]
            split_ifs at read with member
            rw [if_pos member]
            exact onward (fun _ => rfl) (Nat.succ_le_succ within) read
        · cases read
      · simp only [if_neg escape] at read ⊢
        split_ifs at read with member
        · rw [if_pos member]
          exact onward (fun _ => rfl) (Nat.zero_le _) read
        · cases read

variable {text : List Char} {n : String}

theorem IsIdentifier.starts (h : IsIdentifier text n isEscaped) :
    ∃ c rest, text = c :: rest ∧ (Text.isIdentifierStart c = true ∨ c = '\\') := by
  obtain ⟨filled, reads⟩ := h
  cases text with
  | nil => exact absurd rfl filled
  | cons c rest =>
    refine ⟨c, rest, rfl, ?_⟩
    by_contra other
    rw [not_or] at other
    rw [Token.nameRest.eq_def] at reads
    simp [other] at reads

theorem IsIdentifier.lexes (h : IsIdentifier text n isEscaped) (ends : EndsName tail) :
    Lexeme.Lexes ⟨[], text, .name n isEscaped⟩ tail := by
  obtain ⟨c, rest, rfl, start⟩ := h.starts
  have whole := nameRest_append ends (Nat.zero_le _) h.reads
  have facts : Token.isGap c = false ∧ c ≠ '/' := by
    rcases start with start | rfl
    · exact ⟨(start_solid start).1, (start_solid start).2.2⟩
    · decide
  have code : Place.comment? (c :: (rest ++ tail)) = none := by
    rw [Place.comment?.eq_def]
    split
    · simp_all
    · simp_all
    · rfl
  refine ⟨by simp, c, rest, rfl, facts.1, code, ?_⟩
  rw [List.cons_append] at whole
  simp [Token.next, start, whole]

end EggLang.Script
