import EggLang.Proofs.Script.Identifier

/-!
# Signs and points
-/

namespace EggLang.Script

/-- A minus sign before what makes no longer mark of it. -/
theorem lexes_minus {c : Char} (other : c ≠ '-' ∧ c ≠ '=') (s : List Char) :
    (markLexeme "-").Lexes (c :: s) := by
  refine ⟨by simp [markLexeme], '-', [], rfl, rfl, rfl, ?_⟩
  have read : Token.mark? ('-' :: c :: s) = some "-" := by
    simp [Token.mark?, Token.marks, other.1.symm, other.2.symm, List.isPrefixOf]
  have solid : Text.isIdentifierStart '-' = false := by decide
  have no_quote : '-' ≠ Token.backquoteChar := by decide
  simp [Token.next, solid, no_quote, read, markLexeme]
  decide

theorem IsIdentifier.first {text : List Char} {n : String} {isEscaped : Bool}
    (h : IsIdentifier text n isEscaped) :
    ∃ c rest, text = c :: rest ∧ c.isDigit = false ∧ c ≠ '.' := by
  obtain ⟨c, rest, rfl, start | rfl⟩ := h.starts
  · refine ⟨c, rest, rfl, ?_, ?_⟩
    · by_contra digit
      rw [(digitFacts (Bool.not_eq_false _ ▸ digit)).no_start] at start
      cases start
    · rintro rfl
      revert start
      decide
  · exact ⟨'\\', rest, rfl, by decide, by decide⟩

theorem lexes_point {c : Char} (digit : c.isDigit = false) (other : c ≠ '.') (s : List Char) :
    (markLexeme ".").Lexes (c :: s) := by
  refine ⟨by simp [markLexeme], '.', [], rfl, rfl, rfl, ?_⟩
  have read : Token.mark? ('.' :: c :: s) = some "." := by
    simp [Token.mark?, Token.marks, other.symm, List.isPrefixOf]
  have solid : Text.isIdentifierStart '.' = false := by decide
  have no_quote : '.' ≠ Token.backquoteChar := by decide
  simp [Token.next, solid, no_quote, read, markLexeme, digit]
  decide

theorem IsIdentifier.lexes_point {text : List Char} {n : String} {isEscaped : Bool}
    (h : IsIdentifier text n isEscaped)
    (s : List Char) : (markLexeme ".").Lexes (text ++ s) := by
  obtain ⟨c, rest, rfl, digit, other⟩ := h.first
  exact EggLang.Script.lexes_point digit other (rest ++ s)

/-! ## A name behind the point of a number -/

/-- A text that begins with no sign. -/
def Unsigned (s : List Char) : Prop := ∀ c ∈ s.head?, c ≠ '+' ∧ c ≠ '-'

variable {cs text tail : List Char} {k : Nat}

theorem run_ends {p : Char → Bool} (ends : ∀ c ∈ tail.head?, p c = false) (cs : List Char) :
    Token.run p (cs ++ tail) = Token.run p cs := by
  unfold Token.run
  induction cs with
  | nil =>
    cases tail with
    | nil => rfl
    | cons c tail => simp [ends c rfl]
  | cons c cs ih =>
    rw [List.cons_append, List.takeWhile_cons, List.takeWhile_cons]
    split
    · rw [List.length_cons, List.length_cons, ih]
    · rfl

/-- An exponent is read before a text that does not go on it. -/
theorem exponentLength_ends (filled : cs ≠ []) (ends : EndsName tail) (unsigned : Unsigned tail) :
    Token.exponentLength? (cs ++ tail) = Token.exponentLength? cs := by
  obtain ⟨e, rest, rfl⟩ := List.exists_cons_of_ne_nil filled
  simp only [List.cons_append, Token.exponentLength?]
  split
  · cases rest with
    | nil =>
      cases tail with
      | nil => rfl
      | cons c tail =>
        obtain ⟨plus, minus⟩ := unsigned c rfl
        have digit := ends.not_digit c rfl
        simp [plus, minus, Token.run, digit]
    | cons c rest =>
      have dropped : ∀ n ≤ 1, (c :: rest ++ tail).drop n = (c :: rest).drop n ++ tail := by
        intro n small
        rw [List.drop_append_of_le_length (by simp; omega)]
      simp only [List.cons_append] at dropped ⊢
      split
      · rw [dropped 1 (by omega), run_ends ends.not_digit]
      · rw [dropped 0 (by omega), run_ends ends.not_digit]
  · rfl

theorem take_run (p : Char → Bool) (cs : List Char) :
    cs.take (Token.run p cs) = cs.takeWhile p :=
  (List.prefix_iff_eq_take.1 (List.takeWhile_prefix p)).symm

theorem run_le (p : Char → Bool) (cs : List Char) : Token.run p cs ≤ cs.length :=
  (List.takeWhile_prefix p).length_le

/-- Digits are no escapes. -/
theorem take_digits (cs : List Char) : ∀ c ∈ cs.take (Token.run Char.isDigit cs), c ≠ '\\' := by
  intro c mem
  rw [take_run] at mem
  exact (digitFacts (List.mem_takeWhile_imp mem)).no_escape

/-- An exponent has no escapes. -/
theorem exponentLength_some (read : Token.exponentLength? cs = some k) :
    k ≤ cs.length ∧ ∀ c ∈ cs.take k, c ≠ '\\' := by
  cases cs with
  | nil =>
    cases read
    simp
  | cons e rest =>
    by_cases letter : (e = 'e' || e = 'E') = true
    · have first : e ≠ '\\' := by
        rintro rfl
        revert letter
        decide
      have behind (n : Nat) (within : n ≤ rest.length) (plain : ∀ c ∈ rest.take n, c ≠ '\\')
          (whole : (if Token.run Char.isDigit (rest.drop n) = 0 then none
            else some (1 + n + Token.run Char.isDigit (rest.drop n))) = some k) :
          k ≤ (e :: rest).length ∧ ∀ c ∈ (e :: rest).take k, c ≠ '\\' := by
        have digits := take_digits (rest.drop n)
        have fits := run_le Char.isDigit (rest.drop n)
        split at whole
        · cases whole
        · cases whole
          rw [List.length_drop] at fits
          rw [Nat.add_assoc, Nat.add_comm 1, List.take_succ_cons, List.take_add]
          refine ⟨by simp; omega, ?_⟩
          simp only [List.mem_cons, List.mem_append]
          rintro c (rfl | mem | mem)
          · exact first
          · exact plain c mem
          · exact digits c mem
      simp only [Token.exponentLength?, letter, if_true] at read
      cases rest with
      | nil => exact behind 0 (by simp) (by simp) read
      | cons c rest =>
        by_cases signed : (c = '+' || c = '-') = true
        · refine behind 1 (by simp) ?_ (by simpa [signed] using read)
          intro d mem
          obtain rfl : d = c := by simpa using mem
          rintro rfl
          revert signed
          decide
        · exact behind 0 (by simp) (by simp) (by simpa [signed] using read)
    · rw [Token.exponentLength?.eq_def] at read
      simp only [letter, Bool.false_eq_true, if_false, Option.some.injEq] at read
      subst read
      simp

/-- Each character of a name, up to the first escape, is one that a name has. -/
theorem nameRest_front {front : List Char} {d : Char} {letters : List Char} {start isEscaped : Bool}
    (reads : Token.nameRest 0 start (front ++ d :: tail)
      = some (letters, (front ++ d :: tail).length, isEscaped))
    (plain : ∀ c ∈ front, c ≠ '\\') : d = '\\' ∨ Text.isIdentifierPart d = true := by
  induction front generalizing start letters isEscaped with
  | nil =>
    by_contra other
    rw [not_or] at other
    have no_part : Text.isIdentifierPart d = false := by simpa using other.2
    have no_start : Text.isIdentifierStart d = false := by
      by_contra start
      exact other.2 (part_of_start (Bool.not_eq_false _ ▸ start))
    rw [List.nil_append, Token.nameRest.eq_def] at reads
    cases start <;> simp [other.1, no_part, no_start] at reads
  | cons c front ih =>
    have first := plain c List.mem_cons_self
    rw [List.cons_append, Token.nameRest.eq_def] at reads
    by_cases member : (if start then Text.isIdentifierStart else Text.isIdentifierPart) c = true
    · simp only [first, if_false, member, if_true] at reads
      obtain ⟨⟨cs, n, e⟩, rest, same⟩ := Option.map_eq_some_iff.1 reads
      simp only [Prod.mk.injEq, List.length_cons, Nat.add_right_cancel_iff] at same
      obtain ⟨-, rfl, -⟩ := same
      exact ih rest fun c mem => plain c (List.mem_cons_of_mem _ mem)
    · simp only [first, if_false, member] at reads
      simp at reads

/-- No mark begins beyond ASCII. -/
theorem mark_wide {d : Char} (wide : 128 ≤ d.toNat) : Token.mark? (d :: tail) = none := by
  have ascii : ∀ m ∈ Token.marks, ∃ c cs, m.toList = c :: cs ∧ c.toNat < 128 := by
    intro m mem
    have known : ∀ m ∈ Token.marks, (m.toList.head?.any fun c => c.toNat < 128) = true := by decide
    have first := known m mem
    cases spelled : m.toList with
    | nil => simp [spelled] at first
    | cons c cs => exact ⟨c, cs, rfl, by simpa [spelled] using first⟩
  rw [Token.mark?, List.find?_eq_none]
  intro m mem
  obtain ⟨c, cs, spelled, small⟩ := ascii m mem
  have other : c ≠ d := by
    rintro rfl
    omega
  simp [spelled, List.isPrefixOf, other]

/-- The characters that only go on a name begin no token. -/
theorem part_illegal {d : Char} (part : Text.isIdentifierPart d = true)
    (other : Text.isIdentifierStart d = false ∧ d.isDigit = false) (tail : List Char) :
    Lexeme.Lexes ⟨[], [d], .illegal⟩ tail := by
  have wide : 128 ≤ d.toNat := by
    by_contra ascii
    have small : d.toNat < 0x80 := by omega
    simp only [Text.isIdentifierPart, Text.isIdentifierStart, small, if_true, Char.isAlphanum]
      at part other
    simp_all
  have different : ∀ c : Char, c.toNat < 128 → d ≠ c := by
    rintro c small rfl
    omega
  have solid : Token.isGap d = false := by
    by_contra gap
    have mem := gap_wide (Bool.not_eq_false _ ▸ gap) wide
    have mark : ∀ n ∈ wideBlanks, Text.toggled Text.identifierMarkToggles n = false := by
      decide +kernel
    have large : ¬ d.toNat < 0x80 := by omega
    simp [Text.isIdentifierPart, large, wide_not_start _ mem, mark _ mem] at part
  have slash := different '/' (by decide)
  refine ⟨by simp, d, [], rfl, solid, ?_, ?_⟩
  · rw [Place.comment?.eq_def]
    split <;> simp_all
  · have escape := different '\\' (by decide)
    have point := different '.' (by decide)
    have double := different '"' (by decide)
    have single := different '\'' (by decide)
    have template := different Token.backquoteChar (by decide)
    simp [Token.next, other, escape, point, double, single, template, mark_wide wide]

theorem IsNumeral.first_digits (h : IsNumeral cs) (digits : ∀ c ∈ cs, c.isDigit = true) :
    cs = ['0'] ∨ ∃ d ds, cs = d :: ds ∧ d ≠ '0' := by
  obtain ⟨whole, fraction, exponent, rfl, first, -, fraction_digits, exponent_digits⟩ := h
  rcases first with rfl | ⟨d, ds, rfl, nonzero⟩
  · left
    rcases fraction_digits with rfl | ⟨ds, rfl, -⟩
    · rcases exponent_digits with rfl | ⟨sign, ds, rfl, -⟩
      · rfl
      · exact absurd (digits 'e' (by simp)) (by decide)
    · exact absurd (digits '.' (by simp)) (by decide)
  · exact .inr ⟨d, _, rfl, nonzero⟩

/-- How the text of a whole number with a name behind its point begins: the name makes no number of
it, or it is an exponent, or it has an exponent in front of characters that begin no token. -/
inductive Pointed (text : List Char) : Prop where
  | illegal (reads : ∀ s, EndsName s → Unsigned s → Token.number? (text ++ s) = none)
  | whole (x : Numeric) (reads : ∀ s, EndsName s → Unsigned s →
      Token.number? (text ++ s) = some (x, text.length))
  | cut (x : Numeric) (start rest : List Char) (d : Char) (split : text = start ++ d :: rest)
      (filled : start ≠ []) (part : Text.isIdentifierPart d = true)
      (other : Text.isIdentifierStart d = false ∧ d.isDigit = false)
      (reads : ∀ s, EndsName s → Unsigned s → Token.number? (text ++ s) = some (x, start.length))

/-- Before a text that ends the name, a whole number with a name behind its point is read by the
exponent that the name begins with; what is left of the name must not go on as a name or a
number. -/
theorem number_pointed {n : String} {isEscaped : Bool} {s : List Char} (h : IsNumeral cs)
    (digits : ∀ c ∈ cs, c.isDigit = true) (name : IsIdentifier text n isEscaped)
    (ends : EndsName s) (unsigned : Unsigned s) :
    Token.number? ((cs ++ '.' :: text) ++ s) = (Token.exponentLength? text).bind fun k =>
      (Reading.decimalLiteral? ((cs ++ '.' :: text).take (cs.length + 1 + k))).bind fun x =>
        if (text.drop k ++ s).head?.any fun d =>
          Text.isIdentifierStart d || d = '\\' || d.isDigit then none
        else some (x, cs.length + 1 + k) := by
  have head : ∀ c rest, (cs ++ '.' :: text) ++ s = '0' :: c :: rest → c = '.' ∨ c = 'e' := by
    intro c rest same
    rcases h.first_digits digits with rfl | ⟨d, ds, rfl, nonzero⟩
    · simp only [List.cons_append, List.nil_append, List.cons.injEq] at same
      exact .inl same.2.1.symm
    · exact absurd (List.cons.inj same).1 nonzero
  have no_digit : ∀ c ∈ (text ++ s).head?, c.isDigit = false := by
    obtain ⟨c, rest, rfl, digit, -⟩ := name.first
    intro d mem
    obtain rfl : c = d := by simpa using mem
    exact digit
  have text_eq : (cs ++ '.' :: text) ++ s = cs ++ (['.'] ++ (text ++ s)) := by simp
  rw [number_eq head, text_eq, decimal_point digits (.inr ⟨[], rfl, by simp⟩) no_digit (by simp),
    exponentLength_ends name.filled ends unsigned, ← text_eq]
  cases exponent : Token.exponentLength? text with
  | none => rfl
  | some k =>
    obtain ⟨within, -⟩ := exponentLength_some exponent
    have size : (cs ++ '.' :: text).length = cs.length + 1 + text.length := by simp; omega
    have taken : ((cs ++ '.' :: text) ++ s).take (cs.length + 1 + k)
        = (cs ++ '.' :: text).take (cs.length + 1 + k) :=
      List.take_append_of_le_length (by omega)
    have dropped : ((cs ++ '.' :: text) ++ s).drop (cs.length + 1 + k) = text.drop k ++ s := by
      rw [List.drop_append_of_le_length (by omega), Nat.add_assoc, ← List.drop_drop, List.drop_left,
        Nat.add_comm, List.drop_succ_cons]
    simp only [Option.bind_some, List.length_singleton, taken]
    cases Reading.decimalLiteral? _ with
    | none => rfl
    | some x => simp only [Option.bind_some, dropped]

theorem pointed_number {n : String} {isEscaped : Bool} (h : IsNumeral cs)
    (digits : ∀ c ∈ cs, c.isDigit = true) (name : IsIdentifier text n isEscaped) :
    Pointed (cs ++ '.' :: text) := by
  have reads (s : List Char) (ends : EndsName s) (unsigned : Unsigned s) :=
    number_pointed h digits name ends unsigned
  cases exponent : Token.exponentLength? text with
  | none =>
    refine .illegal fun s ends unsigned => ?_
    rw [reads s ends unsigned, exponent, Option.bind_none]
  | some k =>
    cases value : Reading.decimalLiteral? ((cs ++ '.' :: text).take (cs.length + 1 + k)) with
    | none =>
      refine .illegal fun s ends unsigned => ?_
      rw [reads s ends unsigned, exponent, Option.bind_some, value, Option.bind_none]
    | some x =>
      have found (s : List Char) (ends : EndsName s) (unsigned : Unsigned s) :
          Token.number? ((cs ++ '.' :: text) ++ s) = if (text.drop k ++ s).head?.any fun d =>
              Text.isIdentifierStart d || d = '\\' || d.isDigit then none
            else some (x, cs.length + 1 + k) := by
        rw [reads s ends unsigned, exponent, Option.bind_some, value, Option.bind_some]
      obtain ⟨within, plain⟩ := exponentLength_some exponent
      cases left : text.drop k with
      | nil =>
        have whole : k = text.length := Nat.le_antisymm within (List.drop_eq_nil_iff.1 left)
        have size : (cs ++ '.' :: text).length = cs.length + 1 + k := by simp; omega
        refine .whole x fun s ends unsigned => ?_
        rw [found s ends unsigned, left, List.nil_append, size]
        cases next : s.head? with
        | none => rfl
        | some d => simp [ends.ends_number d next]
      | cons d rest =>
        by_cases goes : (Text.isIdentifierStart d || d = '\\' || d.isDigit) = true
        · refine .illegal fun s ends unsigned => ?_
          rw [found s ends unsigned, left]
          simp only [List.cons_append, List.head?_cons, Option.any_some, goes, if_true]
        · have joined : text = text.take k ++ d :: rest := by
            rw [← left, List.take_append_drop]
          have part := nameRest_front (joined ▸ name.reads) plain
          simp only [Bool.or_eq_true, decide_eq_true_eq, not_or, Bool.not_eq_true] at goes
          have length : (cs ++ '.' :: text.take k).length = cs.length + 1 + k := by
            simp
            omega
          refine .cut x (cs ++ '.' :: text.take k) rest d ?_ (by simp) (part.resolve_left goes.1.2)
            ⟨goes.1.1, goes.2⟩ fun s ends unsigned => ?_
          · rw [List.append_assoc, List.cons_append, ← joined]
          · rw [found s ends unsigned, left, length]
            simp [goes]

end EggLang.Script
