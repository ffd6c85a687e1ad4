import EggLang.Proofs.Number.Digits
import EggLang.Proofs.Script.Spelling

/-!
# Numerals

The texts of numbers in generated code: digits that do not start with a zero in vain, maybe with a
fraction and an exponent. Each is read as a number before every text that ends it.
-/

namespace EggLang.Script

/-- The digits of a fraction behind their point, or nothing. -/
def IsFraction (cs : List Char) : Prop :=
  cs = [] ∨ ∃ ds, cs = '.' :: ds ∧ ∀ d ∈ ds, d.isDigit = true

/-- An exponent with its sign, or nothing. -/
def IsExponent (cs : List Char) : Prop :=
  cs = [] ∨ ∃ sign ds, cs = 'e' :: sign :: ds ∧ (sign = '+' ∨ sign = '-') ∧ ds ≠ []
    ∧ ∀ d ∈ ds, d.isDigit = true

/-- The text of a number. -/
structure IsNumeral (cs : List Char) : Prop where
  parts : ∃ whole fraction exponent, cs = whole ++ (fraction ++ exponent)
    ∧ (whole = ['0'] ∨ ∃ d ds, whole = d :: ds ∧ d ≠ '0') ∧ (∀ d ∈ whole, d.isDigit = true)
    ∧ IsFraction fraction ∧ IsExponent exponent

/-! ## Digits -/

/-- What is known of each digit. -/
structure DigitFacts (c : Char) : Prop where
  solid : Token.isGap c = false
  no_start : Text.isIdentifierStart c = false
  part : Text.isIdentifierPart c = true
  no_slash : c ≠ '/'
  no_escape : c ≠ '\\'
  decimal : Reading.isDigitOf 10 c = true

theorem digitFacts {c : Char} (h : c.isDigit = true) : DigitFacts c := by
  have all : ∀ n : Fin 128, (Char.ofNat n).isDigit = true →
      Token.isGap (Char.ofNat n) = false ∧ Text.isIdentifierStart (Char.ofNat n) = false
        ∧ Text.isIdentifierPart (Char.ofNat n) = true ∧ Char.ofNat n ≠ '/' ∧ Char.ofNat n ≠ '\\'
        ∧ Reading.isDigitOf 10 (Char.ofNat n) = true := by
    decide
  have below : c.toNat < 128 := by
    have : c.toNat ≤ 57 := (Char.isDigit_iff_toNat.1 h).2
    omega
  have facts := all ⟨c.toNat, below⟩
  rw [Char.ofNat_toNat] at facts
  obtain ⟨solid, no_start, part, no_slash, no_escape, decimal⟩ := facts h
  exact { solid, no_start, part, no_slash, no_escape, decimal }

theorem part_of_start {c : Char} (h : Text.isIdentifierStart c = true) :
    Text.isIdentifierPart c = true := by
  by_cases ascii : c.toNat < 0x80
  · simp only [Text.isIdentifierStart, Text.isIdentifierPart, ascii, if_true, Char.isAlphanum,
      Bool.or_eq_true] at h ⊢
    tauto
  · simp only [Text.isIdentifierStart, Text.isIdentifierPart, ascii, if_false] at h ⊢
    simp [h]

/-- A text behind which a number ends: a point does not go on one with a fraction or an exponent. -/
structure EndsNumber (cs tail : List Char) : Prop where
  ends : EndsName tail
  noPoint : (∀ c ∈ cs, c.isDigit = true) → ∀ c ∈ tail.head?, c ≠ '.'

theorem Calm.endsNumber {tail : List Char} (h : Calm tail) (cs : List Char) :
    EndsNumber cs tail :=
  ⟨h.endsName, fun _ c mem => (h c mem).2.2⟩

/-- No digit goes on a name. -/
theorem EndsName.not_digit {tail : List Char} (h : EndsName tail) :
    ∀ c ∈ tail.head?, c.isDigit = false := by
  intro c mem
  by_contra digit
  have part := (digitFacts (Bool.not_eq_false _ ▸ digit)).part
  simp [(h c mem).1] at part

theorem takeWhile_append {p : Char → Bool} {cs tail : List Char} (inside : ∀ c ∈ cs, p c = true)
    (ends : ∀ c ∈ tail.head?, p c = false) : (cs ++ tail).takeWhile p = cs := by
  rw [List.takeWhile_append_of_pos inside]
  cases tail with
  | nil => simp
  | cons c tail => simp [ends c rfl]

theorem run_append {p : Char → Bool} {cs tail : List Char} (inside : ∀ c ∈ cs, p c = true)
    (ends : ∀ c ∈ tail.head?, p c = false) : Token.run p (cs ++ tail) = cs.length := by
  rw [Token.run, takeWhile_append inside ends]

/-! ## The parts of a number -/

variable {cs tail : List Char}

theorem IsExponent.head (h : IsExponent cs) (ends : ∀ c ∈ tail.head?, c.isDigit = false) :
    ∀ c ∈ (cs ++ tail).head?, c.isDigit = false := by
  intro c mem
  rcases h with rfl | ⟨sign, ds, rfl, -⟩
  · exact ends c mem
  · obtain rfl : 'e' = c := by simpa using mem
    decide

theorem IsFraction.head (h : IsFraction cs) (ends : ∀ c ∈ tail.head?, c.isDigit = false) :
    ∀ c ∈ (cs ++ tail).head?, c.isDigit = false := by
  intro c mem
  rcases h with rfl | ⟨ds, rfl, -⟩
  · exact ends c mem
  · obtain rfl : '.' = c := by simpa using mem
    decide

theorem exponentLength_append (h : IsExponent cs) (ends : EndsName tail) :
    Token.exponentLength? (cs ++ tail) = some cs.length := by
  rcases h with rfl | ⟨sign, ds, rfl, signs, nonempty, digits⟩
  · cases tail with
    | nil => rfl
    | cons c tail =>
      have part := (ends c rfl).1
      have not_e : c ≠ 'e' := by
        rintro rfl
        revert part
        decide
      have not_E : c ≠ 'E' := by
        rintro rfl
        revert part
        decide
      simp [Token.exponentLength?, not_e, not_E]
  · have count : Token.run Char.isDigit (ds ++ tail) = ds.length :=
      run_append digits ends.not_digit
    have pos : ds.length ≠ 0 := by simpa using nonempty
    have signed : (sign = '+' || sign = '-') = true := by simpa using signs
    simp only [List.cons_append, Token.exponentLength?, signed, if_true, List.drop_succ_cons,
      List.drop_zero, count, if_neg pos]
    simp
    omega

/-- What is read of a number before its exponent. -/
theorem decimal_point {whole fraction rest : List Char} (digits : ∀ d ∈ whole, d.isDigit = true)
    (h : IsFraction fraction) (no_digit : ∀ c ∈ rest.head?, c.isDigit = false)
    (no_point : fraction = [] → ∀ c ∈ rest.head?, c ≠ '.') :
    Token.decimal? (whole ++ (fraction ++ rest))
      = (Token.exponentLength? rest).bind fun n =>
        (Reading.decimalLiteral? ((whole ++ (fraction ++ rest)).take
          (whole.length + fraction.length + n))).bind fun x =>
            some (x, whole.length + fraction.length + n) := by
  have count : Token.run Char.isDigit (whole ++ (fraction ++ rest)) = whole.length :=
    run_append digits (h.head no_digit)
  have exponent_rest : (whole ++ (fraction ++ rest)).drop (whole.length + fraction.length)
      = rest := by
    rw [← List.length_append, ← List.append_assoc, List.drop_left]
  have size : ∀ n, n = fraction.length →
      ((Token.exponentLength? ((whole ++ (fraction ++ rest)).drop (whole.length + n))).bind
        fun m => (Reading.decimalLiteral? ((whole ++ (fraction ++ rest)).take
          (whole.length + n + m))).bind fun x => some (x, whole.length + n + m))
      = (Token.exponentLength? rest).bind fun m =>
        (Reading.decimalLiteral? ((whole ++ (fraction ++ rest)).take
          (whole.length + fraction.length + m))).bind fun x =>
            some (x, whole.length + fraction.length + m) := by
    rintro _ rfl
    rw [exponent_rest]
  simp only [Token.decimal?, count, List.drop_left]
  refine size _ ?_
  rcases h with rfl | ⟨ds, rfl, ds_digits⟩
  · cases rest with
    | nil => rfl
    | cons c rest =>
      have other := no_point rfl c rfl
      simp only [List.nil_append]
      split
      · simp_all
      · rfl
  · have ds_count := run_append ds_digits no_digit
    simp only [List.cons_append, ds_count, List.length_cons]
    exact Nat.add_comm _ _

/-! ## Values -/

theorem exponent_some (h : IsExponent cs) (some_text : cs ≠ []) :
    (Reading.exponent? 'e' cs).isSome = true := by
  rcases h with rfl | ⟨sign, ds, rfl, signs, nonempty, digits⟩
  · exact absurd rfl some_text
  · have unsigned : (Reading.unsigned (sign :: ds)).2 = ds := by
      rcases signs with rfl | rfl <;> rfl
    have all : ds.all Char.isDigit = true := by simpa using digits
    have lower : 'e'.toLower = 'e' := by decide
    simp [Reading.exponent?, lower, unsigned, nonempty, all]

/-- A numeral has a value. -/
theorem decimalLiteral_some (h : IsNumeral cs) : ∃ x, Reading.decimalLiteral? cs = some x := by
  obtain ⟨whole, fraction, exponent, rfl, first, digits, fraction_digits, exponent_digits⟩ := h
  have decimal : ∀ {ds : List Char}, (∀ d ∈ ds, d.isDigit = true) →
      ∀ d ∈ ds, Reading.isDigitOf 10 d = true := fun all d mem => (digitFacts (all d mem)).decimal
  have exponent_head : ∀ c ∈ exponent.head?, Reading.isDigitOf 10 c = false := by
    intro c mem
    rcases exponent_digits with rfl | ⟨sign, ds, rfl, -⟩
    · simp at mem
    · obtain rfl : 'e' = c := by simpa using mem
      decide
  have fraction_head : ∀ c ∈ (fraction ++ exponent).head?, Reading.isDigitOf 10 c = false := by
    intro c mem
    rcases fraction_digits with rfl | ⟨ds, rfl, -⟩
    · exact exponent_head c mem
    · obtain rfl : '.' = c := by simpa using mem
      decide
  have nonempty : whole ≠ [] := by
    rcases first with rfl | ⟨d, ds, rfl, -⟩ <;> simp
  have split : ∃ after pointed, Reading.mantissa 10 (whole ++ (fraction ++ exponent))
      = (whole, after, pointed, exponent) := by
    rw [Reading.mantissa, takeWhile_append (decimal digits) fraction_head, List.drop_left]
    rcases fraction_digits with rfl | ⟨ds, rfl, ds_digits⟩
    · rw [List.nil_append]
      rcases exponent_digits with rfl | ⟨sign, ds, rfl, -⟩ <;> exact ⟨_, _, rfl⟩
    · simp only [List.cons_append, takeWhile_append (decimal ds_digits) exponent_head,
        List.drop_left]
      exact ⟨_, _, rfl⟩
  obtain ⟨after, pointed, split⟩ := split
  have scale : ∃ e, (if exponent.isEmpty then some 0 else Reading.exponent? 'e' exponent)
      = some e := by
    by_cases none : exponent = []
    · exact ⟨0, by simp [none]⟩
    · obtain ⟨e, found⟩ := Option.isSome_iff_exists.1 (exponent_some exponent_digits none)
      exact ⟨e, by simp [none, found]⟩
  obtain ⟨e, scale⟩ := scale
  rw [Reading.decimalLiteral?]
  split
  · exact ⟨_, rfl⟩
  · have some_digits : (whole.isEmpty && after.isEmpty) = false := by simp [nonempty]
    simp only [Reading.decimal?, split, some_digits, scale]
    exact ⟨_, rfl⟩

/-! ## Reading -/

theorem decimal_append (h : IsNumeral cs) (ends : EndsNumber cs tail) {x : Numeric}
    (value : Reading.decimalLiteral? cs = some x) :
    Token.decimal? (cs ++ tail) = some (x, cs.length) := by
  obtain ⟨whole, fraction, exponent, rfl, -, digits, fraction_digits, exponent_digits⟩ := h
  have size : whole.length + fraction.length + exponent.length
      = (whole ++ (fraction ++ exponent)).length := by simp [Nat.add_assoc]
  have joined : whole ++ (fraction ++ (exponent ++ tail))
      = (whole ++ (fraction ++ exponent)) ++ tail := by simp
  have no_point : fraction = [] → ∀ c ∈ (exponent ++ tail).head?, c ≠ '.' := by
    rintro rfl c mem
    rcases exponent_digits with rfl | ⟨sign, ds, rfl, -⟩
    · exact ends.noPoint (by simpa using digits) c mem
    · obtain rfl : 'e' = c := by simpa using mem
      decide
  rw [← joined, decimal_point digits fraction_digits (exponent_digits.head ends.ends.not_digit)
    no_point, exponentLength_append exponent_digits ends.ends, Option.bind_some, joined, size,
    List.take_left, value]
  rfl

/-- Nothing that must not follow a number goes on a name. -/
theorem EndsName.ends_number (h : EndsName tail) :
    ∀ d ∈ tail.head?, (Text.isIdentifierStart d || d = '\\' || d.isDigit) = false := by
  intro d mem
  obtain ⟨no_part, no_escape⟩ := h d mem
  have no_start : Text.isIdentifierStart d = false := by
    by_contra start
    simp [part_of_start (Bool.not_eq_false _ ▸ start)] at no_part
  simp [no_start, no_escape, h.not_digit d mem]

/-- A number that a zero does not make one with a base is a decimal number. -/
theorem number_eq (head : ∀ c rest, cs = '0' :: c :: rest → c = '.' ∨ c = 'e') :
    Token.number? cs = (Token.decimal? cs).bind fun r =>
      if (cs.drop r.2).head?.any fun d => Text.isIdentifierStart d || d = '\\' || d.isDigit
      then none else some r := by
  rw [Token.number?.eq_def]
  split
  · next c rest =>
    have no_base : Reading.baseOf? c = none := by
      rcases head c rest rfl with rfl | rfl <;> rfl
    have decimal : (c = '.' || c = 'e' || c = 'E') = true := by
      rcases head c rest rfl with rfl | rfl <;> rfl
    simp only [no_base, decimal, if_true, Option.bind_eq_bind]
    congr 1
    funext r
    cases (List.drop r.2 ('0' :: c :: rest)).head? with
    | none => rfl
    | some d =>
      simp only [Option.any_some]
      split <;> rfl
  · simp only [Option.bind_eq_bind]
    congr 1
    funext r
    cases (cs.drop r.2).head? with
    | none => rfl
    | some d =>
      simp only [Option.any_some]
      split <;> rfl

theorem number_of_decimal {x : Numeric} {n : Nat}
    (head : ∀ c rest, cs = '0' :: c :: rest → c = '.' ∨ c = 'e')
    (read : Token.decimal? cs = some (x, n)) (whole : EndsName (cs.drop n)) :
    Token.number? cs = some (x, n) := by
  have ends := whole.ends_number
  rw [number_eq head, read, Option.bind_some]
  cases next : (cs.drop n).head? with
  | none => rfl
  | some d => simp [ends d next]

theorem digit_of_octal {c : Char} (h : Reading.isDigitOf 8 c = true) : c.isDigit = true := by
  by_contra no_digit
  simp only [Reading.isDigitOf, Reading.digitValue, no_digit, decide_eq_true_eq] at h
  by_cases lower : c.isLower = true
  · have large : 97 ≤ c.toNat := by
      obtain ⟨least, -⟩ := Bool.and_eq_true_iff.1 lower
      exact UInt32.le_iff_toNat_le.1 (of_decide_eq_true least)
    simp only [lower, if_true, if_false] at h
    omega
  · by_cases upper : c.isUpper = true
    · have large : 65 ≤ c.toNat := by
        have bounds : c.val ≥ 'A'.val ∧ c.val ≤ 'Z'.val := of_decide_eq_true upper
        exact UInt32.le_iff_toNat_le.1 bounds.1
      simp only [lower, upper, if_true, Bool.false_eq_true, if_false] at h
      omega
    · simp [lower, upper] at h

theorem baseOf_none {c : Char} (h : Text.isIdentifierPart c = false) :
    Reading.baseOf? c = none := by
  have all : ∀ n : Fin 128, Text.isIdentifierPart (Char.ofNat n) = false →
      Reading.baseOf? (Char.ofNat n) = none := by
    decide
  by_cases ascii : c.toNat < 128
  · have fact := all ⟨c.toNat, ascii⟩
    rw [Char.ofNat_toNat] at fact
    exact fact h
  · have same : c.toLower = c := by
      refine dif_neg ?_
      rintro ⟨-, below⟩
      have : c.toNat ≤ 90 := below
      omega
    rw [Reading.baseOf?.eq_def, same]
    split
    · exact absurd (by decide) ascii
    · exact absurd (by decide) ascii
    · exact absurd (by decide) ascii
    · rfl

/-- A zero in front of a text that ends it. -/
theorem number_zero (calm : Calm tail) : Token.number? ('0' :: tail) = some (.ofInt 0, 1) := by
  cases tail with
  | nil => rfl
  | cons c tail =>
    have ends := calm.endsName.ends_number c rfl
    obtain ⟨no_part, -, no_point⟩ := calm c rfl
    have other : ∀ {d : Char}, Text.isIdentifierPart d = true → c ≠ d := by
      rintro d part rfl
      simp [no_part] at part
    have octal : Reading.isDigitOf 8 c = false := by
      by_contra digit
      simp [(digitFacts (digit_of_octal (Bool.not_eq_false _ ▸ digit))).part] at no_part
    have not_e : c ≠ 'e' := other (by decide)
    have not_E : c ≠ 'E' := other (by decide)
    have zero : Reading.isDigitOf 8 '0' = true := by decide
    have decimal : (c = '.' || c = 'e' || c = 'E') = false := by simp [no_point, not_e, not_E]
    have digits : List.takeWhile (Reading.isDigitOf 8) ('0' :: c :: tail) = ['0'] := by
      simp [zero, octal]
    rw [Token.number?.eq_def]
    simp only [baseOf_none no_part, decimal, digits, Bool.false_eq_true, if_false,
      Option.bind_eq_bind, Option.bind_some, List.length_cons, List.length_nil, List.drop_succ_cons,
      List.drop_zero, List.head?_cons, ends]
    rfl

theorem number_append (h : IsNumeral cs) (ends : EndsNumber cs tail) {x : Numeric}
    (value : Reading.decimalLiteral? cs = some x) :
    Token.number? (cs ++ tail) = some (x, cs.length) := by
  have read := decimal_append h ends value
  have rest : EndsName ((cs ++ tail).drop cs.length) := by
    rw [List.drop_left]
    exact ends.ends
  obtain ⟨whole, fraction, exponent, split, first, digits, fraction_digits, exponent_digits⟩ := h
  rcases first with rfl | ⟨d, ds, rfl, nonzero⟩
  · by_cases alone : fraction ++ exponent = []
    · have zero : cs = ['0'] := by rw [split, alone]; rfl
      subst zero
      have same : Reading.decimalLiteral? ['0'] = some (.ofInt 0) := rfl
      rw [same] at value
      cases value
      exact number_zero fun c mem =>
        ⟨(ends.ends c mem).1, (ends.ends c mem).2,
          ends.noPoint (List.forall_mem_singleton.2 rfl) c mem⟩
    · refine number_of_decimal (fun c more same => ?_) read rest
      have head : c ∈ (fraction ++ exponent).head? := by
        have after : fraction ++ exponent ++ tail = c :: more := by
          simpa [split] using same
        cases second : fraction ++ exponent with
        | nil => exact absurd second alone
        | cons d ds =>
          rw [second, List.cons_append] at after
          cases after
          rfl
      rcases fraction_digits with rfl | ⟨ds, rfl, -⟩
      · rcases exponent_digits with rfl | ⟨sign, ds, rfl, -⟩
        · simp at head
        · exact .inr (by simpa using head.symm)
      · exact .inl (by simpa using head.symm)
  · refine number_of_decimal (fun c more same => ?_) read rest
    rw [split] at same
    exact absurd (List.cons.inj same).1 nonzero

/-- A numeral is read as its value before every text that ends a number. -/
theorem lexes_value (h : IsNumeral cs) {x : Numeric}
    (value : Reading.decimalLiteral? cs = some x) (ends : EndsNumber cs tail) :
    Lexeme.Lexes ⟨[], cs, .number x⟩ tail := by
  refine ⟨by simp, ?_⟩
  have read := number_append h ends value
  obtain ⟨whole, fraction, exponent, split, first, digits, -⟩ := h
  obtain ⟨c, ds, rfl⟩ : ∃ c ds, whole = c :: ds := by
    rcases first with rfl | ⟨d, ds, rfl, -⟩
    · exact ⟨_, _, rfl⟩
    · exact ⟨d, ds, rfl⟩
  have digit := digits c List.mem_cons_self
  obtain ⟨solid, no_start, -, no_slash, no_escape, -⟩ := digitFacts digit
  refine ⟨c, ds ++ (fraction ++ exponent), split, solid, ?_, ?_⟩
  · rw [Place.comment?.eq_def]
    split <;> simp_all
  · have whole_text : c :: (ds ++ (fraction ++ exponent) ++ tail) = cs ++ tail := by
      rw [split]
      rfl
    simp only [Token.next, no_start, no_escape, digit, whole_text, read]
    rfl

/-- The written token of a number. -/
theorem lexes_numeral (h : IsNumeral cs) :
    ∃ x, ∀ tail, EndsNumber cs tail → Lexeme.Lexes ⟨[], cs, .number x⟩ tail := by
  obtain ⟨x, value⟩ := decimalLiteral_some h
  exact ⟨x, fun tail ends => lexes_value h value ends⟩

/-! ## Whole numbers -/

theorem digitChar_nonzero {n : Nat} (small : n < 10) (pos : 0 < n) : Nat.digitChar n ≠ '0' := by
  interval_cases n <;> decide

theorem toDigits_first {n : Nat} (pos : 0 < n) :
    ∃ c cs, Nat.toDigits 10 n = c :: cs ∧ c ≠ '0' := by
  induction n using Nat.strong_induction_on with
  | _ n ih =>
    by_cases small : n < 10
    · exact ⟨_, [], Nat.toDigits_of_lt_base small, digitChar_nonzero small pos⟩
    · obtain ⟨c, cs, front, nonzero⟩ := ih (n / 10) (by omega) (by omega)
      refine ⟨c, cs ++ [Nat.digitChar (n % 10)], ?_, nonzero⟩
      rw [Nat.toDigits_eq_if (by omega), if_neg (by omega), front]
      rfl

theorem isDigit_toDigits (n : Nat) : ∀ c ∈ Nat.toDigits 10 n, c.isDigit = true := fun _ mem =>
  Nat.isDigit_of_mem_toDigits (by decide) (by decide) mem

theorem isNumeral_toDigits (n : Nat) : IsNumeral (Nat.toDigits 10 n) := by
  refine ⟨Nat.toDigits 10 n, [], [], by simp, ?_, isDigit_toDigits n, .inl rfl, .inl rfl⟩
  rcases Nat.eq_zero_or_pos n with rfl | pos
  · exact .inl rfl
  · exact .inr (toDigits_first pos)

theorem valueOf_toDigits (n : Nat) : Reading.valueOf 10 (Nat.toDigits 10 n) = n := by
  have steps : ∀ (cs : List Char) (start : Nat), (∀ c ∈ cs, c.isDigit = true) →
      cs.foldl (fun n c => n * 10 + Reading.digitValue c) start = Nat.ofDigitChars 10 cs start := by
    intro cs start digits
    induction cs generalizing start with
    | nil => rfl
    | cons c cs ih =>
      have digit := digits c List.mem_cons_self
      rw [List.foldl_cons, Nat.ofDigitChars_cons,
        ih _ fun d mem => digits d (List.mem_cons_of_mem c mem), Reading.digitValue,
        if_pos digit, Nat.mul_comm]
      rfl
  exact (steps _ 0 (isDigit_toDigits n)).trans Nat.ofDigitChars_ten_toDigits

theorem decimalLiteral_toDigits {n : Nat} (small : n < Nat.pow 2 63) :
    Reading.decimalLiteral? (Nat.toDigits 10 n) = some (.ofInt n) := by
  have unsigned : Reading.unsigned (Nat.toDigits 10 n) = (false, Nat.toDigits 10 n) := by
    rw [Reading.unsigned.eq_def]
    split
    · next same => exact absurd (isDigit_toDigits n _ (same ▸ List.mem_cons_self)) (by decide)
    · next same => exact absurd (isDigit_toDigits n _ (same ▸ List.mem_cons_self)) (by decide)
    · rfl
  have decimal : ((Nat.toDigits 10 n).isEmpty
      || !(Nat.toDigits 10 n).all (Reading.isDigitOf 10)) = false := by
    have all : (Nat.toDigits 10 n).all (Reading.isDigitOf 10) = true :=
      List.all_eq_true.2 fun c mem => (digitFacts (isDigit_toDigits n c mem)).decimal
    simp [all, Nat.toDigits_ne_nil]
  have whole : Reading.whole? 10 (Nat.toDigits 10 n) = some (n : Int) := by
    simp [Reading.whole?, unsigned, decimal, valueOf_toDigits, small]
  rw [Reading.decimalLiteral?, whole]

end EggLang.Script
