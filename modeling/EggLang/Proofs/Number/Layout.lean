import EggLang.Code.Basic
import EggLang.Proofs.Number.Whole
import EggLang.Proofs.Script.Numeral
import EggLang.Proofs.Text.Utf8

/-!
# Layouts of numbers

The digits of a positive number, laid out positionally or with an exponent, are a numeral of a
script. A natural number is so written, unless it is too large for a double.
-/

namespace EggLang

namespace Layout

open Script (IsNumeral IsFraction IsExponent isDigit_toDigits)

/-- The characters of decimal digits. -/
def digitChars (ds : List Nat) : List Char := ds.map fun d => Char.ofNat (48 + d)

theorem ofChars_append (cs ds : List Char) :
    Text.ofChars (cs ++ ds) = Text.ofChars cs ++ Text.ofChars ds := List.flatMap_append

theorem ofChars_ascii {cs : List Char} (ascii : ∀ c ∈ cs, c.toNat < 0x80) :
    Text.ofChars cs = cs.map fun c => c.toNat.toUInt8 := by
  induction cs with
  | nil => rfl
  | cons c cs ih =>
    have single : String.utf8EncodeChar c = [c.toNat.toUInt8] := by
      have below := ascii c List.mem_cons_self
      obtain ⟨_, same⟩ | ⟨_, _⟩ | ⟨_, _⟩ | ⟨_, _⟩ := Text.encode_cases c
      · exact same
      all_goals omega
    rw [Text.ofChars, List.flatMap_cons, single, ← Text.ofChars,
      ih fun d mem => ascii d (List.mem_cons_of_mem c mem)]
    rfl

theorem ascii_of_digit {c : Char} (digit : c.isDigit = true) : c.toNat < 0x80 := by
  have : c.toNat ≤ 57 := (Char.isDigit_iff_toNat.1 digit).2
  omega

theorem digit_char {d : Nat} (small : d < 10) :
    (Char.ofNat (48 + d)).isDigit = true ∧ (Char.ofNat (48 + d)).toNat = 48 + d := by
  have all : ∀ d : Fin 10, (Char.ofNat (48 + d)).isDigit = true
      ∧ (Char.ofNat (48 + d)).toNat = 48 + d := by
    decide
  exact all ⟨d, small⟩

theorem isDigit_digitChars {ds : List Nat} (small : ∀ d ∈ ds, d < 10) :
    ∀ c ∈ digitChars ds, c.isDigit = true := by
  intro c mem
  obtain ⟨d, inside, rfl⟩ := List.mem_map.1 mem
  exact (digit_char (small d inside)).1

theorem digitText_eq {ds : List Nat} (small : ∀ d ∈ ds, d < 10) :
    digitText ds = Text.ofChars (digitChars ds) := by
  rw [ofChars_ascii fun c mem => ascii_of_digit (isDigit_digitChars small c mem), digitText,
    digitChars, List.map_map]
  refine List.map_congr_left fun d mem => ?_
  simp [(digit_char (small d mem)).2]

theorem zeros_eq (n : Nat) : List.replicate n 48 = Text.ofChars (List.replicate n '0') := by
  rw [ofChars_ascii fun c mem => by rw [List.eq_of_mem_replicate mem]; decide, List.map_replicate]
  rfl

theorem isDigit_zeros (n : Nat) : ∀ c ∈ List.replicate n '0', c.isDigit = true := by
  intro c mem
  rw [List.eq_of_mem_replicate mem]
  rfl

theorem ofNat_eq (n : Nat) : Bytes.ofNat n = Text.ofChars (Nat.toDigits 10 n) := by
  rw [ofChars_ascii fun c mem => ascii_of_digit (isDigit_toDigits n c mem)]
  rfl

theorem isDigit_append {cs ds : List Char} (front : ∀ c ∈ cs, c.isDigit = true)
    (back : ∀ c ∈ ds, c.isDigit = true) : ∀ c ∈ cs ++ ds, c.isDigit = true := by
  intro c mem
  rcases List.mem_append.1 mem with here | here
  · exact front c here
  · exact back c here

/-- A digit that is not zero, in front of more digits. -/
theorem first_nonzero {ds : List Nat} (h : Decimal.Leading ds) :
    ∃ c cs, digitChars ds = c :: cs ∧ c ≠ '0' := by
  obtain ⟨small, d, rest, rfl, nonzero⟩ := h
  refine ⟨_, _, rfl, fun zero => nonzero ?_⟩
  have value : '0'.toNat = 48 + d := zero ▸ (digit_char (small d List.mem_cons_self)).2
  have : '0'.toNat = 48 := rfl
  omega

/-- The text is that of a numeral. -/
def WritesNumeral (text : Bytes) : Prop := ∃ cs, text = Text.ofChars cs ∧ IsNumeral cs

theorem writesNumeral_ofNat (n : Nat) : WritesNumeral (Bytes.ofNat n) :=
  ⟨_, ofNat_eq n, Script.isNumeral_toDigits n⟩

/-- A numeral begins with a digit. -/
theorem WritesNumeral.first {text : Bytes} (h : WritesNumeral text) :
    ∃ (c : Char) (rest : Bytes), text = c.toNat.toUInt8 :: rest ∧ c.isDigit = true := by
  obtain ⟨cs, rfl, ⟨whole, fraction, exponent, rfl, starts, digits, -⟩⟩ := h
  obtain ⟨c, rest, rfl⟩ : ∃ c rest, whole = c :: rest := by
    rcases starts with rfl | ⟨c, rest, rfl, -⟩ <;> exact ⟨_, _, rfl⟩
  have digit := digits c List.mem_cons_self
  have one : Text.ofChars [c] = [c.toNat.toUInt8] :=
    ofChars_ascii fun d mem => List.mem_singleton.1 mem ▸ ascii_of_digit digit
  refine ⟨c, Text.ofChars (rest ++ (fraction ++ exponent)), ?_, digit⟩
  rw [List.cons_append, ← List.singleton_append, ofChars_append, one]
  rfl

theorem positional_numeral {d : Decimal} (h : Decimal.Leading d.digits) :
    WritesNumeral (positional d) := by
  have digits := isDigit_digitChars h.small
  by_cases below : d.point ≤ 0
  · refine ⟨['0'] ++ ('.' :: (List.replicate (-d.point).toNat '0' ++ digitChars d.digits) ++ []),
      ?_, ⟨['0'], _, [], rfl, .inl rfl, isDigit_zeros 1, .inr ⟨_, rfl, ?_⟩, .inl rfl⟩⟩
    · rw [positional, if_pos below, zeros_eq, digitText_eq h.small, List.append_nil]
      simp [utf8, Text.ofChars]
    · exact isDigit_append (isDigit_zeros _) digits
  · obtain ⟨c, cs, split, nonzero⟩ := first_nonzero h
    by_cases short : d.digits.length ≤ d.point.toNat
    · refine ⟨digitChars d.digits ++ List.replicate (d.point.toNat - d.digits.length) '0'
          ++ ([] ++ []), ?_, ⟨_, [], [], rfl, .inr ⟨c, _, by rw [split]; rfl, nonzero⟩, ?_,
          .inl rfl, .inl rfl⟩⟩
      · simp [positional, below, short, zeros_eq, digitText_eq h.small, ofChars_append]
      · exact isDigit_append digits (isDigit_zeros _)
    · have front : ∀ x ∈ d.digits.take d.point.toNat, x < 10 := fun x mem =>
        h.small x (List.mem_of_mem_take mem)
      have back : ∀ x ∈ d.digits.drop d.point.toNat, x < 10 := fun x mem =>
        h.small x (List.mem_of_mem_drop mem)
      have starts : ∃ more, digitChars (d.digits.take d.point.toNat) = c :: more := by
        obtain ⟨n, size⟩ : ∃ n, d.point.toNat = n + 1 := ⟨d.point.toNat - 1, by omega⟩
        refine ⟨cs.take n, ?_⟩
        rw [digitChars, List.map_take, ← digitChars, split, size]
        rfl
      obtain ⟨more, starts⟩ := starts
      refine ⟨digitChars (d.digits.take d.point.toNat)
          ++ ('.' :: digitChars (d.digits.drop d.point.toNat) ++ []), ?_,
          ⟨_, _, [], rfl, .inr ⟨c, more, starts, nonzero⟩, isDigit_digitChars front,
          .inr ⟨_, rfl, isDigit_digitChars back⟩, .inl rfl⟩⟩
      simp only [positional, below, short, if_false, digitText_eq front, digitText_eq back,
        List.append_nil]
      simp [utf8, Text.ofChars]

theorem scientific_numeral {d : Decimal} (h : Decimal.Leading d.digits) (least : Nat) :
    WritesNumeral (scientific least d) := by
  obtain ⟨c, cs, starts, nonzero⟩ := first_nonzero h
  obtain ⟨small, a, rest, split, -⟩ := h
  rw [split] at small starts
  have first : ∀ x ∈ [a], x < 10 := fun x mem => small x (by simp at mem; simp [mem])
  have others : ∀ x ∈ rest, x < 10 := fun x mem => small x (List.mem_cons_of_mem a mem)
  have first_char : digitChars [a] = [c] := by
    rw [digitChars, List.map_cons] at starts ⊢
    rw [(List.cons.inj starts).1]
    rfl
  have whole : ∀ x ∈ [c], x.isDigit = true := first_char ▸ isDigit_digitChars first
  -- the digits of the exponent
  obtain ⟨size, size_text, size_digits, size_some⟩ : ∃ cs,
      List.replicate (least - (Bytes.ofNat d.exponent.natAbs).length) 48
          ++ Bytes.ofNat d.exponent.natAbs = Text.ofChars cs
        ∧ (∀ x ∈ cs, x.isDigit = true) ∧ cs ≠ [] := by
    refine ⟨List.replicate (least - (Bytes.ofNat d.exponent.natAbs).length) '0'
      ++ Nat.toDigits 10 d.exponent.natAbs, ?_,
      isDigit_append (isDigit_zeros _) (isDigit_toDigits _), by simp [Nat.toDigits_ne_nil]⟩
    rw [zeros_eq, ofNat_eq, ofChars_append]
  obtain ⟨sign, sign_text, signs⟩ : ∃ sign, utf8 (if d.exponent < 0 then "e-" else "e+")
      = Text.ofChars ['e', sign] ∧ (sign = '+' ∨ sign = '-') := by
    by_cases negative : d.exponent < 0
    · exact ⟨'-', by rw [if_pos negative]; rfl, .inr rfl⟩
    · exact ⟨'+', by rw [if_neg negative]; rfl, .inl rfl⟩
  have exponent : IsExponent ('e' :: sign :: size) :=
    .inr ⟨sign, size, rfl, signs, size_some, size_digits⟩
  obtain ⟨fraction, text, fraction_digits⟩ : ∃ fraction,
      scientific least d = Text.ofChars ([c] ++ fraction)
          ++ utf8 (if d.exponent < 0 then "e-" else "e+")
          ++ (List.replicate (least - (Bytes.ofNat d.exponent.natAbs).length) 48
            ++ Bytes.ofNat d.exponent.natAbs)
        ∧ IsFraction fraction := by
    rw [scientific, split]
    cases rest with
    | nil =>
      refine ⟨[], ?_, .inl rfl⟩
      simp only [digitText_eq first, first_char, List.append_nil, List.append_assoc]
    | cons b rest =>
      refine ⟨'.' :: digitChars (b :: rest), ?_, .inr ⟨_, rfl, isDigit_digitChars others⟩⟩
      simp only [digitText_eq first, digitText_eq others, first_char]
      simp [utf8, Text.ofChars]
  refine ⟨[c] ++ (fraction ++ 'e' :: sign :: size), ?_,
    ⟨[c], fraction, _, rfl, .inr ⟨c, [], rfl, nonzero⟩, whole, fraction_digits, exponent⟩⟩
  have parts : [c] ++ (fraction ++ 'e' :: sign :: size)
      = ([c] ++ fraction) ++ (['e', sign] ++ size) := by simp
  rw [text, size_text, sign_text, parts, List.append_assoc, ← ofChars_append, ← ofChars_append]

theorem ofNat_cases (n : Nat) :
    (∃ m e, Binary64.ofNat n = .finite false m e) ∨ Binary64.ofNat n = .infinite false := by
  by_cases small : n < Nat.pow 2 53
  · obtain ⟨m, e, same, -⟩ := Binary64.ofNat_below small
    exact .inl ⟨m, e, same⟩
  · rcases Binary64.ofNat_beyond (Nat.le_of_not_lt small) with same | ⟨m, e, same, -⟩
    · exact .inr same
    · exact .inl ⟨m, e, same⟩

theorem writesNumeral_zero : WritesNumeral (utf8 "0") :=
  ⟨['0'], rfl, ['0'], [], [], rfl, .inl rfl, isDigit_zeros 1, .inl rfl, .inl rfl⟩

/-- A finite number without a sign is written as a numeral. -/
theorem render_finite (l : Layout) (m : Nat) (e : Int) :
    WritesNumeral (l.render (.finite false m e)) := by
  by_cases zero : m = 0
  · rw [show l.render (.finite false m e) = utf8 "0" by simp [render, zero]]
    exact writesNumeral_zero
  · have leading := Decimal.leading_shortest (Nat.pos_of_ne_zero zero) e
    have text : l.render (.finite false m e)
        = if l.isPositional (Decimal.shortest m e).exponent
          then positional (Decimal.shortest m e)
          else scientific l.exponentDigits (Decimal.shortest m e) := by
      simp [render, zero]
    rw [text]
    split
    · exact positional_numeral leading
    · exact scientific_numeral leading l.exponentDigits

/-- One with a sign is written as a numeral behind a minus sign; a zero may lose its sign. -/
theorem render_negative (l : Layout) (m : Nat) (e : Int) :
    ∃ text, WritesNumeral text ∧ (l.render (.finite true m e) = text
      ∨ l.render (.finite true m e) = utf8 "-" ++ text) := by
  by_cases zero : m = 0
  · refine ⟨utf8 "0", writesNumeral_zero, ?_⟩
    cases signed : l.signedZero with
    | true => exact .inr (by simp [render, zero, signed]; rfl)
    | false => exact .inl (by simp [render, zero, signed])
  · exact ⟨_, l.render_finite m e, .inr (by simp [render, zero])⟩

/-- A natural number is written as a numeral, or by a name where it is too large. -/
theorem render_ofNat (l : Layout) (n : Nat) :
    WritesNumeral (l.render (.ofNat n)) ∨ l.render (.ofNat n) = utf8 l.positiveInfinity := by
  rcases ofNat_cases n with ⟨m, e, same⟩ | same
  · rw [same]
    exact .inl (l.render_finite m e)
  · exact .inr (by rw [same]; rfl)

end Layout

namespace Code

/-- Generated code has a natural number as a numeral, or as a name. -/
theorem numberText_ofNat (n : Nat) :
    Layout.WritesNumeral (numberText (.ofNat n)) ∨ numberText (.ofNat n) = utf8 "Infinity" := by
  have positive : (Binary64.ofNat n).isNegative = Bool.false := by
    rcases Layout.ofNat_cases n with ⟨m, e, same⟩ | same <;> rw [same] <;> rfl
  rw [numberText, positive]
  exact Layout.render_ofNat largeNumber n

end Code

end EggLang
