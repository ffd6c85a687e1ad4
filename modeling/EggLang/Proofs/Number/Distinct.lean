import EggLang.Proofs.Number.Literal
import EggLang.Proofs.Text.Pieces

/-!
# Outlines tell doubles apart

In an outline the double of a number literal is written with digits only, with an exponent, or as
infinity. Each of these texts is for one decimal, and the decimal rounds to the double; so two
number literals have the same text just where they stand for the same double.
-/

namespace EggLang

open Decimal (valueOf valueOf_append valueOf_zeros ten_pos ten_add Leading)
open Layout (digitText)

variable {ds es : List Nat} {d d' : Decimal} {n k : Nat}

/-! ## Digits -/

theorem toNat_digit (small : n < 10) : (48 + n).toUInt8.toNat = 48 + n := by
  rw [Nat.toUInt8, UInt8.toNat_ofNat']
  omega

theorem digitText_inj (small : ∀ d ∈ ds, d < 10) (small' : ∀ d ∈ es, d < 10)
    (same : digitText ds = digitText es) : ds = es := by
  induction ds generalizing es with
  | nil => simpa [digitText] using same.symm
  | cons a ds ih =>
    cases es with
    | nil => cases same
    | cons b es =>
      obtain ⟨first, others⟩ := List.forall_mem_cons.1 small
      obtain ⟨first', others'⟩ := List.forall_mem_cons.1 small'
      obtain ⟨digit, rest⟩ := List.cons.inj same
      have value := congrArg UInt8.toNat digit
      rw [toNat_digit first, toNat_digit first'] at value
      obtain rfl : a = b := by omega
      rw [ih others others' rest]

theorem digit_of_mem_digitText (small : ∀ d ∈ ds, d < 10) {b : UInt8} (among : b ∈ digitText ds) :
    48 ≤ b.toNat ∧ b.toNat ≤ 57 := by
  obtain ⟨d, here, rfl⟩ := List.mem_map.1 among
  have := small d here
  rw [toNat_digit this]
  omega

theorem digitsOf_small_all (n : Nat) : ∀ d ∈ Decimal.digitsOf n, d < 10 := by
  rcases Nat.eq_zero_or_pos n with rfl | pos
  · decide
  · exact (Decimal.leading_digitsOf pos).small

/-- The size of an exponent is known from its text, whatever zeros are in front. -/
theorem exponentText_inj {z w : Nat}
    (same : List.replicate z 48 ++ Bytes.ofNat n = List.replicate w 48 ++ Bytes.ofNat k) :
    n = k := by
  have value (z n : Nat) : Bytes.digitsValue (List.replicate z 48 ++ Bytes.ofNat n) = n := by
    have zeros : List.replicate z 48 = digitText (List.replicate z 0) := by
      rw [digitText, List.map_replicate]
      rfl
    have small : ∀ d ∈ List.replicate z 0 ++ Decimal.digitsOf n, d < 10 := by
      refine List.forall_mem_append.2 ⟨fun d among => ?_, digitsOf_small_all n⟩
      rw [List.eq_of_mem_replicate among]
      decide
    have joined : List.replicate z 48 ++ Bytes.ofNat n
        = digitText (List.replicate z 0 ++ Decimal.digitsOf n) := by
      rw [zeros, ← digitText_digitsOf, digitText, digitText, digitText, List.map_append]
    rw [joined, digitsValue_digitText small, valueOf_append, valueOf_zeros,
      Decimal.valueOf_digitsOf]
    omega
  rw [← value z n, same, value]

/-! ## Decimals with an exponent -/

/-- The digits before an exponent: a point stands behind the first of several. -/
def mantissa : List Nat → Bytes
  | [] => []
  | [a] => digitText [a]
  | a :: rest => digitText [a] ++ 46 :: digitText rest

theorem scientific_eq (leading : Leading d.digits) (exponent : d.exponent = (k : Nat)) :
    Layout.scientific 2 d = mantissa d.digits
      ++ 101 :: 43 :: (List.replicate (2 - (Bytes.ofNat k).length) 48 ++ Bytes.ofNat k) := by
  obtain ⟨a, rest, split, -⟩ := leading.first
  have positive : ¬((k : Int) < 0) := by omega
  rw [Layout.scientific, exponent, Int.natAbs_natCast, split, if_neg positive]
  have mark : utf8 "e+" = [101, 43] := rfl
  have dot : utf8 "." = [46] := rfl
  cases rest with
  | nil => simp [mantissa, mark]
  | cons b rest => simp [mantissa, mark, dot]

theorem byte_of_mem_mantissa (small : ∀ d ∈ ds, d < 10) {b : UInt8} (among : b ∈ mantissa ds) :
    46 ≤ b.toNat ∧ b.toNat ≤ 57 := by
  have digits {es : List Nat} (small : ∀ d ∈ es, d < 10) (among : b ∈ digitText es) :
      46 ≤ b.toNat ∧ b.toNat ≤ 57 := by
    have := digit_of_mem_digitText small among
    omega
  match ds with
  | [] => cases among
  | [a] => exact digits small among
  | a :: _ :: rest =>
    obtain ⟨first, others⟩ := List.forall_mem_cons.1 small
    simp only [mantissa, List.mem_append, List.mem_cons] at among
    rcases among with digit | rfl | behind
    · exact digits (by simpa using first) digit
    · decide
    · exact digits others (by simpa using behind)

theorem mantissa_inj (small : ∀ d ∈ ds, d < 10) (small' : ∀ d ∈ es, d < 10)
    (same : mantissa ds = mantissa es) : ds = es := by
  -- the digits are what is left without the point
  have digits {ds : List Nat} (small : ∀ d ∈ ds, d < 10) :
      (mantissa ds).filter (· != 46) = digitText ds := by
    have kept {es : List Nat} (small : ∀ d ∈ es, d < 10) :
        (digitText es).filter (· != 46) = digitText es := by
      refine List.filter_eq_self.2 fun b among => ?_
      have bound := (digit_of_mem_digitText small among).1
      rw [bne_iff_ne]
      rintro rfl
      exact absurd bound (by decide)
    match ds with
    | [] => rfl
    | [a] => exact kept small
    | a :: b :: rest =>
      obtain ⟨first, others⟩ := List.forall_mem_cons.1 small
      rw [mantissa, List.filter_append, List.filter_cons_of_neg (by decide), kept others,
        kept (by simpa using first)]
      · rfl
      · simp
  exact digitText_inj small small' (by rw [← digits small, same, digits small'])

theorem scientific_inj (leading : Leading d.digits) (leading' : Leading d'.digits)
    (above : 0 ≤ d.exponent) (above' : 0 ≤ d'.exponent)
    (same : Layout.scientific 2 d = Layout.scientific 2 d') : d = d' := by
  obtain ⟨k, exponent⟩ := Int.eq_ofNat_of_zero_le above
  obtain ⟨k', exponent'⟩ := Int.eq_ofNat_of_zero_le above'
  rw [scientific_eq leading exponent, scientific_eq leading' exponent'] at same
  obtain ⟨front, behind⟩ := Bytes.append_cons_inj
    (fun among => absurd (byte_of_mem_mantissa leading.small among).2 (by decide))
    (fun among => absurd (byte_of_mem_mantissa leading'.small among).2 (by decide)) same
  have digits := mantissa_inj leading.small leading'.small front
  have size := exponentText_inj (List.cons.inj behind).2
  have point : d.point = d'.point := by
    rw [Decimal.exponent] at exponent exponent'
    omega
  cases d
  cases d'
  simp_all

/-! ## The text of a number literal -/

/-- How the double nearest to a natural number is written in an outline, and how the text stands
for it. -/
inductive Outlined : Binary64 → Bytes → Prop where
  | infinite : Outlined (.infinite false) (utf8 "+Inf")
  | plain {m : Nat} {e : Int} {ds : List Nat} : ds ≠ [] → (∀ d ∈ ds, d < 10) →
      Binary64.Rounds (valueOf ds) m e → Outlined (.finite false m e) (digitText ds)
  | scientific {m : Nat} {e : Int} {d : Decimal} : Leading d.digits → 0 ≤ d.exponent →
      Binary64.Rounds d.toRat m e → Outlined (.finite false m e) (Layout.scientific 2 d)

theorem outlined_finite {m : Nat} {e : Int} (rounds : Binary64.Rounds (n : ℚ) m e) :
    Outlined (.finite false m e) (Expr.outlineNumber.render (.finite false m e)) := by
  have canonical := rounds.canonical
  by_cases zero : m = 0
  · subst zero
    have value : (valueOf [0] : ℚ) = Binary64.worth 0 e := by simp [Binary64.worth, valueOf]
    exact .plain (List.cons_ne_nil 0 []) (by decide) (value ▸ canonical.rounds)
  · have pos := Nat.pos_of_ne_zero zero
    have leading := Decimal.leading_shortest pos e
    have nearest := Decimal.shortest_rounds canonical pos
    obtain ⟨N, worth⟩ := rounds.whole
    have whole := Decimal.shortest_whole canonical pos worth
    have filled : (Decimal.shortest m e).digits ≠ [] := by
      obtain ⟨a, rest, split, -⟩ := leading.first
      rw [split]
      exact List.cons_ne_nil _ _
    have some := List.length_pos_iff.2 filled
    have above : 0 ≤ (Decimal.shortest m e).exponent := by
      rw [Decimal.exponent]
      omega
    have text : Expr.outlineNumber.render (.finite false m e)
        = if (Decimal.shortest m e).exponent < 6 then Layout.positional (Decimal.shortest m e)
          else Layout.scientific 2 (Decimal.shortest m e) := by
      have enough : -4 ≤ (Decimal.shortest m e).exponent := by omega
      simp [Layout.render, Layout.isPositional, Expr.outlineNumber, zero, enough]
    rw [text]
    split
    · obtain ⟨z, point⟩ : ∃ z : Nat,
          (Decimal.shortest m e).point = (Decimal.shortest m e).digits.length + z :=
        ⟨((Decimal.shortest m e).point - (Decimal.shortest m e).digits.length).toNat, by omega⟩
      obtain ⟨written, value⟩ := positional_whole filled point
      rw [written]
      refine .plain (by simp [filled]) (leading_zeros leading z).small ?_
      rwa [value]
    · exact .scientific leading above nearest

theorem outlined_ofNat (n : Nat) :
    Outlined (.ofNat n) (Expr.outlineNumber.render (.ofNat n)) := by
  obtain ⟨m, e, rounds, value⟩ := Binary64.isNearest_ofNat n
  by_cases far : Binary64.greatestExponent < e
  · rw [value, if_pos far]
    exact .infinite
  · rw [value, if_neg far]
    exact outlined_finite rounds

theorem toRat_nonneg (d : Decimal) : 0 ≤ d.toRat :=
  mul_nonneg (Nat.cast_nonneg _) (ten_pos _).le

theorem infinite_ne_digitText (filled : ds ≠ []) (small : ∀ d ∈ ds, d < 10) :
    utf8 "+Inf" ≠ digitText ds := by
  intro same
  obtain ⟨a, rest, rfl⟩ := List.exists_cons_of_ne_nil filled
  have sign : (43 : UInt8) ∈ digitText (a :: rest) := same ▸ List.mem_cons_self ..
  exact absurd (digit_of_mem_digitText small sign).1 (by decide)

theorem scientific_mark (leading : Leading d.digits) (above : 0 ≤ d.exponent) :
    101 ∈ Layout.scientific 2 d := by
  obtain ⟨k, exponent⟩ := Int.eq_ofNat_of_zero_le above
  rw [scientific_eq leading exponent]
  exact List.mem_append_right _ (List.mem_cons_self ..)

theorem digitText_ne_scientific (small : ∀ d ∈ ds, d < 10) (leading : Leading d.digits)
    (above : 0 ≤ d.exponent) : digitText ds ≠ Layout.scientific 2 d := by
  intro same
  have mark := scientific_mark leading above
  rw [← same] at mark
  exact absurd (digit_of_mem_digitText small mark).2 (by decide)

theorem infinite_ne_scientific (leading : Leading d.digits) (above : 0 ≤ d.exponent) :
    utf8 "+Inf" ≠ Layout.scientific 2 d := by
  intro same
  have mark := scientific_mark leading above
  rw [← same] at mark
  exact absurd mark (by decide)

/-- The text tells which double it is. -/
theorem Outlined.unique {x y : Binary64} {text : Bytes} (h : Outlined x text)
    (h' : Outlined y text) : x = y := by
  generalize same : text = other at h'
  cases h with
  | infinite =>
    cases h' with
    | infinite => rfl
    | plain filled small _ => exact absurd same (infinite_ne_digitText filled small)
    | scientific leading above _ => exact absurd same (infinite_ne_scientific leading above)
  | plain filled small rounds =>
    cases h' with
    | infinite => exact absurd same.symm (infinite_ne_digitText filled small)
    | plain filled' small' rounds' =>
      obtain rfl := digitText_inj small small' same
      obtain ⟨rfl, rfl⟩ := rounds.unique rounds' (Nat.cast_nonneg _)
      rfl
    | scientific leading above _ => exact absurd same (digitText_ne_scientific small leading above)
  | scientific leading above rounds =>
    cases h' with
    | infinite => exact absurd same.symm (infinite_ne_scientific leading above)
    | plain filled small _ => exact absurd same.symm (digitText_ne_scientific small leading above)
    | scientific leading' above' rounds' =>
      obtain rfl := scientific_inj leading leading' above above' same
      obtain ⟨rfl, rfl⟩ := rounds.unique rounds' (toRat_nonneg _)
      rfl

/-- Outlines write two whole doubles alike just where they are the same. -/
theorem outlineNumber_ofNat_iff (n k : Nat) :
    Expr.outlineNumber.render (.ofNat n) = Expr.outlineNumber.render (.ofNat k)
      ↔ Binary64.ofNat n = .ofNat k :=
  ⟨fun same => (outlined_ofNat n).unique (same ▸ outlined_ofNat k),
    fun same => congrArg Expr.outlineNumber.render same⟩

/-- No line feed stands in the text of a number. -/
theorem Outlined.not_mem {x : Binary64} {text : Bytes} (h : Outlined x text) : 10 ∉ text := by
  have digits {ds : List Nat} (small : ∀ d ∈ ds, d < 10) : 10 ∉ digitText ds := fun among =>
    absurd (digit_of_mem_digitText small among).1 (by decide)
  cases h with
  | infinite => decide
  | plain _ small _ => exact digits small
  | @scientific _ _ d leading above _ =>
    obtain ⟨k, exponent⟩ := Int.eq_ofNat_of_zero_le above
    rw [scientific_eq leading exponent]
    simp only [List.mem_append, List.mem_cons, List.mem_replicate, not_or, not_and]
    refine ⟨fun among => ?_, by decide, by decide, fun _ => by decide, ?_⟩
    · exact absurd (byte_of_mem_mantissa leading.small among).1 (by decide)
    · rw [← digitText_digitsOf]
      exact digits (digitsOf_small_all k)

end EggLang
