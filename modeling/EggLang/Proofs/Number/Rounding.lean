import EggLang.Proofs.Number.Nearest
import Mathlib.Tactic.FieldSimp
import Mathlib.Tactic.LinearCombination

/-!
# Rounding of ratios

A ratio of natural numbers becomes the double nearest to it: the exponent is chosen so that the
quotient has 53 bits, or is the least one, and the quotient is rounded to a whole number, which may
carry into one more bit.
-/

namespace EggLang.Binary64

variable {num den : Nat}

/-! ## Quotients -/

/-- A quotient is rounded to a whole number no further than a half away, an even one at a tie. -/
theorem roundDiv_spec (num : Nat) (pos : 0 < den) :
    2 * (roundDiv num den * den) ≤ 2 * num + den ∧ 2 * num ≤ 2 * (roundDiv num den * den) + den
      ∧ (2 * (roundDiv num den * den) = 2 * num + den
          ∨ 2 * num = 2 * (roundDiv num den * den) + den →
        roundDiv num den % 2 = 0) := by
  have split := Nat.div_add_mod num den
  have below := Nat.mod_lt num pos
  have next : (num / den + 1) * den = den * (num / den) + den := by ring
  have same : num / den * den = den * (num / den) := Nat.mul_comm _ _
  simp only [roundDiv]
  split_ifs with above tie even
  · rw [next]
    omega
  · rw [same]
    omega
  · rw [next]
    omega
  · rw [same]
    omega

/-- Dividing by a power of two gives the same ratio in its units. -/
theorem scaleDown_spec (num : Nat) (pos : 0 < den) (e : Int) :
    0 < (scaleDown num den e).2
      ∧ (num / den : ℚ) * (scaleDown num den e).2 = (scaleDown num den e).1 * 2 ^ e := by
  have some : (den : ℚ) ≠ 0 := by exact_mod_cast pos.ne'
  by_cases up : 0 ≤ e
  · have power : (2 : ℚ) ^ e = ((2 ^ e.toNat : Nat) : ℚ) := by
      rw [Nat.cast_pow, Nat.cast_ofNat, ← zpow_natCast, Int.toNat_of_nonneg up]
    rw [scaleDown, if_pos up]
    refine ⟨Nat.mul_pos pos (Nat.two_pow_pos _), ?_⟩
    rw [power, Nat.pow_eq]
    push_cast
    field_simp
  · have power : (2 : ℚ) ^ e * ((2 ^ (-e).toNat : Nat) : ℚ) = 1 := by
      rw [Nat.cast_pow, Nat.cast_ofNat, ← zpow_natCast, Int.toNat_of_nonneg (by omega),
        ← zpow_add₀ two_ne_zero, add_neg_cancel, zpow_zero]
    rw [scaleDown, if_neg up]
    refine ⟨pos, ?_⟩
    rw [div_mul_cancel₀ _ some, Nat.pow_eq]
    push_cast at power ⊢
    linear_combination (-(num : ℚ)) * power

/-! ## The exponent -/

theorem log2_bounds (pos : 0 < num) :
    (2 : ℚ) ^ (num.log2 : Int) ≤ num ∧ (num : ℚ) < 2 * 2 ^ (num.log2 : Int) := by
  have low := Nat.log2_self_le pos.ne'
  have high : num < 2 ^ (num.log2 + 1) := Nat.lt_log2_self
  rw [zpow_natCast]
  constructor
  · exact_mod_cast low
  · rw [Nat.pow_succ, Nat.mul_comm] at high
    exact_mod_cast high

/-- The difference of the bits of both numbers tells the ratio up to a factor of two. -/
theorem ratio_bounds (some : 0 < num) (pos : 0 < den) :
    (2 : ℚ) ^ 51 * 2 ^ ((num.log2 : Int) - den.log2 - 52) ≤ num / den
      ∧ (num / den : ℚ) < 2 ^ 53 * 2 ^ ((num.log2 : Int) - den.log2 - 52) := by
  obtain ⟨low, high⟩ := log2_bounds some
  obtain ⟨low', high'⟩ := log2_bounds pos
  have positive : (0 : ℚ) < den := by exact_mod_cast pos
  have guess : (2 : ℚ) ^ 52 * 2 ^ ((num.log2 : Int) - den.log2 - 52) * 2 ^ (den.log2 : Int)
      = 2 ^ (num.log2 : Int) := by
    have whole : (2 : ℚ) ^ 52 = 2 ^ (52 : Int) := by norm_num
    rw [whole, ← zpow_add₀ two_ne_zero, ← zpow_add₀ two_ne_zero]
    congr 1
    omega
  have unit := unit_pos ((num.log2 : Int) - den.log2 - 52)
  rw [le_div_iff₀ positive, div_lt_iff₀ positive]
  generalize (2 : ℚ) ^ ((num.log2 : Int) - den.log2 - 52) = u at *
  constructor
  · nlinarith
  · nlinarith

/-- At its exponent a ratio is below 2^53, and from 2^52 on unless the exponent is the least. -/
theorem exponentOf_spec (some : 0 < num) (pos : 0 < den) :
    leastExponent ≤ exponentOf num den ∧ (num / den : ℚ) < 2 ^ 53 * 2 ^ exponentOf num den
      ∧ (exponentOf num den ≠ leastExponent →
        (2 : ℚ) ^ 52 * 2 ^ exponentOf num den ≤ num / den) := by
  obtain ⟨low, high⟩ := ratio_bounds some pos
  set guess : Int := (num.log2 : Int) - den.log2 - 52 with guess_def
  obtain ⟨scaled_pos, scaled⟩ := scaleDown_spec num pos guess
  have divisor : (0 : ℚ) < (scaleDown num den guess).2 := by exact_mod_cast scaled_pos
  -- the exponent before it is bounded below
  obtain ⟨exact, exponent, below, above⟩ : ∃ exact, exponentOf num den = max exact leastExponent
      ∧ (num / den : ℚ) < 2 ^ 53 * 2 ^ exact ∧ (2 : ℚ) ^ 52 * 2 ^ exact ≤ num / den := by
    by_cases small : (scaleDown num den guess).1 / (scaleDown num den guess).2 < Nat.pow 2 52
    · refine ⟨guess - 1, ?_, ?_, ?_⟩
      · simp only [exponentOf, ← guess_def, if_pos small]
      · have fewer : ((scaleDown num den guess).1 : ℚ) < 2 ^ 52 * (scaleDown num den guess).2 := by
          exact_mod_cast (Nat.div_lt_iff_lt_mul scaled_pos).1 small
        have unit := unit_pos guess
        have := unit_pred guess
        have := mul_lt_mul_of_pos_right fewer unit
        rw [← scaled] at this
        nlinarith
      · have := unit_pred guess
        linarith
    · refine ⟨guess, ?_, high, ?_⟩
      · simp only [exponentOf, ← guess_def, if_neg small]
      · have enough : (2 : ℚ) ^ 52 * (scaleDown num den guess).2 ≤ (scaleDown num den guess).1 := by
          exact_mod_cast (Nat.le_div_iff_mul_le scaled_pos).1 (Nat.le_of_not_lt small)
        have := mul_le_mul_of_nonneg_right enough (unit_pos guess).le
        rw [← scaled] at this
        nlinarith
  rw [exponent]
  refine ⟨le_max_right _ _, ?_, fun more => ?_⟩
  · have := unit_le (le_max_left exact leastExponent)
    nlinarith
  · have same : max exact leastExponent = exact := max_eq_left (by omega)
    rw [same]
    exact above

/-! ## Ratios -/

/-- The significand before its last bit is carried over. -/
def ratioSignificand (num den : Nat) : Nat :=
  roundDiv (scaleDown num den (exponentOf num den)).1 (scaleDown num den (exponentOf num den)).2

theorem ofRatio_cases (some : num ≠ 0) :
    ∃ m e, ofRatio false num den
        = (if greatestExponent < e then .infinite false else .finite false m e)
      ∧ (ratioSignificand num den = 2 ^ 53 ∧ m = 2 ^ 52 ∧ e = exponentOf num den + 1
        ∨ ratioSignificand num den ≠ 2 ^ 53 ∧ m = ratioSignificand num den
          ∧ e = exponentOf num den) := by
  rw [ofRatio, if_neg some]
  by_cases carried : ratioSignificand num den = 2 ^ 53
  · refine ⟨2 ^ 52, exponentOf num den + 1, ?_, .inl ⟨carried, rfl, rfl⟩⟩
    dsimp only
    rw [ratioSignificand] at carried
    rw [precision, Nat.pow_eq, if_pos carried]
    rfl
  · refine ⟨ratioSignificand num den, exponentOf num den, ?_, .inr ⟨carried, rfl, rfl⟩⟩
    dsimp only
    rw [ratioSignificand] at carried
    rw [precision, Nat.pow_eq, if_neg carried]
    rfl

/-- The significand is as near to the ratio, in units of the last place, as a whole number is. -/
theorem ratioSignificand_near (num : Nat) (pos : 0 < den) {m : Nat} {e : Int}
    (exponent : exponentOf num den = e) (significand : ratioSignificand num den = m) :
    2 * (worth m e - num / den) ≤ 2 ^ e ∧ 2 * (num / den - worth m e) ≤ 2 ^ e
      ∧ (2 * (worth m e - num / den) = 2 ^ e ∨ 2 * (num / den - worth m e) = 2 ^ e →
        m % 2 = 0) := by
  obtain ⟨divisor, scaled⟩ := scaleDown_spec num pos e
  rw [ratioSignificand, exponent] at significand
  generalize (scaleDown num den e).1 = x at *
  generalize (scaleDown num den e).2 = d at *
  obtain ⟨low, high, even⟩ := roundDiv_spec x divisor
  rw [significand] at low high even
  have unit := unit_pos e
  have positive : (0 : ℚ) < d := by exact_mod_cast divisor
  have error : (worth m e - num / den) * d = (m * d - x) * 2 ^ e := by
    rw [sub_mul, scaled, worth]
    ring
  have low' : 2 * ((m : ℚ) * d) ≤ 2 * x + d := by exact_mod_cast low
  have high' : 2 * (x : ℚ) ≤ 2 * (m * d) + d := by exact_mod_cast high
  refine ⟨?_, ?_, fun tie => even ?_⟩
  · refine le_of_mul_le_mul_right ?_ positive
    nlinarith
  · refine le_of_mul_le_mul_right ?_ positive
    nlinarith
  · rcases tie with tie | tie
    · left
      have scaled_tie : (2 * ((m : ℚ) * d)) * 2 ^ e = (2 * x + d) * 2 ^ e := by
        linear_combination (d : ℚ) * tie - 2 * error
      exact_mod_cast mul_right_cancel₀ unit.ne' scaled_tie
    · right
      have scaled_tie : (2 * (x : ℚ)) * 2 ^ e = (2 * (m * d) + d) * 2 ^ e := by
        linear_combination (d : ℚ) * tie + 2 * error
      exact_mod_cast mul_right_cancel₀ unit.ne' scaled_tie

theorem canonical_zero : Canonical 0 leastExponent := ⟨by norm_num, le_rfl, .inr rfl⟩

/-- An exact ratio is rounded to the double nearest to it. -/
theorem isNearest_ofRatio (num : Nat) (pos : 0 < den) :
    IsNearest (num / den) (ofRatio false num den) := by
  by_cases zero : num = 0
  · refine ⟨0, leastExponent, ?_, ?_⟩
    · have nothing : (num / den : ℚ) = worth 0 leastExponent := by simp [zero, worth]
      rw [nothing]
      exact canonical_zero.rounds
    · rw [ofRatio, if_pos zero]
      rfl
  obtain ⟨least, below, above⟩ := exponentOf_spec (Nat.pos_of_ne_zero zero) pos
  obtain ⟨m, e, rounded, ⟨carried, rfl, rfl⟩ | ⟨few, rfl, rfl⟩⟩ := ofRatio_cases zero
  · refine ⟨_, _, ?_, rounded⟩
    obtain ⟨low, -⟩ := ratioSignificand_near num pos rfl carried
    have unit := unit_succ (exponentOf num den)
    have pos := unit_pos (exponentOf num den)
    refine Near.rounds ⟨by norm_num, by omega, .inl le_rfl⟩ ⟨?_, ?_, fun _ => rfl⟩
    · rw [gapBelow, if_pos ⟨rfl, by omega⟩, add_sub_cancel_right]
      rw [worth] at low ⊢
      push_cast at low ⊢
      linarith
    · rw [worth]
      push_cast
      linarith
  · refine ⟨_, _, ?_, rounded⟩
    obtain ⟨low, high, even⟩ := ratioSignificand_near num pos rfl rfl
    have unit := unit_pos (exponentOf num den)
    have full : exponentOf num den ≠ leastExponent → 2 ^ 52 ≤ ratioSignificand num den := by
      intro more
      have enough := above more
      rw [worth] at high
      by_contra less
      have : (ratioSignificand num den : ℚ) + 1 ≤ 2 ^ 52 := by
        exact_mod_cast Nat.lt_of_not_le less
      nlinarith
    have most : ratioSignificand num den < 2 ^ 53 := by
      refine lt_of_le_of_ne ?_ few
      rw [worth] at low
      by_contra more
      have : (2 : ℚ) ^ 53 + 1 ≤ ratioSignificand num den := by
        exact_mod_cast Nat.lt_of_not_le more
      nlinarith
    refine Near.rounds ⟨most, least, ?_⟩ ⟨?_, high, ?_⟩
    · exact (em _).symm.imp full id
    · rw [gapBelow]
      split_ifs with power
      · have enough := above (by omega)
        have half := unit_pos (exponentOf num den - 1)
        rw [worth, power.1]
        push_cast
        linarith
      · exact low
    · rintro (tie | tie)
      · rw [gapBelow] at tie
        split_ifs at tie with power
        · rw [power.1]
          rfl
        · exact even (.inl tie)
      · exact even (.inr tie)

/-- A natural number is rounded to the double nearest to it. -/
theorem isNearest_ofNat (n : Nat) : IsNearest n (ofNat n) := by
  have whole := isNearest_ofRatio n one_pos
  rwa [Nat.cast_one, div_one] at whole

/-! ## Whole numbers -/

/-- A natural number of at most 53 bits is a double. -/
theorem exists_canonical {N : Nat} (small : N < 2 ^ 53) :
    ∃ n f, Canonical n f ∧ worth n f = N := by
  by_cases zero : N = 0
  · exact ⟨0, leastExponent, canonical_zero, by simp [worth, zero]⟩
  have bits : N.log2 ≤ 52 := Nat.lt_succ_iff.1 ((Nat.log2_lt zero).2 small)
  obtain ⟨k, sum⟩ : ∃ k, N.log2 + k = 52 := ⟨52 - N.log2, by omega⟩
  have low := Nat.mul_le_mul_right (2 ^ k) (Nat.log2_self_le zero)
  have high := Nat.mul_lt_mul_of_pos_right (Nat.lt_log2_self (n := N)) (Nat.two_pow_pos k)
  have next : N.log2 + 1 + k = 53 := by omega
  rw [← Nat.pow_add, sum] at low
  rw [← Nat.pow_add, next] at high
  refine ⟨N * 2 ^ k, -(k : Int), ⟨high, ?_, .inl low⟩, ?_⟩
  · simp only [leastExponent]
    omega
  · have power := unit_pos k
    rw [worth, zpow_neg, zpow_natCast]
    push_cast
    field_simp

/-- A natural number is rounded to a natural number. -/
theorem Rounds.whole {N m : Nat} {e : Int} (h : Rounds (N : ℚ) m e) : ∃ k : Nat, worth m e = k := by
  by_cases small : N < 2 ^ 53
  · obtain ⟨n, f, canonical, exact⟩ := exists_canonical small
    have nearest := h.nearest n f canonical
    rw [exact, sub_self, abs_zero] at nearest
    exact ⟨N, (sub_eq_zero.1 (abs_nonpos_iff.1 nearest)).symm⟩
  · have up : 0 ≤ e := by
      by_contra below
      have high := (h.near (Nat.cast_nonneg N)).high
      have large : (2 : ℚ) ^ 53 ≤ N := by exact_mod_cast Nat.le_of_not_lt small
      have few : (m : ℚ) < 2 ^ 53 := by exact_mod_cast h.canonical.few
      have half : (2 : ℚ) ^ e ≤ 2 ^ (-1 : Int) := unit_le (by omega)
      have unit := unit_pos e
      rw [zpow_neg_one] at half
      rw [worth] at high
      nlinarith
    refine ⟨m * 2 ^ e.toNat, ?_⟩
    have power : (2 : ℚ) ^ e = ((2 ^ e.toNat : Nat) : ℚ) := by
      rw [Nat.cast_pow, Nat.cast_ofNat, ← zpow_natCast, Int.toNat_of_nonneg up]
    rw [worth, power, Nat.cast_mul]

end EggLang.Binary64
