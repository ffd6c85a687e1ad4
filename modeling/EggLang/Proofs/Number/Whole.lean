import EggLang.Script.Numeric
import Mathlib.Tactic.SplitIfs

/-!
# Whole numbers as doubles

Natural numbers below 2^53 are doubles without a positive exponent, and all others are rounded to
doubles that have one. So a number of a script that stands for a natural number below 2^53 is equal
to that of no other natural number, however large.
-/

namespace EggLang

namespace Binary64

variable {n : Nat}

theorem log2_one : Nat.log2 1 = 0 := by decide

/-- The significand of a natural number before its last bit is carried over. -/
def wholeSignificand (n : Nat) : Nat :=
  roundDiv (scaleDown n 1 (exponentOf n 1)).1 (scaleDown n 1 (exponentOf n 1)).2

theorem ofNat_of_pos (pos : n ≠ 0) :
    ∃ m e, ofNat n = (if greatestExponent < e then .infinite false else .finite false m e)
      ∧ (wholeSignificand n = Nat.pow 2 53 ∧ m = Nat.pow 2 52 ∧ e = exponentOf n 1 + 1
        ∨ wholeSignificand n ≠ Nat.pow 2 53 ∧ m = wholeSignificand n ∧ e = exponentOf n 1) := by
  rw [ofNat, ofRatio, if_neg pos]
  by_cases carried : wholeSignificand n = Nat.pow 2 53
  · refine ⟨Nat.pow 2 52, exponentOf n 1 + 1, ?_, .inl ⟨carried, rfl, rfl⟩⟩
    dsimp only
    rw [wholeSignificand] at carried
    rw [precision, if_pos carried]
  · refine ⟨wholeSignificand n, exponentOf n 1, ?_, .inr ⟨carried, rfl, rfl⟩⟩
    dsimp only
    rw [wholeSignificand] at carried
    rw [precision, if_neg carried]
    rfl

/-! ## Few bits -/

theorem exponentOf_small (few : n.log2 ≤ 52) : exponentOf n 1 ≤ 0 := by
  simp only [exponentOf, log2_one, leastExponent]
  split_ifs <;> omega

theorem wholeSignificand_of_exponentOf (h : exponentOf n 1 = 0) : wholeSignificand n = n := by
  rw [wholeSignificand, h]
  simp [scaleDown, roundDiv, Nat.mod_one]

theorem ofNat_below (small : n < Nat.pow 2 53) :
    ∃ m e, ofNat n = .finite false m e ∧ e ≤ 0 := by
  by_cases zero : n = 0
  · exact ⟨0, leastExponent, if_pos zero, by decide⟩
  have least := exponentOf_small (Nat.lt_succ_iff.1 ((Nat.log2_lt zero).2 small))
  obtain ⟨m, e, rounded, ⟨carried, -, same⟩ | ⟨-, -, same⟩⟩ := ofNat_of_pos zero
  · have negative : exponentOf n 1 ≠ 0 := by
      intro whole
      rw [wholeSignificand_of_exponentOf whole] at carried
      omega
    rw [if_neg (by simp only [greatestExponent]; omega)] at rounded
    exact ⟨m, e, rounded, by omega⟩
  · rw [if_neg (by simp only [greatestExponent]; omega)] at rounded
    exact ⟨m, e, rounded, by omega⟩

/-! ## Many bits -/

/-- A number that has more than 53 bits is divided by a power of two to have 53 of them. -/
theorem scaleDown_large (many : 52 ≤ n.log2) :
    scaleDown n 1 ((n.log2 : Int) - 52) = (n, Nat.pow 2 (n.log2 - 52)) := by
  have size : ((n.log2 : Int) - 52).toNat = n.log2 - 52 := by omega
  rw [scaleDown, if_pos (by omega), size, Nat.one_mul]

theorem full_significand (pos : n ≠ 0) (many : 52 ≤ n.log2) :
    Nat.pow 2 52 ≤ n / Nat.pow 2 (n.log2 - 52) := by
  refine (Nat.le_div_iff_mul_le (Nat.two_pow_pos _)).2 ?_
  calc Nat.pow 2 52 * Nat.pow 2 (n.log2 - 52) = 2 ^ (52 + (n.log2 - 52)) := (Nat.pow_add ..).symm
    _ = 2 ^ n.log2 := by rw [Nat.add_sub_cancel' many]
    _ ≤ n := Nat.log2_self_le pos

theorem exponentOf_large (pos : n ≠ 0) (many : 52 ≤ n.log2) :
    exponentOf n 1 = (n.log2 : Int) - 52 := by
  have full : ¬n / Nat.pow 2 (n.log2 - 52) < Nat.pow 2 52 :=
    Nat.not_lt_of_le (full_significand pos many)
  have guess : (n.log2 : Int) - (Nat.log2 1 : Int) - 52 = n.log2 - 52 := by
    rw [log2_one]
    omega
  simp only [exponentOf, guess, scaleDown_large many, if_neg full, leastExponent]
  omega

/-- A quotient is rounded to a whole number that is not below it. -/
theorem div_le_roundDiv (num den : Nat) : num / den ≤ roundDiv num den := by
  simp only [roundDiv]
  split_ifs <;> omega

theorem ofNat_beyond (large : Nat.pow 2 53 ≤ n) :
    ofNat n = .infinite false ∨ ∃ m e, ofNat n = .finite false m e ∧ 0 < m ∧ 0 < e := by
  have pos : n ≠ 0 := by
    rintro rfl
    exact absurd large (by decide)
  have bits : 53 ≤ n.log2 := (Nat.le_log2 pos).2 large
  have exponent := exponentOf_large pos (by omega)
  have full : 0 < wholeSignificand n := by
    rw [wholeSignificand, exponent, scaleDown_large (by omega)]
    exact Nat.lt_of_lt_of_le (Nat.two_pow_pos 52)
      (Nat.le_trans (full_significand pos (by omega)) (div_le_roundDiv _ _))
  obtain ⟨m, e, rounded, parts⟩ := ofNat_of_pos pos
  have positive : 0 < m ∧ 0 < e := by
    rcases parts with ⟨-, rfl, same⟩ | ⟨-, rfl, same⟩
    · exact ⟨Nat.two_pow_pos 52, by omega⟩
    · exact ⟨full, by omega⟩
  split_ifs at rounded with far
  · exact .inl rounded
  · exact .inr ⟨m, e, rounded, positive⟩

/-- The double of a natural number below 2^53 is none of those beyond. -/
theorem eq_ofNat_beyond {k : Nat} (small : n < Nat.pow 2 53) (large : Nat.pow 2 53 ≤ k) :
    (ofNat n).eq (ofNat k) = false := by
  obtain ⟨m, e, below, least⟩ := ofNat_below small
  rcases ofNat_beyond large with beyond | ⟨m', e', beyond, pos, exponent⟩
  · rw [below, beyond]
    rfl
  · have other : e ≠ e' := by omega
    rw [below, beyond, eq]
    by_cases zero : m = 0
    · simp [zero, Nat.ne_of_lt pos]
    · simp [zero, Nat.ne_of_gt pos, other]

end Binary64

namespace Script.Numeric

theorem ofNat_small {n : Nat} (small : n ≤ Nat.pow 2 53) : ofNat n = .int n := by
  have limit : largest = (Nat.pow 2 53 : Nat) := rfl
  have inside : (-largest ≤ (n : Int) && (n : Int) ≤ largest) = true := by
    simp only [Bool.and_eq_true, decide_eq_true_eq]
    omega
  exact if_pos inside

theorem roundInt_ofNat (n : Nat) : roundInt n = Binary64.ofNat n := by
  have sign : ¬(n : Int) < 0 := by omega
  simp [roundInt, Binary64.ofNat, sign]

theorem ofNat_large {n : Nat} (large : Nat.pow 2 53 < n) :
    ofNat n = .float (Binary64.ofNat n) := by
  have limit : largest = (Nat.pow 2 53 : Nat) := rfl
  have outside : ¬(-largest ≤ (n : Int) && (n : Int) ≤ largest) = true := by
    simp only [Bool.and_eq_true, decide_eq_true_eq]
    omega
  rw [ofNat, ofInt, if_neg outside, roundInt_ofNat]

/-- The number of a natural number below 2^53 is equal to no other one's. -/
theorem eq_ofNat {n k : Nat} (small : n < Nat.pow 2 53) :
    (ofNat k).eq (ofNat n) = decide (k = n) := by
  have whole := ofNat_small (Nat.le_of_lt small)
  by_cases exact : k ≤ Nat.pow 2 53
  · rw [ofNat_small exact, whole]
    exact decide_eq_decide.2 Int.ofNat_inj
  · have other : k ≠ n := by omega
    rw [ofNat_large (Nat.lt_of_not_le exact), whole, eq, roundInt_ofNat,
      Binary64.eq_ofNat_beyond small (by omega)]
    simp [other]

end Script.Numeric

end EggLang
