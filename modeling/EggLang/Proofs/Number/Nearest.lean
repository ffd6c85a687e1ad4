import EggLang.Number.Binary64
import Mathlib.Algebra.Order.Field.Power
import Mathlib.Algebra.Order.Field.Rat
import Mathlib.Data.Nat.Log
import Mathlib.Tactic.Linarith
import Mathlib.Tactic.NormNum
import Mathlib.Tactic.Ring

/-!
# The nearest double

What it is for a double to be nearest to a rational that is not negative: no other double is nearer,
and where another one is as near, the significand is even. The exponent is not bounded above in
this, and a number whose exponent is too large stands for infinity.

There is one such number for each rational. It is the one from which the rational is no further away
than half the way to the number above, and half the way to the number below. An exact ratio is
rounded to it.
-/

namespace EggLang.Binary64

/-- A significand and exponent that are the only ones of their number: the significand has 53 bits,
or the exponent is the least one. -/
structure Canonical (m : Nat) (e : Int) : Prop where
  few : m < 2 ^ 53
  least : leastExponent ≤ e
  full : 2 ^ 52 ≤ m ∨ e = leastExponent

/-- The exact value of a significand and an exponent. -/
def worth (m : Nat) (e : Int) : ℚ := m * 2 ^ e

/-- The rational is rounded to the number: no other is nearer to it, and if another is as near, the
significand is even. -/
structure Rounds (q : ℚ) (m : Nat) (e : Int) : Prop where
  canonical : Canonical m e
  nearest : ∀ n f, Canonical n f → |q - worth m e| ≤ |q - worth n f|
  even : ∀ n f, Canonical n f → worth n f ≠ worth m e → |q - worth m e| = |q - worth n f| →
    m % 2 = 0

/-- The number is the nearest to the rational, infinite where the nearest one is beyond the largest
finite number. -/
def IsNearest (q : ℚ) (x : Binary64) : Prop :=
  ∃ m e, Rounds q m e
    ∧ x = if greatestExponent < e then .infinite false else .finite false m e

variable {q : ℚ} {m n : Nat} {e f : Int}

/-! ## Powers of two -/

theorem unit_pos (e : Int) : (0 : ℚ) < 2 ^ e := zpow_pos two_pos e

theorem unit_succ (e : Int) : (2 : ℚ) ^ (e + 1) = 2 * 2 ^ e := by
  rw [zpow_add_one₀ two_ne_zero, mul_comm]

theorem unit_pred (e : Int) : (2 : ℚ) ^ e = 2 * 2 ^ (e - 1) := by
  rw [← unit_succ, sub_add_cancel]

theorem unit_le (h : f ≤ e) : (2 : ℚ) ^ f ≤ 2 ^ e := zpow_le_zpow_right₀ one_le_two h

theorem unit_split (h : f ≤ e) :
    ∃ k : Nat, (2 : ℚ) ^ e = ((2 ^ k : Nat) : ℚ) * 2 ^ f ∧ e = f + k := by
  refine ⟨(e - f).toNat, ?_, by omega⟩
  have split : e = ((e - f).toNat : Int) + f := by omega
  rw [Nat.cast_pow, Nat.cast_ofNat, ← zpow_natCast, ← zpow_add₀ two_ne_zero, ← split]

/-! ## Neighbours -/

theorem Canonical.inj (h : Canonical m e) (g : Canonical n f) (same : worth m e = worth n f) :
    m = n ∧ e = f := by
  have ordered {m n : Nat} {e f : Int} (h : Canonical m e) (g : Canonical n f)
      (same : worth m e = worth n f) : f ≤ e := by
    by_contra less
    obtain ⟨k, split, sum⟩ := unit_split (f := e) (e := f) (by omega)
    have whole : m = n * 2 ^ k := by
      rw [worth, worth, split, ← mul_assoc] at same
      exact_mod_cast mul_right_cancel₀ (unit_pos e).ne' same
    have two : 2 ≤ 2 ^ k := Nat.le_self_pow (by omega) 2
    have full := g.full.resolve_right (by have := h.least; omega)
    have := h.few
    nlinarith
  obtain rfl : e = f := le_antisymm (ordered g h same.symm) (ordered h g same)
  exact ⟨by exact_mod_cast mul_right_cancel₀ (unit_pos e).ne' same, rfl⟩

/-- The number above is a unit of the last place away. -/
theorem Canonical.gap_above (h : Canonical m e) (g : Canonical n f) (less : worth m e < worth n f) :
    worth m e + 2 ^ e ≤ worth n f := by
  by_cases coarse : e ≤ f
  · obtain ⟨k, split, -⟩ := unit_split coarse
    rw [worth, worth, split, ← mul_assoc] at less
    have below : m + 1 ≤ n * 2 ^ k := by
      exact_mod_cast lt_of_mul_lt_mul_right less (unit_pos e).le
    have scaled : ((m + 1 : Nat) : ℚ) * 2 ^ e ≤ ((n * 2 ^ k : Nat) : ℚ) * 2 ^ e :=
      mul_le_mul_of_nonneg_right (by exact_mod_cast below) (unit_pos e).le
    rw [worth, worth, split, ← mul_assoc]
    push_cast at scaled ⊢
    linarith
  · exfalso
    obtain ⟨k, split, sum⟩ := unit_split (f := f) (e := e) (by omega)
    rw [worth, worth, split, ← mul_assoc] at less
    have below : m * 2 ^ k < n := by
      exact_mod_cast lt_of_mul_lt_mul_right less (unit_pos f).le
    have two : 2 ≤ 2 ^ k := Nat.le_self_pow (by omega) 2
    have full := h.full.resolve_right (by have := g.least; omega)
    have := g.few
    nlinarith

/-- How far away the number below is: half as far at a power of two. -/
def gapBelow (m : Nat) (e : Int) : ℚ :=
  if m = 2 ^ 52 ∧ leastExponent < e then 2 ^ (e - 1) else 2 ^ e

theorem gapBelow_pos (m : Nat) (e : Int) : 0 < gapBelow m e := by
  rw [gapBelow]
  split_ifs
  · exact unit_pos _
  · exact unit_pos _

theorem gapBelow_le (m : Nat) (e : Int) : gapBelow m e ≤ 2 ^ e := by
  rw [gapBelow]
  split_ifs
  · exact unit_le (by omega)
  · exact le_rfl

theorem Canonical.gap_below (h : Canonical m e) (g : Canonical n f) (less : worth n f < worth m e) :
    worth n f + gapBelow m e ≤ worth m e := by
  by_cases coarse : e ≤ f
  · obtain ⟨k, split, -⟩ := unit_split coarse
    rw [worth, worth, split, ← mul_assoc] at less
    have below : n * 2 ^ k + 1 ≤ m := by
      exact_mod_cast lt_of_mul_lt_mul_right less (unit_pos e).le
    have scaled : ((n * 2 ^ k + 1 : Nat) : ℚ) * 2 ^ e ≤ (m : ℚ) * 2 ^ e :=
      mul_le_mul_of_nonneg_right (by exact_mod_cast below) (unit_pos e).le
    have := gapBelow_le m e
    rw [worth, worth, split, ← mul_assoc]
    push_cast at scaled ⊢
    linarith
  · have full := h.full.resolve_right (by have := g.least; omega)
    have pos := unit_pos (e - 1)
    -- the other number has no more than 53 bits at half the unit
    have other : worth n f ≤ (2 ^ 53 - 1) * 2 ^ (e - 1) := by
      have few : (n : ℚ) ≤ 2 ^ 53 - 1 := by
        have : n + 1 ≤ 2 ^ 53 := g.few
        have : ((n + 1 : Nat) : ℚ) ≤ ((2 ^ 53 : Nat) : ℚ) := by exact_mod_cast this
        push_cast at this
        linarith
      exact mul_le_mul few (unit_le (by omega)) (unit_pos f).le (by norm_num)
    rw [gapBelow, worth, worth, unit_pred e]
    rw [worth] at other
    split_ifs with power
    · rw [power.1]
      push_cast
      linarith
    · have more : ((2 ^ 52 + 1 : Nat) : ℚ) ≤ (m : ℚ) := by
        have : 2 ^ 52 + 1 ≤ m := by
          have : m ≠ 2 ^ 52 := fun same => power ⟨same, by have := g.least; omega⟩
          omega
        exact_mod_cast this
      have := mul_le_mul_of_nonneg_right more pos.le
      push_cast at this
      linarith

/-- The number above is a double. -/
theorem Canonical.above (h : Canonical m e) :
    ∃ n f, Canonical n f ∧ worth n f = worth m e + 2 ^ e ∧ (m % 2 = 0 → n = m + 1) := by
  have := h.few
  by_cases last : m + 1 = 2 ^ 53
  · refine ⟨2 ^ 52, e + 1, ⟨by norm_num, by have := h.least; omega, .inl le_rfl⟩, ?_, by omega⟩
    have whole : (m : ℚ) + 1 = 2 ^ 53 := by exact_mod_cast last
    rw [worth, worth, unit_succ, eq_sub_of_add_eq whole]
    push_cast
    ring
  · refine ⟨m + 1, e, ⟨by omega, h.least, ?_⟩, ?_, fun _ => rfl⟩
    · exact h.full.imp (by omega) id
    · rw [worth, worth]
      push_cast
      ring

/-- The number below is a double. -/
theorem Canonical.below (h : Canonical m e) (pos : 0 < m) :
    ∃ n f, Canonical n f ∧ worth n f = worth m e - gapBelow m e := by
  by_cases power : m = 2 ^ 52 ∧ leastExponent < e
  · obtain ⟨rfl, more⟩ := power
    refine ⟨2 ^ 53 - 1, e - 1, ⟨by norm_num, by omega, .inl (by norm_num)⟩, ?_⟩
    rw [gapBelow, if_pos ⟨rfl, more⟩, worth, worth, unit_pred e]
    push_cast
    ring
  · refine ⟨m - 1, e, ⟨by have := h.few; omega, h.least, ?_⟩, ?_⟩
    · have := h.least
      rcases h.full with full | same
      · by_cases least : e = leastExponent
        · exact .inr least
        · exact .inl (by omega)
      · exact .inr same
    · have whole : ((m - 1 : Nat) : ℚ) = m - 1 := by
        rw [Nat.cast_sub pos, Nat.cast_one]
      rw [gapBelow, if_neg power, worth, worth, whole]
      ring

/-! ## The rationals that are rounded to a number -/

section Distances

variable {a b : ℚ}

theorem abs_le_of_lt (less : a < b) : |q - a| ≤ |q - b| ↔ 2 * q ≤ a + b := by
  rcases abs_cases (q - a) with ⟨same, sign⟩ | ⟨same, sign⟩ <;>
    rcases abs_cases (q - b) with ⟨same', sign'⟩ | ⟨same', sign'⟩ <;>
    rw [same, same'] <;> constructor <;> intro <;> linarith

theorem abs_le_of_gt (less : b < a) : |q - a| ≤ |q - b| ↔ a + b ≤ 2 * q := by
  rcases abs_cases (q - a) with ⟨same, sign⟩ | ⟨same, sign⟩ <;>
    rcases abs_cases (q - b) with ⟨same', sign'⟩ | ⟨same', sign'⟩ <;>
    rw [same, same'] <;> constructor <;> intro <;> linarith

theorem abs_eq_of_lt (less : a < b) : |q - a| = |q - b| ↔ 2 * q = a + b := by
  rw [le_antisymm_iff, le_antisymm_iff, abs_le_of_lt less, abs_le_of_gt less, add_comm b a]

end Distances

/-- The rational is at most half the way to the neighbours away from the number, and less than that
if the significand is odd. -/
structure Near (q : ℚ) (m : Nat) (e : Int) : Prop where
  low : 2 * (worth m e - q) ≤ gapBelow m e
  high : 2 * (q - worth m e) ≤ 2 ^ e
  even : 2 * (worth m e - q) = gapBelow m e ∨ 2 * (q - worth m e) = 2 ^ e → m % 2 = 0

theorem Near.rounds (h : Canonical m e) (near : Near q m e) : Rounds q m e := by
  obtain ⟨low, high, even⟩ := near
  refine ⟨h, fun n f g => ?_, fun n f g other tie => even ?_⟩
  · rcases lt_trichotomy (worth n f) (worth m e) with less | same | more
    · have gap := h.gap_below g less
      exact (abs_le_of_gt less).2 (by linarith)
    · rw [same]
    · have gap := h.gap_above g more
      exact (abs_le_of_lt more).2 (by linarith)
  · rcases lt_or_gt_of_ne other with less | more
    · have gap := h.gap_below g less
      have middle := (abs_eq_of_lt less).1 tie.symm
      exact .inl (by linarith)
    · have gap := h.gap_above g more
      have middle := (abs_eq_of_lt more).1 tie
      exact .inr (by linarith)

theorem Rounds.near (h : Rounds q m e) (pos : 0 ≤ q) : Near q m e := by
  have unit := unit_pos e
  have gap := gapBelow_pos m e
  obtain ⟨n, f, above, next, -⟩ := h.canonical.above
  have more : worth m e < worth n f := by linarith
  have high := (abs_le_of_lt more).1 (h.nearest n f above)
  have high_even (tie : 2 * (q - worth m e) = 2 ^ e) : m % 2 = 0 :=
    h.even n f above more.ne' ((abs_eq_of_lt more).2 (by linarith))
  by_cases zero : m = 0
  · have nothing : worth m e = 0 := by simp [worth, zero]
    exact ⟨by linarith, by linarith, fun _ => by rw [zero]⟩
  · obtain ⟨n, f, below, next⟩ := h.canonical.below (Nat.pos_of_ne_zero zero)
    have less : worth n f < worth m e := by linarith
    have low := (abs_le_of_gt less).1 (h.nearest n f below)
    refine ⟨by linarith, by linarith, fun tie => tie.elim (fun tie => ?_) high_even⟩
    exact h.even n f below less.ne ((abs_eq_of_lt less).2 (by linarith)).symm

theorem Rounds.unique (h : Rounds q m e) (g : Rounds q n f) (pos : 0 ≤ q) : m = n ∧ e = f := by
  have ordered {m n : Nat} {e f : Int} (h : Rounds q m e) (g : Rounds q n f) :
      ¬worth m e < worth n f := by
    intro less
    have tie := le_antisymm (h.nearest n f g.canonical) (g.nearest m e h.canonical)
    have even := h.even n f g.canonical less.ne' tie
    have even' := g.even m e h.canonical less.ne tie.symm
    have middle := (abs_eq_of_lt less).1 tie
    have gap := h.canonical.gap_above g.canonical less
    have high := (h.near pos).high
    -- the other number is the next one, the significand of which is odd
    obtain ⟨n', f', above, next, odd⟩ := h.canonical.above
    obtain ⟨rfl, -⟩ := above.inj g.canonical (by linarith)
    have := odd even
    omega
  refine h.canonical.inj g.canonical (le_antisymm ?_ ?_)
  · exact not_lt.1 (ordered g h)
  · exact not_lt.1 (ordered h g)

theorem IsNearest.unique {x y : Binary64} (h : IsNearest q x) (g : IsNearest q y) (pos : 0 ≤ q) :
    x = y := by
  obtain ⟨m, e, rounds, rfl⟩ := h
  obtain ⟨n, f, rounds', rfl⟩ := g
  obtain ⟨rfl, rfl⟩ := rounds.unique rounds' pos
  rfl

/-- A double is the nearest to its own value. -/
theorem Canonical.rounds (h : Canonical m e) : Rounds (worth m e) m e := by
  have gap := gapBelow_pos m e
  have unit := unit_pos e
  refine Near.rounds h ⟨by linarith, by linarith, fun tie => ?_⟩
  rcases tie with tie | tie <;> linarith

end EggLang.Binary64
