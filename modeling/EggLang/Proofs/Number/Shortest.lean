import EggLang.Proofs.Number.Digits
import EggLang.Proofs.Number.Nearest
import Mathlib.Data.Nat.Digits.Lemmas
import Mathlib.Data.List.DropRight
import Mathlib.Tactic.FieldSimp
import Mathlib.Tactic.LinearCombination

/-!
# The shortest decimal

The decimal of a positive number is rounded to the number again, and no decimal of fewer digits is.
The search goes from coarse grids of decimals to finer ones and ends at the first that has a decimal
in the interval of the number. A power of ten between two decimals of the interval is on a coarser
grid, so the decimals of the interval on the grid that is found and on finer ones are not of fewer
digits; and eighteen places behind the first digit some decimal is in the interval.
-/

namespace EggLang.Decimal

open Binary64 (Canonical Rounds Near worth gapBelow unit_pos unit_pred leastExponent)

/-! ## Powers of ten -/

theorem ten_pos (s : Int) : (0 : ℚ) < 10 ^ s := zpow_pos (by norm_num) s

theorem ten_le {s t : Int} (h : s ≤ t) : (10 : ℚ) ^ s ≤ 10 ^ t :=
  zpow_le_zpow_right₀ (by norm_num) h

theorem ten_add (s t : Int) : (10 : ℚ) ^ (s + t) = 10 ^ s * 10 ^ t := zpow_add₀ (by norm_num) s t

theorem ten_ofNat (k : Nat) : (10 : ℚ) ^ (k : Int) = ((10 ^ k : Nat) : ℚ) := by
  rw [zpow_natCast]
  push_cast
  rfl

theorem ten_toNat {s : Int} (h : 0 ≤ s) : (10 : ℚ) ^ s = ((10 ^ s.toNat : Nat) : ℚ) := by
  rw [← ten_ofNat, Int.toNat_of_nonneg h]

theorem ten_toNat_neg {s : Int} (h : ¬0 ≤ s) :
    (10 : ℚ) ^ s * ((10 ^ (-s).toNat : Nat) : ℚ) = 1 := by
  rw [← ten_ofNat, Int.toNat_of_nonneg (by omega), ← ten_add, add_neg_cancel, zpow_zero]

/-! ## Digits and their values -/

/-- The value of decimal digits, most significant first. -/
def valueOf (ds : List Nat) : Nat := Nat.ofDigits 10 ds.reverse

/-- The exact value of a decimal. -/
def toRat (d : Decimal) : ℚ := valueOf d.digits * 10 ^ (d.point - d.digits.length)

variable {ds : List Nat} {n w : Nat} {s t : Int} {i : Interval} {q x y : ℚ} {m : Nat} {e : Int}

theorem valueOf_append (ds es : List Nat) :
    valueOf (ds ++ es) = valueOf ds * 10 ^ es.length + valueOf es := by
  rw [valueOf, List.reverse_append, Nat.ofDigits_append, List.length_reverse, Nat.mul_comm,
    Nat.add_comm]
  rfl

theorem valueOf_zeros (k : Nat) : valueOf (List.replicate k 0) = 0 := by
  rw [valueOf, List.reverse_replicate, Nat.ofDigits_replicate_zero]

theorem valueOf_lt (small : ∀ d ∈ ds, d < 10) : valueOf ds < 10 ^ ds.length := by
  rw [valueOf, ← List.length_reverse]
  exact Nat.ofDigits_lt_base_pow_length (by omega) fun d mem => small d (List.mem_reverse.1 mem)

theorem Leading.le_valueOf (h : Leading ds) : 10 ^ (ds.length - 1) ≤ valueOf ds := by
  obtain ⟨-, d, rest, rfl, nonzero⟩ := h
  have split := valueOf_append [d] rest
  have first : valueOf [d] = d := by simp [valueOf]
  rw [List.singleton_append, first] at split
  rw [split, List.length_cons, Nat.add_sub_cancel]
  have := Nat.le_mul_of_pos_left (10 ^ rest.length) (Nat.pos_of_ne_zero nonzero)
  omega

theorem valueOf_digitsOf (n : Nat) : valueOf (digitsOf n) = n := by
  induction n using Nat.strong_induction_on with
  | _ n ih =>
    by_cases small : n < 10
    · rw [digitsOf_small small]
      simp [valueOf]
    · rw [digitsOf_large (by omega), valueOf_append, ih (n / 10) (by omega)]
      simp [valueOf]
      omega

theorem exists_zeros (ds : List Nat) : ∃ k, ds = dropTrailingZeros ds ++ List.replicate k 0 := by
  have zeros : ∀ d ∈ ds.reverse.takeWhile (· == 0), d = 0 := fun d mem => by
    simpa using List.mem_takeWhile_imp mem
  refine ⟨(ds.reverse.takeWhile (· == 0)).length, ?_⟩
  calc ds = (ds.reverse.takeWhile (· == 0) ++ ds.reverse.dropWhile (· == 0)).reverse := by
        rw [List.takeWhile_append_dropWhile, List.reverse_reverse]
    _ = dropTrailingZeros ds ++ (ds.reverse.takeWhile (· == 0)).reverse := List.reverse_append
    _ = _ := by rw [List.eq_replicate_of_mem zeros, List.reverse_replicate, List.length_replicate]

theorem toRat_ofScaled (n : Nat) (s : Int) : (ofScaled n s).toRat = n * 10 ^ s := by
  obtain ⟨k, split⟩ := exists_zeros (digitsOf n)
  have value := valueOf_digitsOf n
  have length := congrArg List.length split
  rw [split, valueOf_append, valueOf_zeros, List.length_replicate, Nat.add_zero] at value
  rw [List.length_append, List.length_replicate] at length
  have place : ((digitsOf n).length : Int) + s - (dropTrailingZeros (digitsOf n)).length
      = k + s := by omega
  have whole : (n : ℚ) = valueOf (dropTrailingZeros (digitsOf n)) * ((10 ^ k : Nat) : ℚ) := by
    exact_mod_cast value.symm
  simp only [toRat, ofScaled, place]
  rw [whole, ten_add, ten_ofNat]
  ring

theorem length_ofScaled (n : Nat) (s : Int) :
    (ofScaled n s).digits.length ≤ (digitsOf n).length := by
  obtain ⟨k, split⟩ := exists_zeros (digitsOf n)
  have length := congrArg List.length split
  rw [List.length_append] at length
  show (dropTrailingZeros (digitsOf n)).length ≤ _
  omega

/-- The length of a number's digits is that of its power of ten. -/
theorem digitsOf_bounds (pos : 0 < n) :
    10 ^ ((digitsOf n).length - 1) ≤ n ∧ n < 10 ^ (digitsOf n).length := by
  have leading := leading_digitsOf pos
  have low := leading.le_valueOf
  have high := valueOf_lt leading.small
  rw [valueOf_digitsOf] at low high
  exact ⟨low, high⟩

namespace Interval

/-! ## Intervals -/

/-- The rational is in the interval. -/
def Contains (i : Interval) (q : ℚ) : Prop :=
  if i.closed then i.low ≤ q * i.den ∧ q * i.den ≤ i.high
  else i.low < q * i.den ∧ q * i.den < i.high

theorem Contains.between (h : i.Contains x) (g : i.Contains y) (low : x ≤ q) (high : q ≤ y) :
    i.Contains q := by
  have den : (0 : ℚ) ≤ i.den := Nat.cast_nonneg _
  have low' := mul_le_mul_of_nonneg_right low den
  have high' := mul_le_mul_of_nonneg_right high den
  simp only [Contains] at h g ⊢
  split_ifs at h g ⊢
  · exact ⟨h.1.trans low', high'.trans g.2⟩
  · exact ⟨h.1.trans_le low', high'.trans_lt g.2⟩

/-- Both sides of a comparison with a decimal are multiplied by the same factor. -/
theorem aligned_spec (i : Interval) (n : Nat) (s : Int) :
    0 < (i.aligned n s).2
      ∧ ((i.aligned n s).1 : ℚ) = n * 10 ^ s * i.den * ((i.aligned n s).2 : ℚ) := by
  by_cases up : 0 ≤ s
  · rw [aligned, if_pos up, ten_toNat up]
    exact ⟨one_pos, by rw [Nat.pow_eq]; push_cast; ring⟩
  · have power := ten_toNat_neg up
    rw [aligned, if_neg up]
    refine ⟨Nat.pow_pos (by omega), ?_⟩
    rw [Nat.pow_eq]
    push_cast at power ⊢
    linear_combination (-(n : ℚ) * i.den) * power

theorem holds_iff (i : Interval) (n : Nat) (s : Int) :
    i.holds n s = true ↔ i.Contains (n * 10 ^ s) := by
  obtain ⟨pos, aligned⟩ := i.aligned_spec n s
  have factor : (0 : ℚ) < (i.aligned n s).2 := by exact_mod_cast pos
  have low_le : i.low * (i.aligned n s).2 ≤ (i.aligned n s).1
      ↔ (i.low : ℚ) ≤ n * 10 ^ s * i.den := by
    rw [← Nat.cast_le (α := ℚ), Nat.cast_mul, aligned, mul_le_mul_iff_left₀ factor]
  have high_le : (i.aligned n s).1 ≤ i.high * (i.aligned n s).2
      ↔ n * 10 ^ s * i.den ≤ (i.high : ℚ) := by
    rw [← Nat.cast_le (α := ℚ), Nat.cast_mul, aligned, mul_le_mul_iff_left₀ factor]
  have low_lt : i.low * (i.aligned n s).2 < (i.aligned n s).1
      ↔ (i.low : ℚ) < n * 10 ^ s * i.den := by
    rw [← Nat.cast_lt (α := ℚ), Nat.cast_mul, aligned, mul_lt_mul_iff_left₀ factor]
  have high_lt : (i.aligned n s).1 < i.high * (i.aligned n s).2
      ↔ n * 10 ^ s * i.den < (i.high : ℚ) := by
    rw [← Nat.cast_lt (α := ℚ), Nat.cast_mul, aligned, mul_lt_mul_iff_left₀ factor]
  simp only [holds, Contains]
  split_ifs <;> simp only [Bool.and_eq_true, decide_eq_true_eq, low_le, high_le, low_lt, high_lt]

/-- The value in the middle of the interval. -/
def middle (i : Interval) : ℚ := i.value / i.den

/-- The largest decimal of a grid that is not above the value. -/
theorem floorAt_spec (i : Interval) (pos : 0 < i.den) (s : Int) :
    (i.floorAt s : ℚ) * 10 ^ s ≤ i.middle ∧ i.middle < (i.floorAt s + 1) * 10 ^ s := by
  have den : (0 : ℚ) < i.den := by exact_mod_cast pos
  have unit := ten_pos s
  rw [middle, le_div_iff₀ den, div_lt_iff₀ den]
  by_cases up : 0 ≤ s
  · rw [floorAt, if_pos up, ten_toNat up, Nat.pow_eq]
    have divisor : 0 < i.den * 10 ^ s.toNat := Nat.mul_pos pos (Nat.pow_pos (by omega))
    have low : (_ : ℚ) ≤ _ := Nat.cast_le.2 (Nat.div_mul_le_self i.value (i.den * 10 ^ s.toNat))
    have high : (_ : ℚ) < _ := Nat.cast_lt.2 (Nat.lt_div_mul_add (a := i.value) divisor)
    generalize i.value / (i.den * 10 ^ s.toNat) = n at *
    push_cast at low high ⊢
    constructor
    · linarith
    · linarith
  · have power := ten_toNat_neg up
    rw [floorAt, if_neg up, Nat.pow_eq]
    have low : (_ : ℚ) ≤ _ := Nat.cast_le.2 (Nat.div_mul_le_self (i.value * 10 ^ (-s).toNat) i.den)
    have high : (_ : ℚ) < _ :=
      Nat.cast_lt.2 (Nat.lt_div_mul_add (a := i.value * 10 ^ (-s).toNat) pos)
    generalize i.value * 10 ^ (-s).toNat / i.den = n at *
    have value : (i.value : ℚ) = (i.value * 10 ^ (-s).toNat : Nat) * 10 ^ s := by
      push_cast at power ⊢
      linear_combination (-(i.value : ℚ)) * power
    have low' := mul_le_mul_of_nonneg_right low unit.le
    have high' := mul_lt_mul_of_pos_right high unit
    rw [← value] at low' high'
    push_cast at low' high' ⊢
    constructor
    · linarith
    · linarith

/-! ## Grids -/

/-- An interval around its value. -/
structure Proper (i : Interval) : Prop where
  den : 0 < i.den
  some : 0 < i.value
  inside : i.Contains i.middle

/-- No positive decimal of the grid is in the interval. -/
def Misses (i : Interval) (s : Int) : Prop := ∀ n : Nat, 0 < n → ¬i.Contains (n * 10 ^ s)

/-- A coarser grid has none where a grid has none. -/
theorem Misses.coarser (h : i.Misses s) (le : s ≤ t) : i.Misses t := by
  intro n pos inside
  refine h (n * 10 ^ (t - s).toNat) (Nat.mul_pos pos (Nat.pow_pos (by omega))) ?_
  have split : (10 : ℚ) ^ t = ((10 ^ (t - s).toNat : Nat) : ℚ) * 10 ^ s := by
    rw [← ten_toNat (by omega), ← ten_add, sub_add_cancel]
  rwa [Nat.cast_mul, mul_assoc, ← split]

/-- What is found on a grid is in the interval and next to the value. -/
theorem onGrid_spec (found : i.onGrid? s = some n) :
    0 < n ∧ i.Contains (n * 10 ^ s) ∧ (n = i.floorAt s ∨ n = i.floorAt s + 1) := by
  have below (h : (i.holds (i.floorAt s) s && i.floorAt s != 0) = true) :
      0 < i.floorAt s ∧ i.Contains (i.floorAt s * 10 ^ s) := by
    simp only [Bool.and_eq_true, bne_iff_ne] at h
    exact ⟨Nat.pos_of_ne_zero h.2, (i.holds_iff _ _).1 h.1⟩
  have above (h : i.holds (i.floorAt s + 1) s = true) :
      0 < i.floorAt s + 1 ∧ i.Contains ((i.floorAt s + 1 : Nat) * 10 ^ s) :=
    ⟨Nat.succ_pos _, (i.holds_iff _ _).1 h⟩
  simp only [onGrid?] at found
  split at found
  · next h g =>
    split_ifs at found <;> cases found
    · exact ⟨(below h).1, (below h).2, .inl rfl⟩
    · exact ⟨(above g).1, (above g).2, .inr rfl⟩
    · exact ⟨(below h).1, (below h).2, .inl rfl⟩
    · exact ⟨(above g).1, (above g).2, .inr rfl⟩
  · next h g =>
    cases found
    exact ⟨(below h).1, (below h).2, .inl rfl⟩
  · next h g =>
    cases found
    exact ⟨(above g).1, (above g).2, .inr rfl⟩
  · cases found

/-- Where nothing is found on a grid, nothing is there: a decimal of the grid is not closer than the
two around the value. -/
theorem misses_of_onGrid (h : i.Proper) (none : i.onGrid? s = none) : i.Misses s := by
  intro n pos inside
  obtain ⟨floor_le, lt_next⟩ := i.floorAt_spec h.den s
  have unit := ten_pos s
  have empty : (i.holds (i.floorAt s) s && i.floorAt s != 0) = false
      ∧ i.holds (i.floorAt s + 1) s = false := by
    simp only [onGrid?] at none
    split at none
    · split_ifs at none
    · cases none
    · cases none
    · next h g => exact ⟨by simpa using h, by simpa using g⟩
  by_cases below : n ≤ i.floorAt s
  · have nearer : (n : ℚ) * 10 ^ s ≤ i.floorAt s * 10 ^ s :=
      mul_le_mul_of_nonneg_right (by exact_mod_cast below) unit.le
    have holds := (i.holds_iff _ _).2 (inside.between h.inside nearer floor_le)
    have nonzero : i.floorAt s ≠ 0 := by omega
    simp [holds, nonzero] at empty
  · have nearer : ((i.floorAt s + 1 : Nat) : ℚ) * 10 ^ s ≤ n * 10 ^ s :=
      mul_le_mul_of_nonneg_right (by exact_mod_cast Nat.lt_of_not_le below) unit.le
    push_cast at nearer
    have holds := (i.holds_iff (i.floorAt s + 1) s).2 (by
      push_cast
      exact h.inside.between inside lt_next.le nearer)
    rw [holds] at empty
    cases empty.2

/-- The search ends at a grid behind grids that have nothing. -/
theorem search_spec (h : i.Proper) {grids : Nat} {d : Decimal} (found : i.search grids s = some d) :
    ∃ n t, i.onGrid? t = some n ∧ d = ofScaled n t ∧ t ≤ s ∧ (t < s → i.Misses (t + 1)) := by
  induction grids generalizing s with
  | zero => cases found
  | succ grids ih =>
    rw [search] at found
    split at found
    · next n here =>
      cases found
      exact ⟨n, s, here, rfl, le_rfl, fun less => absurd less (lt_irrefl s)⟩
    · next none =>
      obtain ⟨n, t, there, same, le, misses⟩ := ih found
      refine ⟨n, t, there, same, by omega, fun less => ?_⟩
      by_cases last : t = s - 1
      · rw [last, sub_add_cancel]
        exact misses_of_onGrid h none
      · exact misses (by omega)

/-- The search finds something if one of its grids has something. -/
theorem search_some {grids j : Nat} (less : j < grids)
    (here : i.onGrid? (s - j) ≠ none) : i.search grids s ≠ none := by
  induction grids generalizing s j with
  | zero => omega
  | succ grids ih =>
    rw [search]
    split
    · exact Option.some_ne_none _
    · next none =>
      cases j with
      | zero =>
        rw [Nat.cast_zero, sub_zero] at here
        exact absurd none here
      | succ j =>
        refine ih (j := j) (by omega) ?_
        rwa [sub_sub, add_comm, ← Nat.cast_succ]

end Interval

/-! ## The position of the point -/

theorem length_digitsOf (n : Nat) : (digitsOf n).length = (Nat.toDigits 10 n).length :=
  List.length_map _

/-- A quotient of natural numbers lies between powers of ten that its whole part tells. -/
theorem quotient_bounds {num den : Nat} (pos : 0 < den) (whole : num / den ≠ 0) :
    ∃ k, (Nat.toDigits 10 (num / den)).length = k + 1 ∧ (10 : ℚ) ^ (k : Int) ≤ num / den
      ∧ (num / den : ℚ) < 10 ^ ((k : Int) + 1) := by
  obtain ⟨low, high⟩ := digitsOf_bounds (Nat.pos_of_ne_zero whole)
  obtain ⟨k, long⟩ : ∃ k, (Nat.toDigits 10 (num / den)).length = k + 1 :=
    ⟨_, (Nat.succ_pred_eq_of_pos Nat.length_toDigits_pos).symm⟩
  rw [length_digitsOf, long] at low high
  have divisor : (0 : ℚ) < den := by exact_mod_cast pos
  refine ⟨k, long, ?_, ?_⟩
  · rw [ten_ofNat, le_div_iff₀ divisor]
    exact_mod_cast (Nat.le_div_iff_mul_le pos).1 low
  · rw [← Nat.cast_succ, ten_ofNat, div_lt_iff₀ divisor]
    exact_mod_cast (Nat.div_lt_iff_lt_mul pos).1 high

theorem pointOf_spec {num den : Nat} (some : 0 < num) (pos : 0 < den) :
    (10 : ℚ) ^ (pointOf num den - 1) ≤ num / den ∧ (num / den : ℚ) < 10 ^ pointOf num den := by
  by_cases whole : num / den = 0
  · have less := (Nat.div_eq_zero_iff_lt pos).1 whole
    have inverse : den / num ≠ 0 := (Nat.div_pos less.le some).ne'
    obtain ⟨k, long, low, high⟩ := quotient_bounds some inverse
    have dividend : (0 : ℚ) < num := by exact_mod_cast some
    have divisor : (0 : ℚ) < den := by exact_mod_cast pos
    have flipped : (num / den : ℚ) = (den / num : ℚ)⁻¹ := (inv_div _ _).symm
    have ratio : (0 : ℚ) < den / num := div_pos divisor dividend
    by_cases power : Nat.pow 10 k * num = den
    · have point : pointOf num den = 1 - k := by
        simp only [pointOf, whole, long, Nat.add_sub_cancel, if_pos power, ne_eq,
          not_true_eq_false, if_false]
        omega
      have exact : (num / den : ℚ) = 10 ^ (-(k : Int)) := by
        rw [← power, zpow_neg, ten_ofNat, Nat.pow_eq]
        push_cast
        field_simp
      rw [point, exact]
      exact ⟨ten_le (by omega), zpow_lt_zpow_right₀ (by norm_num) (by omega)⟩
    · have point : pointOf num den = -k := by
        simp only [pointOf, whole, long, Nat.add_sub_cancel, if_neg power, ne_eq,
          not_true_eq_false, if_false]
        omega
      have unequal : (10 : ℚ) ^ (k : Int) ≠ den / num := by
        intro same
        rw [ten_ofNat, eq_div_iff dividend.ne'] at same
        exact power (by exact_mod_cast same)
      rw [point, flipped, zpow_neg]
      constructor
      · have split : -(k : Int) - 1 = -((k : Int) + 1) := by omega
        rw [split, zpow_neg]
        exact inv_anti₀ ratio high.le
      · exact inv_strictAnti₀ (ten_pos k) (lt_of_le_of_ne low unequal)
  · obtain ⟨k, long, low, high⟩ := quotient_bounds pos whole
    have point : pointOf num den = k + 1 := by simp [pointOf, whole, long]
    rw [point, add_sub_cancel_right]
    exact ⟨low, high⟩

/-! ## The interval of a number -/

theorem intervalOf_den (m : Nat) (e : Int) : 0 < (intervalOf m e).den := by
  simp only [intervalOf, Nat.pow_eq]
  split_ifs <;> positivity

theorem intervalOf_value (pos : 0 < m) (e : Int) : 0 < (intervalOf m e).value := by
  simp only [intervalOf, Nat.pow_eq]
  split_ifs <;> positivity

/-- Half the way to the number below, in quarters of the last place. -/
def quartersBelow (m : Nat) (e : Int) : Nat := if m = 2 ^ 52 ∧ leastExponent < e then 1 else 2

theorem gapBelow_eq (m : Nat) (e : Int) : 2 * gapBelow m e = quartersBelow m e * 2 ^ e := by
  rw [gapBelow, quartersBelow]
  split_ifs
  · rw [unit_pred e]
    push_cast
    ring
  · push_cast
    ring

/-- The bounds are quarters of the last place over a common denominator. -/
theorem intervalOf_spec (pos : 0 < m) (e : Int) :
    ∃ f : ℚ, 0 < f ∧ ((intervalOf m e).den : ℚ) = 4 * f
      ∧ ((intervalOf m e).low : ℚ) = (4 * m - quartersBelow m e) * 2 ^ e * f
      ∧ ((intervalOf m e).value : ℚ) = 4 * m * 2 ^ e * f
      ∧ ((intervalOf m e).high : ℚ) = (4 * m + 2) * 2 ^ e * f := by
  have below : (if m = Nat.pow 2 52 && leastExponent < e then 1 else 2) = quartersBelow m e := by
    simp [quartersBelow]
  have less : quartersBelow m e ≤ 4 * m := by
    rw [quartersBelow]
    split_ifs <;> omega
  simp only [intervalOf, below, Nat.pow_eq]
  by_cases up : 0 ≤ e
  · have power : (2 : ℚ) ^ e = ((2 ^ e.toNat : Nat) : ℚ) := by
      rw [Nat.cast_pow, Nat.cast_ofNat, ← zpow_natCast, Int.toNat_of_nonneg up]
    refine ⟨1, one_pos, ?_⟩
    simp only [if_pos up, power, Nat.cast_mul, Nat.cast_sub less]
    push_cast
    simp
  · have power : (2 : ℚ) ^ e * ((2 ^ (-e).toNat : Nat) : ℚ) = 1 := by
      rw [Nat.cast_pow, Nat.cast_ofNat, ← zpow_natCast, Int.toNat_of_nonneg (by omega),
        ← zpow_add₀ two_ne_zero, add_neg_cancel, zpow_zero]
    refine ⟨(2 ^ (-e).toNat : Nat), by exact_mod_cast Nat.two_pow_pos _, ?_⟩
    simp only [if_neg up, mul_assoc, power, mul_one, Nat.cast_sub less]
    push_cast
    simp

theorem middle_intervalOf (pos : 0 < m) (e : Int) : (intervalOf m e).middle = worth m e := by
  obtain ⟨f, positive, den, -, value, -⟩ := intervalOf_spec pos e
  rw [Interval.middle, den, value, worth]
  field_simp

theorem contains_iff (pos : 0 < m) (e : Int) (q : ℚ) :
    (intervalOf m e).Contains q ↔ Near q m e := by
  obtain ⟨f, positive, den, low, -, high⟩ := intervalOf_spec pos e
  have gap := gapBelow_eq m e
  have closed : (intervalOf m e).closed = decide (m % 2 = 0) := rfl
  -- both bounds of the interval without the common denominator
  have below : q * (4 * f) - (4 * m - quartersBelow m e) * 2 ^ e * f
      = (gapBelow m e - 2 * (worth m e - q)) * (2 * f) := by
    rw [worth]
    linear_combination (-f) * gap
  have above : (4 * m + 2) * 2 ^ e * f - q * (4 * f)
      = (2 ^ e - 2 * (q - worth m e)) * (2 * f) := by
    rw [worth]
    ring
  have factor : 0 < 2 * f := by linarith
  have low_le : (4 * m - quartersBelow m e) * 2 ^ e * f ≤ q * (4 * f)
      ↔ 2 * (worth m e - q) ≤ gapBelow m e := by
    rw [← sub_nonneg, below, mul_nonneg_iff_of_pos_right factor, sub_nonneg]
  have high_le : q * (4 * f) ≤ (4 * m + 2) * 2 ^ e * f ↔ 2 * (q - worth m e) ≤ 2 ^ e := by
    rw [← sub_nonneg, above, mul_nonneg_iff_of_pos_right factor, sub_nonneg]
  have low_lt : (4 * m - quartersBelow m e) * 2 ^ e * f < q * (4 * f)
      ↔ 2 * (worth m e - q) < gapBelow m e := by
    rw [← sub_pos, below, mul_pos_iff_of_pos_right factor, sub_pos]
  have high_lt : q * (4 * f) < (4 * m + 2) * 2 ^ e * f ↔ 2 * (q - worth m e) < 2 ^ e := by
    rw [← sub_pos, above, mul_pos_iff_of_pos_right factor, sub_pos]
  rw [Interval.Contains, closed, den, low, high, low_le, high_le, low_lt, high_lt]
  by_cases even : m % 2 = 0
  · rw [if_pos (by simpa using even)]
    exact ⟨fun h => ⟨h.1, h.2, fun _ => even⟩, fun h => ⟨h.low, h.high⟩⟩
  · rw [if_neg (by simpa using even)]
    constructor
    · rintro ⟨less, less'⟩
      exact ⟨less.le, less'.le, fun tie => absurd tie (not_or.2 ⟨less.ne, less'.ne⟩)⟩
    · intro h
      exact ⟨lt_of_le_of_ne h.low fun tie => even (h.even (.inl tie)),
        lt_of_le_of_ne h.high fun tie => even (h.even (.inr tie))⟩

theorem proper_intervalOf (pos : 0 < m) (e : Int) : (intervalOf m e).Proper where
  den := intervalOf_den m e
  some := intervalOf_value pos e
  inside := by
    have gap := Binary64.gapBelow_pos m e
    have unit := unit_pos e
    rw [contains_iff pos, middle_intervalOf pos]
    exact ⟨by linarith, by linarith, fun tie => by rcases tie with tie | tie <;> linarith⟩

/-- What rounds to a number is what its interval has. -/
theorem rounds_iff (h : Canonical m e) (pos : 0 < m) (nonneg : 0 ≤ q) :
    Rounds q m e ↔ (intervalOf m e).Contains q := by
  rw [contains_iff pos]
  exact ⟨fun r => r.near nonneg, fun n => n.rounds h⟩

/-! ## The search -/

/-- The way to the number below is more than 2 / 10^17 of a number. -/
theorem worth_lt_gapBelow (h : Canonical m e) : 2 * worth m e < gapBelow m e * 10 ^ 17 := by
  have unit := unit_pos e
  rw [gapBelow, worth]
  split_ifs with power
  · have half := unit_pred e
    have := unit_pos (e - 1)
    rw [power.1, half]
    push_cast
    nlinarith
  · have few : (m : ℚ) < 2 ^ 53 := by exact_mod_cast h.few
    nlinarith

/-- Eighteen places behind the point, the decimal below the number is in its interval. -/
theorem last_grid (h : Canonical m e) (pos : 0 < m) :
    (intervalOf m e).onGrid?
      (pointOf (intervalOf m e).value (intervalOf m e).den - (18 : Nat)) ≠ none := by
  have proper := proper_intervalOf pos e
  have middle := middle_intervalOf pos e
  obtain ⟨large, -⟩ := pointOf_spec proper.some proper.den
  have first := Interval.floorAt_pos _ proper.some proper.den
  generalize pointOf (intervalOf m e).value (intervalOf m e).den = p at *
  intro none
  refine Interval.misses_of_onGrid proper none _ first ((contains_iff pos e _).2 ?_)
  obtain ⟨floor_le, lt_next⟩ := (intervalOf m e).floorAt_spec proper.den (p - 18)
  have split : (10 : ℚ) ^ (p - 1) = 10 ^ 17 * 10 ^ (p - 18) := by
    rw [← zpow_natCast, ← ten_add]
    congr 1
    push_cast
    ring
  have gap := worth_lt_gapBelow h
  have unit := unit_pos e
  rw [Interval.middle] at floor_le lt_next middle
  rw [middle] at floor_le lt_next large
  rw [split] at large
  have close : 2 * (worth m e - (intervalOf m e).floorAt (p - 18) * 10 ^ (p - 18))
      < gapBelow m e := by
    linarith
  push_cast
  exact ⟨close.le, by linarith, fun tie => by rcases tie with tie | tie <;> linarith⟩

/-- The shortest decimal is in the interval, on a grid above which there is nothing; or else it is
the power of ten above the number. -/
theorem shortest_spec (h : Canonical m e) (pos : 0 < m) :
    ∃ n t, shortest m e = ofScaled n t ∧ 0 < n ∧ (intervalOf m e).Contains (n * 10 ^ t)
      ∧ ((intervalOf m e).Misses (t + 1) ∨ n = 1 ∧ worth m e < 10 ^ t) := by
  have proper := proper_intervalOf pos e
  obtain ⟨-, small⟩ := pointOf_spec proper.some proper.den
  have some : (intervalOf m e).search 19 _ ≠ none :=
    Interval.search_some (by omega) (last_grid h pos)
  rw [shortest]
  split
  · next d found =>
    obtain ⟨n, t, here, rfl, le, misses⟩ := Interval.search_spec proper found
    obtain ⟨positive, inside, next⟩ := Interval.onGrid_spec here
    refine ⟨n, t, rfl, positive, inside, ?_⟩
    by_cases less : t < pointOf (intervalOf m e).value (intervalOf m e).den
    · exact .inl (misses less)
    · right
      have same : t = pointOf (intervalOf m e).value (intervalOf m e).den := by omega
      have middle := middle_intervalOf pos e
      rw [Interval.middle] at middle
      rw [← same, middle] at small
      obtain ⟨floor_le, -⟩ := (intervalOf m e).floorAt_spec proper.den t
      rw [Interval.middle, middle] at floor_le
      have none : (intervalOf m e).floorAt t = 0 := by
        by_contra nonzero
        have one : (1 : ℚ) ≤ (intervalOf m e).floorAt t := by
          exact_mod_cast Nat.pos_of_ne_zero nonzero
        have := ten_pos t
        nlinarith
      exact ⟨by omega, small⟩
  · next none => exact absurd none some

/-- A decimal that is rounded to the number has no fewer digits than the shortest one. -/
theorem shortest_least (h : Canonical m e) (pos : 0 < m) {k w : Nat} {s : Int} (some : 0 < k)
    (few : k < 10 ^ w) (inside : (intervalOf m e).Contains (k * 10 ^ s)) :
    (shortest m e).digits.length ≤ w := by
  obtain ⟨n, t, same, positive, found, misses⟩ := shortest_spec h pos
  rw [same]
  refine (length_ofScaled n t).trans ?_
  have width : 1 ≤ w := by
    by_contra none
    obtain rfl : w = 0 := by omega
    omega
  rcases misses with misses | ⟨rfl, -⟩
  · by_contra more
    have fine : s ≤ t := by
      by_contra coarse
      exact misses.coarser (by omega) k some inside
    obtain ⟨low, -⟩ := digitsOf_bounds positive
    set power := (digitsOf n).length - 1 with power_def
    have split : (1 : Nat) * (10 : ℚ) ^ (t + power) = ((10 ^ power : Nat) : ℚ) * 10 ^ t := by
      rw [ten_add, ten_ofNat, Nat.cast_one, one_mul, mul_comm]
    -- this power of ten is between both decimals
    have between : (intervalOf m e).Contains ((1 : Nat) * 10 ^ (t + power)) := by
      rw [split]
      refine inside.between found ?_ ?_
      · have shorter : k ≤ 10 ^ power := few.le.trans (Nat.pow_le_pow_right (by omega) (by omega))
        have shorter' : (k : ℚ) ≤ (10 ^ power : Nat) := by exact_mod_cast shorter
        exact mul_le_mul shorter' (ten_le fine) (ten_pos s).le (Nat.cast_nonneg _)
      · exact mul_le_mul_of_nonneg_right (by exact_mod_cast low) (ten_pos t).le
    exact misses.coarser (t := t + power) (by omega) 1 one_pos between
  · simpa [digitsOf_small] using width

/-- The shortest decimal is rounded to the number. -/
theorem shortest_rounds (h : Canonical m e) (pos : 0 < m) : Rounds (shortest m e).toRat m e := by
  obtain ⟨n, t, same, -, inside, -⟩ := shortest_spec h pos
  rw [same, toRat_ofScaled, rounds_iff h pos (mul_nonneg (Nat.cast_nonneg n) (ten_pos t).le)]
  exact inside

/-- The shortest decimal of a whole number has no fraction. -/
theorem shortest_whole (h : Canonical m e) (pos : 0 < m) {N : Nat} (whole : worth m e = N) :
    ((shortest m e).digits.length : Int) ≤ (shortest m e).point := by
  obtain ⟨n, t, same, positive, -, misses⟩ := shortest_spec h pos
  have some : 0 < worth m e := mul_pos (by exact_mod_cast pos) (unit_pos e)
  have large : 1 ≤ N := by
    rw [whole] at some
    exact_mod_cast some
  have up : 0 ≤ t := by
    by_contra below
    rcases misses with misses | ⟨-, less⟩
    · have inside := (proper_intervalOf pos e).inside
      rw [middle_intervalOf pos, whole] at inside
      exact misses.coarser (t := 0) (by omega) N large (by simpa using inside)
    · have one : (1 : ℚ) ≤ N := by exact_mod_cast large
      have := ten_le (s := t) (t := 0) (by omega)
      rw [zpow_zero] at this
      linarith
  have length := length_ofScaled n t
  rw [same]
  show ((ofScaled n t).digits.length : Int) ≤ (digitsOf n).length + t
  omega

end EggLang.Decimal
