import EggLang.Number.Shortest
import Mathlib.Tactic.IntervalCases
import Mathlib.Tactic.Positivity

/-!
# Digits of numbers

A positive number is written with at least one digit and none of its zeros in front, also where
the search for a short decimal should fail.
-/

namespace EggLang.Decimal

/-- Decimal digits that do not start with a zero. -/
structure Leading (ds : List Nat) : Prop where
  small : ∀ d ∈ ds, d < 10
  first : ∃ d rest, ds = d :: rest ∧ d ≠ 0

theorem digitsOf_small {n : Nat} (h : n < 10) : digitsOf n = [n] := by
  rw [digitsOf, Nat.toDigits_of_lt_base h]
  interval_cases n <;> rfl

theorem digitsOf_large {n : Nat} (h : 10 ≤ n) : digitsOf n = digitsOf (n / 10) ++ [n % 10] := by
  have last : (Nat.digitChar (n % 10)).toNat - 48 = n % 10 := by
    have below : n % 10 < 10 := Nat.mod_lt _ (by omega)
    generalize n % 10 = d at below
    interval_cases d <;> rfl
  rw [digitsOf, Nat.toDigits_eq_if (by omega), if_neg (by omega), List.map_append, List.map_cons,
    last]
  rfl

theorem leading_digitsOf {n : Nat} (pos : 0 < n) : Leading (digitsOf n) := by
  induction n using Nat.strong_induction_on with
  | _ n ih =>
    by_cases small : n < 10
    · rw [digitsOf_small small]
      exact ⟨by simpa using small, n, [], rfl, by omega⟩
    · obtain ⟨below, d, rest, split, nonzero⟩ := ih (n / 10) (by omega) (by omega)
      rw [digitsOf_large (by omega)]
      refine ⟨fun x mem => ?_, d, rest ++ [n % 10], by rw [split]; rfl, nonzero⟩
      rcases List.mem_append.1 mem with front | last
      · exact below x front
      · obtain rfl := List.mem_singleton.1 last
        omega

theorem Leading.dropTrailingZeros {ds : List Nat} (h : Leading ds) :
    Leading (dropTrailingZeros ds) := by
  obtain ⟨small, d, rest, rfl, nonzero⟩ := h
  refine ⟨fun x mem => small x ?_, ?_⟩
  · have inner := List.mem_reverse.1 mem
    exact List.mem_reverse.1 ((List.dropWhile_suffix _).subset inner)
  · refine ⟨d, (rest.reverse.dropWhile (· == 0)).reverse, ?_, nonzero⟩
    rw [Decimal.dropTrailingZeros, List.reverse_cons, List.dropWhile_append]
    by_cases all : (rest.reverse.dropWhile (· == 0)).isEmpty = true
    · simp [List.isEmpty_iff.1 all, nonzero]
    · simp [all]

theorem leading_ofScaled {n : Nat} (pos : 0 < n) (scale : Int) :
    Leading (ofScaled n scale).digits := (leading_digitsOf pos).dropTrailingZeros

/-- A number has no fewer digits than the power of ten that its length tells. -/
theorem pow_le_of_length {n k : Nat} (pos : 0 < n) (h : (Nat.toDigits 10 n).length = k + 1) :
    10 ^ k ≤ n := by
  cases k with
  | zero => exact pos
  | succ k =>
    by_contra less
    have short := (Nat.length_toDigits_le_iff (b := 10) (n := n) (k := k + 1) (by omega)
      (by omega)).2 (by omega)
    omega

namespace Interval

theorem onGrid_pos {i : Interval} {scale : Int} {n : Nat} (found : i.onGrid? scale = some n) :
    0 < n := by
  simp only [onGrid?] at found
  split at found
  · next here _ =>
    have pos : i.floorAt scale ≠ 0 := by
      intro zero
      simp [zero] at here
    split_ifs at found <;> cases found <;> omega
  · next here _ =>
    have pos : i.floorAt scale ≠ 0 := by
      intro zero
      simp [zero] at here
    cases found
    omega
  · cases found
    omega
  · cases found

theorem leading_search {i : Interval} {grids : Nat} {scale : Int} {d : Decimal}
    (found : i.search grids scale = some d) : Leading d.digits := by
  induction grids generalizing scale with
  | zero => cases found
  | succ grids ih =>
    rw [search] at found
    split at found
    · next n here =>
      cases found
      exact leading_ofScaled (onGrid_pos here) scale
    · exact ih found

/-- Eighteen places behind its point a positive number is not yet below one. -/
theorem floorAt_pos (i : Interval) (value_pos : 0 < i.value) (den_pos : 0 < i.den) :
    0 < i.floorAt (pointOf i.value i.den - 18) := by
  have below : ∀ scale : Int, scale < 0 → i.den ≤ i.value * 10 ^ (-scale).toNat →
      0 < i.floorAt scale := by
    intro scale negative enough
    rw [floorAt, if_neg (by omega)]
    exact Nat.div_pos enough den_pos
  by_cases whole : i.value / i.den = 0
  · obtain ⟨k, long⟩ : ∃ k, (Nat.toDigits 10 (i.den / i.value)).length = k + 1 :=
      ⟨_, (Nat.succ_pred_eq_of_pos Nat.length_toDigits_pos).symm⟩
    have small : i.den / i.value < 10 ^ (k + 1) :=
      (Nat.length_toDigits_le_iff (by omega) (by omega)).1 long.le
    have enough : i.den < 10 ^ (k + 1) * i.value := (Nat.div_lt_iff_lt_mul value_pos).1 small
    have point : pointOf i.value i.den ≤ 1 - k := by
      simp only [pointOf, whole, ne_eq, not_true_eq_false, if_false, long]
      split_ifs <;> omega
    refine below _ (by omega) ?_
    calc i.den ≤ i.value * 10 ^ (k + 1) := by rw [Nat.mul_comm]; exact enough.le
      _ ≤ i.value * 10 ^ (-(pointOf i.value i.den - 18)).toNat :=
        Nat.mul_le_mul_left _ (Nat.pow_le_pow_right (by omega) (by omega))
  · obtain ⟨k, long⟩ : ∃ k, (Nat.toDigits 10 (i.value / i.den)).length = k + 1 :=
      ⟨_, (Nat.succ_pred_eq_of_pos Nat.length_toDigits_pos).symm⟩
    have size : 10 ^ k ≤ i.value / i.den := pow_le_of_length (Nat.pos_of_ne_zero whole) long
    have point : pointOf i.value i.den = k + 1 := by simp [pointOf, whole, long]
    have large : i.den * (i.value / i.den) ≤ i.value := Nat.mul_div_le _ _
    rw [point]
    by_cases above : (0 : Int) ≤ k + 1 - 18
    · rw [floorAt, if_pos above]
      refine Nat.div_pos ?_ (Nat.mul_pos den_pos (Nat.pow_pos (by omega)))
      calc i.den * 10 ^ ((k : Int) + 1 - 18).toNat ≤ i.den * 10 ^ k :=
            Nat.mul_le_mul_left _ (Nat.pow_le_pow_right (by omega) (by omega))
        _ ≤ i.den * (i.value / i.den) := Nat.mul_le_mul_left _ size
        _ ≤ i.value := large
    · refine below _ (by omega) ?_
      calc i.den ≤ i.den * (i.value / i.den) := Nat.le_mul_of_pos_right _ (Nat.pos_of_ne_zero whole)
        _ ≤ i.value := large
        _ ≤ i.value * 10 ^ (-((k : Int) + 1 - 18)).toNat :=
          Nat.le_mul_of_pos_right _ (Nat.pow_pos (by omega))

end Interval

theorem leading_shortest {m : Nat} (pos : 0 < m) (e : Int) : Leading (shortest m e).digits := by
  have value : 0 < (intervalOf m e).value := by
    simp only [intervalOf, Nat.pow_eq]
    split_ifs <;> positivity
  have den : 0 < (intervalOf m e).den := by
    simp only [intervalOf, Nat.pow_eq]
    split_ifs <;> positivity
  rw [shortest]
  split
  · next d found => exact Interval.leading_search found
  · exact leading_ofScaled (Interval.floorAt_pos _ value den) _

end EggLang.Decimal
