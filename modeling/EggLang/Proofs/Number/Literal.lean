import EggLang.Expr.Outline
import EggLang.Proofs.Number.Layout
import EggLang.Proofs.Number.Rounding
import EggLang.Proofs.Number.Shortest

/-!
# Number literals keep their value

The digits of a number literal stand for the double nearest to them, and generated code has this
double as a decimal literal of the fewest digits that stand for it again. The literal has no point
and no exponent below 10^21, and one digit before its exponent from there on.
-/

namespace EggLang

open Decimal (valueOf valueOf_append valueOf_zeros valueOf_lt ten_pos ten_add ten_ofNat Leading)
open Layout (digitText)

/-! ## Decimal literals -/

/-- The text of a fraction with these digits. -/
def WritesFraction (text : Bytes) (fraction : List Nat) : Prop :=
  text = [] ∧ fraction = [] ∨ text = utf8 "." ++ digitText fraction

/-- The text of an exponent, which may have zeros in front. -/
def WritesExponent (text : Bytes) (exponent : Int) : Prop :=
  text = [] ∧ exponent = 0
    ∨ ∃ mark sign ds, text = utf8 mark ++ utf8 sign ++ digitText ds ∧ (mark = "e" ∨ mark = "E")
      ∧ ds ≠ [] ∧ (∀ d ∈ ds, d < 10)
      ∧ ((sign = "" ∨ sign = "+") ∧ exponent = valueOf ds ∨ sign = "-" ∧ exponent = -valueOf ds)

/-- A decimal literal of a script that has no zeros in front, with what its parts stand for. -/
structure DecimalLiteral where
  text : Bytes
  whole : List Nat
  fraction : List Nat
  exponent : Int
  small : ∀ d ∈ whole ++ fraction, d < 10
  starts : whole = [0] ∨ Leading whole ∨ whole = [] ∧ fraction ≠ []
  spelled : ∃ point size, text = digitText whole ++ point ++ size ∧ WritesFraction point fraction
    ∧ WritesExponent size exponent

namespace DecimalLiteral

/-- The exact value of a literal. -/
def value (l : DecimalLiteral) : ℚ :=
  valueOf (l.whole ++ l.fraction) * 10 ^ (l.exponent - l.fraction.length)

/-- How many digits there are from the first to the last one that is not zero. -/
def significant (l : DecimalLiteral) : Nat :=
  (Decimal.dropTrailingZeros ((l.whole ++ l.fraction).dropWhile (· == 0))).length

/-- The literal has digits only. -/
def IsPlain (l : DecimalLiteral) : Prop := l.text = digitText l.whole

/-- The literal has one digit that is not zero, maybe a fraction, and a positive exponent. -/
def IsScientific (l : DecimalLiteral) : Prop :=
  ∃ a k, l.whole = [a] ∧ a ≠ 0 ∧ l.exponent = (k : Nat)
    ∧ l.text = digitText [a] ++ (if l.fraction = [] then [] else utf8 "." ++ digitText l.fraction)
      ++ utf8 "e+" ++ Bytes.ofNat k

end DecimalLiteral

/-! ## Values of digits -/

variable {ds : List Nat} {m : Nat} {e : Int}

theorem digitsValue_digitText (small : ∀ d ∈ ds, d < 10) :
    Bytes.digitsValue (digitText ds) = valueOf ds := by
  induction ds using List.reverseRecOn with
  | nil => rfl
  | append_singleton ds d ih =>
    have last : (48 + d).toUInt8.toNat = 48 + d := by
      have := small d (by simp)
      rw [Nat.toUInt8, UInt8.toNat_ofNat']
      omega
    have front := ih fun x mem => small x (List.mem_append_left _ mem)
    have split : Bytes.digitsValue (digitText (ds ++ [d]))
        = 10 * Bytes.digitsValue (digitText ds) + ((48 + d).toUInt8.toNat - 48) := by
      rw [digitText, List.map_append, Bytes.digitsValue, List.foldl_append]
      rfl
    have single : valueOf [d] = d := by simp [valueOf]
    rw [split, front, last, valueOf_append, single, List.length_singleton]
    omega

theorem digitText_digitsOf (n : Nat) : digitText (Decimal.digitsOf n) = Bytes.ofNat n := by
  rw [digitText, Decimal.digitsOf, List.map_map]
  refine List.map_congr_left fun c mem => ?_
  have low : 48 ≤ c.toNat := (Char.isDigit_iff_toNat.1 (Script.isDigit_toDigits n c mem)).1
  show (48 + (c.toNat - 48)).toUInt8 = c.toNat.toUInt8
  rw [Nat.add_sub_cancel' low]

theorem valueOf_dropWhile (ds : List Nat) : valueOf (ds.dropWhile (· == 0)) = valueOf ds := by
  have zeros : ∀ d ∈ ds.takeWhile (· == 0), d = 0 := fun d mem => by
    simpa using List.mem_takeWhile_imp mem
  have split := congrArg valueOf (List.takeWhile_append_dropWhile (p := (· == 0)) (l := ds))
  rw [valueOf_append, List.eq_replicate_of_mem zeros, valueOf_zeros] at split
  omega

/-- A value without the zeros around its digits. -/
theorem exists_significant (small : ∀ d ∈ ds, d < 10) :
    ∃ k z, valueOf ds = k * 10 ^ z
      ∧ k < 10 ^ (Decimal.dropTrailingZeros (ds.dropWhile (· == 0))).length := by
  obtain ⟨z, split⟩ := Decimal.exists_zeros (ds.dropWhile (· == 0))
  refine ⟨valueOf (Decimal.dropTrailingZeros (ds.dropWhile (· == 0))), z, ?_, valueOf_lt ?_⟩
  · rw [← valueOf_dropWhile, split, valueOf_append, valueOf_zeros, List.length_replicate, ← split]
    rfl
  · intro d mem
    have inside : d ∈ ds.dropWhile (· == 0) := by
      rw [split]
      exact List.mem_append_left _ mem
    exact small d ((List.dropWhile_suffix _).subset inside)

/-- Zeros behind digits are not counted. -/
theorem length_significant (leading : Leading ds) (z : Nat) :
    (Decimal.dropTrailingZeros ((ds ++ List.replicate z 0).dropWhile (· == 0))).length
      ≤ ds.length := by
  obtain ⟨-, d, rest, rfl, nonzero⟩ := leading
  have kept : ((d :: rest) ++ List.replicate z 0).dropWhile (· == 0)
      = (d :: rest) ++ List.replicate z 0 := by simp [nonzero]
  have zeros : ((List.replicate z 0).dropWhile (· == 0) : List Nat) = [] := by simp
  rw [kept, Decimal.dropTrailingZeros, List.length_reverse, List.reverse_append,
    List.reverse_replicate, List.dropWhile_append, zeros]
  refine (List.dropWhile_suffix _).length_le.trans ?_
  simp

/-! ## The point where exponents begin -/

theorem canonical_limit : Binary64.Canonical 7629394531250000 17 :=
  ⟨by norm_num, by decide, .inl (by norm_num)⟩

theorem worth_limit : Binary64.worth 7629394531250000 17 = 10 ^ 21 := by
  norm_num [Binary64.worth]

theorem exponent_limit : (Decimal.shortest 7629394531250000 17).exponent = 21 := by
  decide +kernel

/-- The power of ten is a double, so it is in no other one's interval. -/
theorem eq_limit (rounds : Binary64.Rounds (10 ^ 21) m e) :
    m = 7629394531250000 ∧ e = 17 := by
  rw [← worth_limit] at rounds
  exact rounds.unique canonical_limit.rounds (by rw [worth_limit]; positivity)

theorem toRat_bounds {d : Decimal} (h : Leading d.digits) :
    (10 : ℚ) ^ d.exponent ≤ d.toRat ∧ d.toRat < 10 ^ (d.exponent + 1) := by
  have low := h.le_valueOf
  have high := valueOf_lt h.small
  have some : 1 ≤ d.digits.length := by
    obtain ⟨-, a, rest, same, -⟩ := h
    simp [same]
  have unit := ten_pos (d.point - d.digits.length)
  constructor
  · have split : d.exponent
        = ((d.digits.length - 1 : Nat) : Int) + (d.point - d.digits.length) := by
      rw [Decimal.exponent]
      omega
    rw [split, ten_add, ten_ofNat]
    exact mul_le_mul_of_nonneg_right (by exact_mod_cast low) unit.le
  · have split : d.exponent + 1 = (d.digits.length : Int) + (d.point - d.digits.length) := by
      rw [Decimal.exponent]
      omega
    rw [split, ten_add, ten_ofNat]
    exact mul_lt_mul_of_pos_right (by exact_mod_cast high) unit

/-- The exponent of the shortest decimal tells on which side of 10^21 the number is. -/
theorem exponent_lt_iff (h : Binary64.Canonical m e) (pos : 0 < m) :
    (Decimal.shortest m e).exponent < 21 ↔ Binary64.worth m e < 10 ^ 21 := by
  have rounds := Decimal.shortest_rounds h pos
  obtain ⟨low, high⟩ := toRat_bounds (Decimal.leading_shortest pos e)
  have value_pos := (ten_pos _).le.trans low
  have inside := (Decimal.rounds_iff h pos value_pos).1 rounds
  have middle := (Decimal.proper_intervalOf pos e).inside
  rw [Decimal.middle_intervalOf pos] at middle
  have limit (contains : (Decimal.intervalOf m e).Contains (10 ^ 21)) :
      m = 7629394531250000 ∧ e = 17 :=
    eq_limit ((Decimal.rounds_iff h pos (by positivity)).2 contains)
  constructor
  · intro below
    by_contra large
    have less : (Decimal.shortest m e).toRat ≤ 10 ^ 21 := by
      refine high.le.trans ((Decimal.ten_le (t := 21) (by omega)).trans ?_)
      norm_num
    obtain ⟨rfl, rfl⟩ := limit (inside.between middle less (not_lt.1 large))
    rw [exponent_limit] at below
    omega
  · intro small
    by_contra above
    have more : (10 : ℚ) ^ 21 ≤ (Decimal.shortest m e).toRat := by
      refine le_trans ?_ ((Decimal.ten_le (s := 21) (by omega)).trans low)
      norm_num
    obtain ⟨rfl, rfl⟩ := limit (middle.between inside small.le more)
    rw [worth_limit] at small
    exact absurd small (lt_irrefl _)

/-! ## Layouts as literals -/

theorem leading_zeros (leading : Leading ds) (z : Nat) : Leading (ds ++ List.replicate z 0) := by
  obtain ⟨small, d, rest, rfl, nonzero⟩ := leading
  refine ⟨fun x mem => ?_, d, rest ++ List.replicate z 0, rfl, nonzero⟩
  rcases List.mem_append.1 mem with here | here
  · exact small x here
  · rw [List.eq_of_mem_replicate here]
    omega

/-- A positional decimal without a fraction: the digits, and zeros up to the point. -/
theorem positional_whole {d : Decimal} (some : d.digits ≠ []) {z : Nat}
    (point : d.point = d.digits.length + z) :
    Layout.positional d = digitText (d.digits ++ List.replicate z 0)
      ∧ (valueOf (d.digits ++ List.replicate z 0) : ℚ) = d.toRat := by
  have filled := List.length_pos_iff.2 some
  have zeros : List.replicate z 48 = digitText (List.replicate z 0) := by
    rw [digitText, List.map_replicate]
    rfl
  have above : ¬d.point ≤ 0 := by omega
  have length : d.digits.length ≤ d.point.toNat := by omega
  have rest : d.point.toNat - d.digits.length = z := by omega
  constructor
  · rw [Layout.positional, if_neg above]
    show (if d.digits.length ≤ d.point.toNat then _ else _) = _
    rw [if_pos length, rest, zeros, digitText, digitText, digitText, List.map_append]
  · have place : d.point - d.digits.length = z := by omega
    rw [valueOf_append, valueOf_zeros, List.length_replicate, Decimal.toRat, place, ten_ofNat]
    push_cast
    ring

theorem positional_literal {d : Decimal} (leading : Leading d.digits)
    (whole : (d.digits.length : Int) ≤ d.point) :
    ∃ l : DecimalLiteral, l.text = Layout.positional d ∧ l.value = d.toRat
      ∧ l.significant ≤ d.digits.length ∧ l.IsPlain := by
  obtain ⟨z, point⟩ : ∃ z : Nat, d.point = d.digits.length + z :=
    ⟨(d.point - d.digits.length).toNat, by omega⟩
  have some : d.digits ≠ [] := by
    obtain ⟨-, a, rest, same, -⟩ := leading
    simp [same]
  obtain ⟨text, value⟩ := positional_whole some point
  have front := leading_zeros leading z
  have small : ∀ x ∈ d.digits ++ List.replicate z 0 ++ [], x < 10 := by
    rw [List.append_nil]
    exact front.small
  let l : DecimalLiteral :=
    { text := Layout.positional d
      whole := d.digits ++ List.replicate z 0
      fraction := []
      exponent := 0
      small
      starts := .inr (.inl front)
      spelled := ⟨[], [], by rw [text]; simp, .inl ⟨rfl, rfl⟩, .inl ⟨rfl, rfl⟩⟩ }
  refine ⟨l, rfl, ?_, ?_, text⟩
  · simp [DecimalLiteral.value, l, value]
  · simpa [DecimalLiteral.significant, l] using length_significant leading z

theorem scientific_literal {d : Decimal} (leading : Leading d.digits) (large : 21 ≤ d.exponent) :
    ∃ l : DecimalLiteral, l.text = Layout.scientific 2 d ∧ l.value = d.toRat
      ∧ l.significant ≤ d.digits.length ∧ l.IsScientific := by
  obtain ⟨k, exponent⟩ : ∃ k : Nat, d.exponent = k := ⟨d.exponent.toNat, by omega⟩
  obtain ⟨a, rest, split, nonzero⟩ := leading.first
  have text : Layout.scientific 2 d
      = digitText [a] ++ (if rest = [] then [] else utf8 "." ++ digitText rest)
        ++ utf8 "e+" ++ Bytes.ofNat k := by
    have long : 2 ≤ (Bytes.ofNat k).length := by
      have bounds := (Decimal.digitsOf_bounds (n := k) (by omega)).2
      rw [← digitText_digitsOf, digitText, List.length_map]
      by_contra short
      have : 10 ^ (Decimal.digitsOf k).length ≤ 10 ^ 1 := Nat.pow_le_pow_right (by omega) (by omega)
      omega
    have none : 2 - (Bytes.ofNat k).length = 0 := by omega
    have positive : ¬((k : Int) < 0) := by omega
    rw [Layout.scientific, exponent, Int.natAbs_natCast, split, none, if_neg positive]
    cases rest with
    | nil => simp
    | cons b rest => simp
  have small : ∀ x ∈ [a] ++ rest, x < 10 := by
    rw [List.singleton_append, ← split]
    exact leading.small
  have size : WritesExponent (utf8 "e+" ++ Bytes.ofNat k) k := by
    refine .inr ⟨"e", "+", Decimal.digitsOf k, ?_, .inl rfl, ?_, ?_, .inl ⟨.inr rfl, ?_⟩⟩
    · rw [digitText_digitsOf]
      rfl
    · obtain ⟨_, b, more, same, _⟩ := Decimal.leading_digitsOf (n := k) (by omega)
      simp [same]
    · exact (Decimal.leading_digitsOf (n := k) (by omega)).small
    · rw [Decimal.valueOf_digitsOf]
  have fraction : WritesFraction (if rest = [] then [] else utf8 "." ++ digitText rest) rest := by
    by_cases empty : rest = []
    · exact .inl ⟨if_pos empty, empty⟩
    · exact .inr (if_neg empty)
  have place : (k : Int) - rest.length = d.point - d.digits.length := by
    rw [← exponent, Decimal.exponent, split, List.length_cons]
    push_cast
    ring
  have first : Leading [a] :=
    ⟨fun x mem => small x (List.mem_append_left _ mem), a, [], rfl, nonzero⟩
  let l : DecimalLiteral :=
    { text := Layout.scientific 2 d
      whole := [a]
      fraction := rest
      exponent := k
      small
      starts := .inr (.inl first)
      spelled := ⟨_, _, by rw [text, List.append_assoc], fraction, size⟩ }
  refine ⟨l, rfl, ?_, ?_, a, k, rfl, nonzero, rfl, text⟩
  · show (valueOf (a :: rest) : ℚ) * 10 ^ ((k : Int) - rest.length) = d.toRat
    rw [place, ← split, Decimal.toRat]
  · have length := length_significant leading 0
    rw [List.replicate_zero, List.append_nil, split] at length
    rw [split]
    exact length

theorem DecimalLiteral.IsScientific.not_plain {l : DecimalLiteral} (h : l.IsScientific) :
    ¬l.IsPlain := by
  obtain ⟨a, k, whole, -, -, text⟩ := h
  intro plain
  have lengths := congrArg List.length (text.symm.trans plain)
  have two : (utf8 "e+").length = 2 := rfl
  simp only [whole, List.length_append, two] at lengths
  omega

/-! ## The literal of a double -/

/-- The text stands for the double that is nearest to the rational. It is a decimal literal unless
the double is infinite, and has as few digits as a literal of the double can have. -/
structure Keeps (q : ℚ) (v : Binary64) (text : Bytes) : Prop where
  nearest : Binary64.IsNearest q v
  only : ∀ x, Binary64.IsNearest q x → x = v
  infinity : text = utf8 "Infinity" ↔ v = .infinite false
  literal : v ≠ .infinite false → ∃ m e, v = .finite false m e
    ∧ ∃ l : DecimalLiteral, l.text = text ∧ Binary64.IsNearest l.value v
      ∧ (∀ l' : DecimalLiteral, Binary64.IsNearest l'.value v → l.significant ≤ l'.significant)
      ∧ (l.IsPlain ↔ Binary64.worth m e < 10 ^ 21)
      ∧ (10 ^ 21 ≤ Binary64.worth m e → l.IsScientific)

/-- A literal of a positive number has no fewer digits than its shortest decimal. -/
theorem length_le_significant (h : Binary64.Canonical m e) (pos : 0 < m) {l : DecimalLiteral}
    (rounds : Binary64.Rounds l.value m e) :
    (Decimal.shortest m e).digits.length ≤ l.significant := by
  obtain ⟨k, z, value, few⟩ := exists_significant l.small
  have split : l.value = k * 10 ^ (z + (l.exponent - l.fraction.length)) := by
    rw [DecimalLiteral.value, value, ten_add, ten_ofNat]
    push_cast
    ring
  have nonneg : 0 ≤ l.value := by
    rw [split]
    exact mul_nonneg (Nat.cast_nonneg k) (ten_pos _).le
  have some : 0 < k := by
    by_contra zero
    obtain rfl : k = 0 := by omega
    have nothing : l.value = Binary64.worth 0 Binary64.leastExponent := by
      rw [split, Binary64.worth]
      simp
    rw [nothing] at rounds nonneg
    have same := (rounds.unique Binary64.canonical_zero.rounds nonneg).1
    omega
  have inside := (Decimal.rounds_iff h pos nonneg).1 rounds
  rw [split] at inside
  exact Decimal.shortest_least h pos some few inside

theorem numberText_finite (m : Nat) (e : Int) (pos : 0 < m) :
    Code.numberText (.finite false m e)
      = if (Decimal.shortest m e).exponent < 21 then Layout.positional (Decimal.shortest m e)
        else Layout.scientific 2 (Decimal.shortest m e) := by
  have nonzero : m ≠ 0 := by omega
  have layout : Code.largeNumber.isPositional (Decimal.shortest m e).exponent
      = decide ((Decimal.shortest m e).exponent < 21) := by
    simp [Layout.isPositional, Code.largeNumber, Code.plainNumber]
  simp [Code.numberText, Binary64.isNegative, Layout.render, nonzero, layout]
  rfl

/-- The literal of a positive double that is a whole number. -/
theorem literal_positive (h : Binary64.Canonical m e) (pos : 0 < m) {N : Nat}
    (whole : Binary64.worth m e = N) :
    ∃ l : DecimalLiteral, l.text = Code.numberText (.finite false m e)
      ∧ Binary64.Rounds l.value m e ∧ l.significant ≤ (Decimal.shortest m e).digits.length
      ∧ (l.IsPlain ↔ Binary64.worth m e < 10 ^ 21)
      ∧ (10 ^ 21 ≤ Binary64.worth m e → l.IsScientific) := by
  have leading := Decimal.leading_shortest pos e
  have rounds := Decimal.shortest_rounds h pos
  have side := exponent_lt_iff h pos
  rw [numberText_finite m e pos]
  by_cases small : (Decimal.shortest m e).exponent < 21
  · obtain ⟨l, text, value, short, plain⟩ :=
      positional_literal leading (Decimal.shortest_whole h pos whole)
    rw [if_pos small]
    refine ⟨l, text, value ▸ rounds, short, iff_of_true plain (side.1 small), fun large => ?_⟩
    exact absurd (side.1 small) (not_lt.2 large)
  · obtain ⟨l, text, value, short, scientific⟩ := scientific_literal leading (not_lt.1 small)
    rw [if_neg small]
    refine ⟨l, text, value ▸ rounds, short, ?_, fun _ => scientific⟩
    exact iff_of_false scientific.not_plain fun less => small (side.2 less)

/-- The literal of zero. -/
def zeroLiteral : DecimalLiteral where
  text := utf8 "0"
  whole := [0]
  fraction := []
  exponent := 0
  small := by decide
  starts := .inl rfl
  spelled := ⟨[], [], rfl, .inl ⟨rfl, rfl⟩, .inl ⟨rfl, rfl⟩⟩

/-- No literal is the name of infinity. -/
theorem DecimalLiteral.ne_infinity (l : DecimalLiteral) : l.text ≠ utf8 "Infinity" := by
  obtain ⟨point, size, text, fraction, -⟩ := l.spelled
  intro same
  have name : utf8 "Infinity" = 73 :: utf8 "nfinity" := rfl
  have digit (d : Nat) (less : d < 10) (rest : List Nat) (whole : l.whole = d :: rest) : False := by
    rw [text, whole, name] at same
    have first : (48 + d).toUInt8 = 73 := (List.cons.inj same).1
    have number := congrArg UInt8.toNat first
    rw [Nat.toUInt8, UInt8.toNat_ofNat'] at number
    change (48 + d) % 256 = 73 at number
    omega
  rcases l.starts with zero | ⟨less, d, rest, whole, -⟩ | ⟨none, some⟩
  · exact digit 0 (by omega) [] zero
  · exact digit d (less d (by simp [whole])) rest whole
  · rcases fraction with ⟨-, empty⟩ | dot
    · exact some empty
    · rw [text, none, dot, name] at same
      exact absurd (List.cons.inj same).1 (by decide)

/-- The literal of the double nearest to a natural number. -/
theorem literal_finite {N : Nat} (rounds : Binary64.Rounds (N : ℚ) m e) :
    ∃ l : DecimalLiteral, l.text = Code.numberText (.finite false m e)
      ∧ Binary64.Rounds l.value m e
      ∧ (∀ l' : DecimalLiteral, Binary64.Rounds l'.value m e → l.significant ≤ l'.significant)
      ∧ (l.IsPlain ↔ Binary64.worth m e < 10 ^ 21)
      ∧ (10 ^ 21 ≤ Binary64.worth m e → l.IsScientific) := by
  have canonical := rounds.canonical
  by_cases zero : m = 0
  · subst zero
    have nothing : Binary64.worth 0 e = 0 := by simp [Binary64.worth]
    have value : zeroLiteral.value = Binary64.worth 0 e := by
      simp [nothing, DecimalLiteral.value, zeroLiteral, valueOf]
    have exact := canonical.rounds
    rw [← value] at exact
    refine ⟨zeroLiteral, rfl, exact, fun l' _ => Nat.zero_le _, iff_of_true rfl ?_, fun large => ?_⟩
    · rw [nothing]
      positivity
    · rw [nothing] at large
      norm_num at large
  · have pos := Nat.pos_of_ne_zero zero
    obtain ⟨k, whole⟩ := rounds.whole
    obtain ⟨l, text, rounds', short, plain, scientific⟩ := literal_positive canonical pos whole
    refine ⟨l, text, rounds', fun l' other => ?_, plain, scientific⟩
    exact short.trans (length_le_significant canonical pos other)

/-- The digits of a number literal stand for the double nearest to them, and so does the text of
this double in generated code. -/
theorem numberText_keeps (ds : List Nat) (small : ∀ d ∈ ds, d < 10) :
    Keeps (valueOf ds) (Expr.numberValue (digitText ds))
      (Code.numberText (Expr.numberValue (digitText ds))) := by
  have nearest : Binary64.IsNearest (valueOf ds) (Expr.numberValue (digitText ds)) := by
    rw [Expr.numberValue, digitsValue_digitText small]
    exact Binary64.isNearest_ofNat (valueOf ds)
  have only (x : Binary64) (other : Binary64.IsNearest (valueOf ds) x) :
      x = Expr.numberValue (digitText ds) := other.unique nearest (Nat.cast_nonneg _)
  obtain ⟨m, e, rounds, value⟩ := id nearest
  by_cases far : Binary64.greatestExponent < e
  · rw [if_pos far] at value
    refine ⟨nearest, only, iff_of_true ?_ value, fun finite => absurd value finite⟩
    rw [value]
    rfl
  · rw [if_neg far] at value
    obtain ⟨l, text, rounds', least, plain, scientific⟩ := literal_finite rounds
    rw [value] at nearest only ⊢
    have stands (l' : DecimalLiteral) (same : Binary64.IsNearest l'.value (.finite false m e)) :
        Binary64.Rounds l'.value m e := by
      obtain ⟨n, f, other, named⟩ := same
      split_ifs at named
      cases named
      exact other
    have infinity : Code.numberText (.finite false m e) ≠ utf8 "Infinity" := text ▸ l.ne_infinity
    refine ⟨nearest, only, iff_of_false infinity nofun, fun _ => ⟨m, e, rfl, l, text, ?_, ?_, plain,
      scientific⟩⟩
    · exact ⟨m, e, rounds', (if_neg far).symm⟩
    · exact fun l' same => least l' (stands l' same)

/-- Zeros in front, and a tie that goes to the even significand below. -/
theorem numberText_keeps_tie :
    (∀ d ∈ [0, 0, 9, 0, 0, 7, 1, 9, 9, 2, 5, 4, 7, 4, 0, 9, 9, 3], d < 10)
      ∧ Keeps (9007199254740993 : Nat) (.finite false 4503599627370496 1)
        (utf8 "9007199254740992") := by
  have small : ∀ d ∈ [0, 0, 9, 0, 0, 7, 1, 9, 9, 2, 5, 4, 7, 4, 0, 9, 9, 3], d < 10 := by decide
  refine ⟨small, ?_⟩
  have keeps := numberText_keeps _ small
  have value : Expr.numberValue (digitText [0, 0, 9, 0, 0, 7, 1, 9, 9, 2, 5, 4, 7, 4, 0, 9, 9, 3])
      = .finite false 4503599627370496 1 := by decide +kernel
  have text : Code.numberText (.finite false 4503599627370496 1) = utf8 "9007199254740992" := by
    decide +kernel
  rwa [value, text] at keeps

end EggLang
