import EggLang.Proofs.Script.Alike
import EggLang.Proofs.Script.Patterns

/-!
# One text read in two scripts

A text is read in one script and gives something. Before another text that also ends it, with no
less fuel, it gives something alike and ends there as well. What the first reading gives need not
be known, and a text that cannot be read needs no case: this is how texts are compared whose tokens
group in ways that their own structure does not show.
-/

namespace EggLang.Script.Parser

open Script.Place (Facing Both Lost Solid ahead)

variable {α β : Type}

/-! ## Readings with enough fuel -/

/-- From this fuel on a reading gives this outcome. -/
def Reaches (f : Nat → Parse α) (fuel : Nat) (p : Place) (a : α) (q : Place) : Prop :=
  ∀ n, fuel ≤ n → f n p = some (a, q)

/-- From this fuel on a reading goes on as another one. -/
def Onward (f : Nat → Parse α) (fuel : Nat) (p : Place) (g : Nat → Parse α) (left : Nat)
    (q : Place) : Prop :=
  ∀ k, f (fuel + k) p = g (left + k) q

variable {f h k : Nat → Parse α} {g : Nat → Parse β} {p p' q r : Place} {a : α} {b : β}
  {n m l : Nat}

/-- A reading that begins with another one and gives what follows from it. -/
theorem Reaches.then (part : Reaches g n p' b q)
    (step : ∀ n, g n p' = some (b, q) → f (n + 1) p = some (a, r)) : Reaches f (n + 1) p a r := by
  intro m enough
  obtain ⟨m, rfl⟩ : ∃ i, m = i + 1 := ⟨m - 1, by omega⟩
  exact step m (part m (by omega))

theorem reaches_of_succ (step : ∀ n, f (n + 1) p = some (a, q)) : Reaches f (n + 1) p a q := by
  intro m enough
  obtain ⟨m, rfl⟩ : ∃ i, m = i + 1 := ⟨m - 1, by omega⟩
  exact step m

theorem Onward.reaches (onward : Onward f n p h m q) (reaches : Reaches h m q a r) :
    Reaches f n p a r := by
  intro i enough
  obtain ⟨i, rfl⟩ : ∃ j, i = n + j := ⟨i - n, by omega⟩
  rw [onward i]
  exact reaches (m + i) (by omega)

theorem Onward.refl (f : Nat → Parse α) (n : Nat) (p : Place) : Onward f n p f n p := fun _ => rfl

theorem Onward.trans (first : Onward f n p h m q) (second : Onward h m q k l r) :
    Onward f n p k l r := fun i => (first i).trans (second i)

/-- A reading that begins with another one and goes on with the rest. -/
theorem Reaches.onward (part : Reaches g n p' b q)
    (step : ∀ n, g n p' = some (b, q) → f (n + 1) p = h n r) : Onward f (n + 1) p h n r := by
  intro i
  rw [Nat.add_right_comm]
  exact step (n + i) (part (n + i) (by omega))

theorem onward_of_succ (step : ∀ n, f (n + 1) p = h n q) : Onward f (n + 1) p h n q := by
  intro i
  rw [Nat.add_right_comm]
  exact step (n + i)

/-! ## Two readings -/

/-- A reading of a text gives something; before another text that ends it as well, another reading
gives something alike with as much fuel. -/
def Copies (ok : List Char → Prop) (alike : α → β → Prop) (f : Nat → Parse α) (g : Nat → Parse β)
    (text : List Char) : Prop :=
  ∀ ⦃s₁ s₂ o₁ o₂ p₁ p₂ fuel x q₁⦄, ok s₁ → ok s₂ → Both o₁ o₂ (text ++ s₁) (text ++ s₂) p₁ p₂ →
    f fuel p₁ = some (x, q₁) → ∃ y q₂, alike x y ∧ Reaches g fuel p₂ y q₂
      ∧ Both (o₁ + text.length) (o₂ + text.length) s₁ s₂ q₁ q₂

/-- The same, unless the first reading ends where there is no token. -/
def Mirrors (ok : List Char → Prop) (alike : α → β → Prop) (f : Nat → Parse α) (g : Nat → Parse β)
    (text : List Char) : Prop :=
  ∀ ⦃s₁ s₂ o₁ o₂ p₁ p₂ fuel x q₁⦄, ok s₁ → ok s₂ → Both o₁ o₂ (text ++ s₁) (text ++ s₂) p₁ p₂ →
    f fuel p₁ = some (x, q₁) → Lost q₁ ∨ ∃ y q₂, alike x y ∧ Reaches g fuel p₂ y q₂
      ∧ Both (o₁ + text.length) (o₂ + text.length) s₁ s₂ q₁ q₂

/-- A place at which an expression begins that is no function with an arrow or with a name. -/
structure Starts (p : Place) : Prop where
  leading : Leading p.token
  nameless : p.token = .name "function" false → p.next.token = .mark "("
  arrow : ∀ fuel, arrowHead fuel p = none

variable {ok ok' : List Char → Prop} {text : List Char}

/-- A text that is read in the same way by the readers that pass on what these give. -/
theorem Mirrors.passes {f₁ f₂ g₁ g₂ : Nat → Parse Expr} {quiet : Token → Prop}
    (h : Mirrors ok Expr.Alike g₁ g₂ text)
    (first : ∀ {s o p}, ok s → Facing o (text ++ s) p → Passes quiet f₁ g₁ p)
    (second : ∀ {s o p}, ok s → Facing o (text ++ s) p → Passes quiet f₂ g₂ p)
    (ends : ∀ s, ok s → quiet (ahead s)) (illegal : quiet .illegal) :
    Mirrors ok Expr.Alike f₁ f₂ text := by
  intro s₁ s₂ o₁ o₂ p₁ p₂ fuel x q₁ ok₁ ok₂ both read
  obtain ⟨n, ⟨x', q'⟩, rfl, found, same⟩ := (first ok₁ both.first).back read
  rcases h ok₁ ok₂ both found with lost | ⟨y, q₂, alike, reaches, after⟩
  · obtain ⟨rfl, rfl⟩ : x = x' ∧ q₁ = q' := Prod.mk.inj (same (lost.token ▸ illegal))
    exact .inl lost
  · obtain ⟨rfl, rfl⟩ : x = x' ∧ q₁ = q' := Prod.mk.inj (same (after.first.token ▸ ends s₁ ok₁))
    refine .inr ⟨y, q₂, alike, reaches.then fun n done => ?_, after⟩
    exact (second ok₂ both.second).forth done (after.second.token ▸ ends s₂ ok₂)

/-! ## Chains of operations -/

/-- The text of an operand: one value with accesses and calls after it. -/
structure Factor (text : List Char) : Prop where
  solid : Solid text
  starts : ∀ {s o p}, Meets Halts s → Facing o (text ++ s) p → Starts p
  heads : HeadsAlike (Meets Halts) text
  barren : ∀ {s}, Meets Halts s → Nameless s → Barren s → Barren (text ++ s)
  reads : ∀ c₁ c₂, Mirrors (Meets Halts) Expr.Alike (power c₁) (power c₂) text

/-- Operators with their second operands. -/
inductive Further : List Char → Prop where
  | nil : Further []
  | cons {m : String} {text more : List Char} : m ∈ infixes → Factor text → Further more →
      Further (' ' :: (m.toList ++ ' ' :: (text ++ more)))

theorem infix_spaced {m : String} (mem : m ∈ infixes) : m ∈ spacedMarks := by
  revert m
  decide

theorem infix_operator {m : String} (mem : m ∈ infixes) : ∃ level op, 6 ≤ level
    ∧ ∀ c, operator? c (.mark m) = some (level, .strict op) := by
  simp only [infixes, List.mem_cons, List.not_mem_nil, or_false] at mem
  rcases mem with rfl | rfl | rfl | rfl | rfl | rfl | rfl | rfl | rfl <;>
    exact ⟨_, _, by decide, fun _ => rfl⟩

theorem meets_operator {m : String} (mem : m ∈ infixes) (s : List Char) :
    Meets Halts (' ' :: (m.toList ++ ' ' :: s)) := by
  refine meets_cons (by decide) ?_
  rw [ahead_operator (infix_spaced mem)]
  exact .operator m mem

theorem Further.meets {more s : List Char} (h : Further more) (ends : Meets Halts s) :
    Meets Halts (more ++ s) := by
  cases h with
  | nil => exact ends
  | @cons m text more mem _ _ =>
    have := meets_operator mem (text ++ more ++ s)
    simpa using this

/-- Behind an operand there is no bracket. -/
theorem Further.not_square {more s : List Char} (h : Further more) (ends : Meets Halts s) :
    ahead (more ++ s) ≠ .mark "[" :=
  (h.meets ends).ahead.not_mark (by decide)

theorem Further.barren {more s : List Char} (h : Further more) (nameless : Nameless s)
    (barren : Barren s) : Nameless (more ++ s) ∧ Barren (more ++ s) := by
  cases h with
  | nil => exact ⟨nameless, barren⟩
  | @cons m text more mem _ _ =>
    have text_eq : (' ' :: (m.toList ++ ' ' :: (text ++ more))) ++ s
        = ' ' :: (m.toList ++ ' ' :: (text ++ (more ++ s))) := by simp
    have token := ahead_operator (infix_spaced mem) (text ++ (more ++ s))
    have other : ∀ n ∈ infixes, n ∉ ["[", "]", ",", "=", "\x7b", "..."] := by decide
    rw [text_eq]
    exact nameless_halts (other m mem) token

theorem Stuck.mono {c : Surround} {least more : Nat} {t : Token} (h : Stuck c least t)
    (le : least ≤ more) : Stuck c more t := fun level op found => by
  have := h level op found
  omega

theorem binaryRest_back {c : Surround} {least fuel : Nat} {x : Expr} {p : Place}
    {z : Expr × Place} (stuck : Stuck c least p.token)
    (read : binaryRest c least fuel x p = some z) : z = (x, p) ∧ ∃ n, fuel = n + 1 := by
  cases fuel with
  | zero => cases read
  | succ n => exact ⟨Option.some.inj (read.symm.trans (binaryRest_stuck stuck)), n, rfl⟩

theorem stuck_of_lost {c : Surround} {least : Nat} {p : Place} (h : Lost p) :
    Stuck c least p.token := by
  rw [h.token]
  rintro _ _ ⟨⟩

/-- What is left of further operators where the reading of an operand has ended: nothing, or an
operator that does not bind tightly enough. -/
structure Left (c₁ c₂ : Surround) (least : Nat) (rest s₁ s₂ : List Char) : Prop where
  further : Further rest
  first : rest = [] ∨ Stuck c₁ least (ahead (rest ++ s₁))
  second : rest = [] ∨ Stuck c₂ least (ahead (rest ++ s₂))

/-- A text behind which only comparisons with less binding operators go on. -/
structure Loose (c : Surround) (s : List Char) : Prop where
  meets : Meets Halts s
  stuck : Stuck c comparisonLevel (ahead s)

theorem Left.stuck {c₁ c₂ : Surround} {least : Nat} {rest s₁ s₂ : List Char}
    (h : Left c₁ c₂ least rest s₁ s₂) (loose₁ : Loose c₁ s₁) (loose₂ : Loose c₂ s₂)
    (tight : comparisonLevel ≤ least) :
    Stuck c₁ least (ahead (rest ++ s₁)) ∧ Stuck c₂ least (ahead (rest ++ s₂)) := by
  constructor
  · rcases h.first with rfl | stuck
    · exact loose₁.stuck.mono tight
    · exact stuck
  · rcases h.second with rfl | stuck
    · exact loose₂.stuck.mono tight
    · exact stuck

/-- Operators and operands are read up to an operator that does not bind tightly enough, in both
scripts up to the same one. -/
def Climbs (c₁ c₂ : Surround) (s₁ s₂ more : List Char) : Prop :=
  ∀ ⦃least fuel o₁ o₂ x y p₁ p₂ z⦄, x.Alike y →
    Both o₁ o₂ (more ++ s₁) (more ++ s₂) p₁ p₂ → binaryRest c₁ least fuel x p₁ = some z →
    Lost z.2 ∨ ∃ x' y' rest d left q₁ q₂, x'.Alike y' ∧ Left c₁ c₂ least rest s₁ s₂
      ∧ d + rest.length = more.length ∧ Both (o₁ + d) (o₂ + d) (rest ++ s₁) (rest ++ s₂) q₁ q₂
      ∧ binaryRest c₁ least left x' q₁ = some z
      ∧ Onward (fun n => binaryRest c₂ least n y) fuel p₂
        (fun n => binaryRest c₂ least n y') left q₂

section Climbing

variable {c₁ c₂ : Surround} {s₁ s₂ more : List Char} {least fuel o₁ o₂ : Nat} {p₁ p₂ : Place}

theorem climbs_nil : Climbs c₁ c₂ s₁ s₂ [] := fun _ fuel _ _ x y p₁ p₂ _ alike both read =>
  .inr ⟨x, y, [], 0, fuel, p₁, p₂, alike, ⟨.nil, .inl rfl, .inl rfl⟩, rfl, both, read, .refl _ _ _⟩

/-- The second operand of an operator ends at an operator that does not bind more tightly. -/
theorem Factor.second {z : Expr × Place} (h : Factor text) (further : Further more)
    (climbs : Climbs c₁ c₂ s₁ s₂ more) (loose₁ : Loose c₁ s₁) (loose₂ : Loose c₂ s₂)
    (tight : comparisonLevel ≤ least)
    (both : Both o₁ o₂ (text ++ (more ++ s₁)) (text ++ (more ++ s₂)) p₁ p₂)
    (read : binary c₁ least fuel p₁ = some z) :
    Lost z.2 ∨ ∃ y rest d q, z.1.Alike y ∧ Left c₁ c₂ least rest s₁ s₂
      ∧ d + rest.length = text.length + more.length
      ∧ Both (o₁ + d) (o₂ + d) (rest ++ s₁) (rest ++ s₂) z.2 q
      ∧ Reaches (binary c₂ least) fuel p₂ y q := by
  cases fuel with
  | zero => cases read
  | succ fuel =>
  rw [binary_eq, Option.bind_eq_some_iff] at read
  obtain ⟨⟨operand, r⟩, power_read, rest_read⟩ := read
  rcases h.reads c₁ c₂ (further.meets loose₁.meets) (further.meets loose₂.meets) both
    power_read with
    lost | ⟨operand', r', operand_alike, power_reaches, at_more⟩
  · obtain ⟨rfl, -⟩ := binaryRest_back (stuck_of_lost lost) rest_read
    exact .inl lost
  rcases climbs operand_alike at_more rest_read with
    lost | ⟨x, y, rest, d, left, q₁, q₂, alike, remains, d_eq, at_rest, done, onward⟩
  · exact .inl lost
  obtain ⟨stuck₁, stuck₂⟩ := remains.stuck loose₁ loose₂ tight
  rw [← at_rest.first.token] at stuck₁
  rw [← at_rest.second.token] at stuck₂
  obtain ⟨rfl, left, rfl⟩ := binaryRest_back stuck₁ done
  refine .inr ⟨y, rest, text.length + d, q₂, alike, remains, by omega, ?_, ?_⟩
  · rw [← Nat.add_assoc, ← Nat.add_assoc]
    exact at_rest
  · exact ((power_reaches.onward fun n done => by rw [binary_eq, done]; rfl).trans onward).reaches
      (reaches_of_succ fun n => binaryRest_stuck stuck₂)

theorem Further.climbs (k : Nat) (h : Further more) (short : more.length ≤ k)
    (loose₁ : Loose c₁ s₁) (loose₂ : Loose c₂ s₂) : Climbs c₁ c₂ s₁ s₂ more := by
  induction k generalizing more with
  | zero =>
    obtain rfl := List.length_eq_zero_iff.1 (Nat.le_zero.1 short)
    exact climbs_nil
  | succ k ih =>
    cases h with
    | nil => exact climbs_nil
    | @cons m text more mem factor further =>
      intro least fuel o₁ o₂ x y p₁ p₂ z alike both read
      obtain ⟨level, op, low, found⟩ := infix_operator mem
      simp only [List.length_cons, List.length_append] at short
      have text_eq (s : List Char) : (' ' :: (m.toList ++ ' ' :: (text ++ more))) ++ s
          = ' ' :: (m.toList ++ ' ' :: (text ++ (more ++ s))) := by simp
      by_cases tight : least ≤ level
      · rw [text_eq, text_eq] at both
        have token₁ : p₁.token = .mark m :=
          both.first.token.trans (ahead_operator (infix_spaced mem) _)
        have token₂ : p₂.token = .mark m :=
          both.second.token.trans (ahead_operator (infix_spaced mem) _)
        cases fuel with
        | zero => cases read
        | succ fuel =>
        have enough : comparisonLevel ≤ nextLevel level := by
          have : comparisonLevel = 7 := rfl
          rw [nextLevel]
          split <;> omega
        rw [binaryRest_operation (token₁ ▸ found c₁) tight, Option.bind_eq_some_iff] at read
        obtain ⟨⟨right, r₁⟩, binary_read, read⟩ := read
        rcases factor.second further (ih further (by omega)) loose₁ loose₂ enough
          (both.operator (infix_spaced mem)) binary_read with
          lost | ⟨b, qs, d, q₂, right_alike, remains, d_eq, at_qs, reaches⟩
        · obtain ⟨rfl, -⟩ := binaryRest_back (stuck_of_lost lost) read
          exact .inl lost
        have onward : Onward (fun n => binaryRest c₂ least n y) (fuel + 1) p₂
            (fun n => binaryRest c₂ least n (.binary op y b)) fuel q₂ :=
          reaches.onward fun n done => by
            rw [binaryRest_operation (token₂ ▸ found c₂) tight, done]
            rfl
        -- what is left of the operators
        rcases ih remains.further (by omega) (.binary op alike right_alike) at_qs read with
          lost | ⟨x', y', rest, e, left, r₁, r₂, x'_alike, remains', e_eq, at_rest, x'_read,
            y'_onward⟩
        · exact .inl lost
        refine .inr ⟨x', y', rest, m.toList.length + 2 + d + e, left, r₁, r₂, x'_alike, remains',
          by simp; omega, ?_, x'_read, onward.trans y'_onward⟩
        convert at_rest using 1 <;> omega
      · have stuck (c : Surround) (s : List Char) :
            Stuck c least (ahead ((' ' :: (m.toList ++ ' ' :: (text ++ more))) ++ s)) := by
          rw [text_eq, ahead_operator (infix_spaced mem)]
          intro level' op' found'
          cases (found c).symm.trans found'
          omega
        exact .inr ⟨x, y, _, 0, fuel, p₁, p₂, alike, ⟨.cons mem factor further, .inr (stuck c₁ s₁),
          .inr (stuck c₂ s₂)⟩, Nat.zero_add _, both, read, .refl _ _ _⟩

end Climbing

/-- The text of an expression: operands with operators between them. -/
structure Formula (text : List Char) : Prop where
  split : ∃ first more, text = first ++ more ∧ Factor first ∧ Further more

theorem Factor.formula (h : Factor text) : Formula text := ⟨text, [], by simp, h, .nil⟩

theorem Formula.solid (h : Formula text) : Solid text := by
  obtain ⟨first, more, rfl, factor, -⟩ := h
  exact factor.solid.append more

theorem Formula.starts {s : List Char} {o : Nat} {p : Place} (h : Formula text)
    (ends : Meets Halts s) (at_p : Facing o (text ++ s) p) : Starts p := by
  obtain ⟨first, more, rfl, factor, further⟩ := h
  rw [List.append_assoc] at at_p
  exact factor.starts (further.meets ends) at_p

theorem Formula.heads (h : Formula text) : HeadsAlike (Meets Halts) text := by
  obtain ⟨first, more, rfl, factor, further⟩ := h
  intro s₁ s₂ ends₁ ends₂ _ o₁ o₂ p₁ p₂ both
  rw [List.append_assoc, List.append_assoc] at both
  exact factor.heads (further.meets ends₁) (further.meets ends₂)
    (fun square => absurd square (further.not_square ends₂)) both

theorem Formula.barren {s : List Char} (h : Formula text) (ends : Meets Halts s)
    (nameless : Nameless s) (barren : Barren s) : Barren (text ++ s) := by
  obtain ⟨first, more, rfl, factor, further⟩ := h
  obtain ⟨rest_nameless, rest_barren⟩ := further.barren nameless barren
  rw [List.append_assoc]
  exact factor.barren (further.meets ends) rest_nameless rest_barren

/-- Both readings of an expression come to its end with expressions that are alike. -/
theorem Formula.climbs {s₁ s₂ : List Char} {c₁ c₂ : Surround} {fuel o₁ o₂ : Nat} {p₁ p₂ : Place}
    {z : Expr × Place} (h : Formula text) (loose₁ : Loose c₁ s₁) (loose₂ : Loose c₂ s₂)
    (both : Both o₁ o₂ (text ++ s₁) (text ++ s₂) p₁ p₂) (read : binary c₁ 3 fuel p₁ = some z) :
    Lost z.2 ∨ ∃ x y left q₁ q₂, x.Alike y
      ∧ Both (o₁ + text.length) (o₂ + text.length) s₁ s₂ q₁ q₂
      ∧ binaryRest c₁ 3 left x q₁ = some z
      ∧ Onward (binary c₂ 3) fuel p₂ (fun n => binaryRest c₂ 3 n y) left q₂ := by
  obtain ⟨first, more, rfl, factor, further⟩ := h
  cases fuel with
  | zero => cases read
  | succ fuel =>
    rw [List.append_assoc, List.append_assoc] at both
    rw [binary_eq, Option.bind_eq_some_iff] at read
    obtain ⟨⟨x, r⟩, power_read, read⟩ := read
    rcases factor.reads c₁ c₂ (further.meets loose₁.meets) (further.meets loose₂.meets) both
      power_read with lost | ⟨y, r', alike, reaches, at_more⟩
    · obtain ⟨rfl, -⟩ := binaryRest_back (stuck_of_lost lost) read
      exact .inl lost
    rcases further.climbs more.length (Nat.le_refl _) loose₁ loose₂ alike at_more read with
      lost | ⟨x', y', rest, d, left, q₁, q₂, x'_alike, remains, d_eq, at_rest, x'_read, onward⟩
    · exact .inl lost
    -- every operator of such a text binds tightly enough
    have all : rest = [] := by
      cases remains.further with
      | nil => rfl
      | @cons m text more mem _ _ =>
        rcases remains.first with none | stuck
        · cases none
        · obtain ⟨level, op, low, found⟩ := infix_operator mem
          have text_eq : (' ' :: (m.toList ++ ' ' :: (text ++ more))) ++ s₁
              = ' ' :: (m.toList ++ ' ' :: (text ++ (more ++ s₁))) := by simp
          rw [text_eq, ahead_operator (infix_spaced mem)] at stuck
          have := stuck level _ (found c₁)
          omega
    subst all
    refine .inr ⟨x', y', left, q₁, q₂, x'_alike, ?_, x'_read, ?_⟩
    · rw [List.length_append]
      rw [List.length_nil, Nat.add_zero] at d_eq
      rw [d_eq, Nat.add_assoc, Nat.add_assoc] at at_rest
      exact at_rest
    · exact (reaches.onward fun n done => by rw [binary_eq, done]; rfl).trans onward

theorem stuck_of_stops {c : Surround} {least : Nat} {t : Token} (h : Stops t) :
    Stuck c least t := by
  intro level op found
  rw [h.operator?] at found
  cases found

theorem Meets.loose {c : Surround} {s : List Char} (h : Meets Stops s) : Loose c s :=
  ⟨h.halts, stuck_of_stops h.ahead⟩

theorem Formula.binary (h : Formula text) (c₁ c₂ : Surround) :
    Mirrors (Meets Stops) Expr.Alike (binary c₁ 3) (binary c₂ 3) text := by
  intro s₁ s₂ o₁ o₂ p₁ p₂ fuel x q₁ stops₁ stops₂ both read
  rcases h.climbs stops₁.loose stops₂.loose both read with
    lost | ⟨x', y, left, r₁, q₂, alike, after, done, onward⟩
  · exact .inl lost
  · have stuck₁ : Stuck c₁ 3 r₁.token := after.first.token ▸ stuck_of_stops stops₁.ahead
    have stuck₂ : Stuck c₂ 3 q₂.token := after.second.token ▸ stuck_of_stops stops₂.ahead
    obtain ⟨same, left, rfl⟩ := binaryRest_back stuck₁ done
    obtain ⟨rfl, rfl⟩ := Prod.mk.inj same
    exact .inr ⟨y, q₂, alike, onward.reaches (reaches_of_succ fun n => binaryRest_stuck stuck₂),
      after⟩

theorem Formula.conditional (h : Formula text) (c₁ c₂ : Surround) :
    Mirrors (Meets Stops) Expr.Alike (conditional c₁) (conditional c₂) text := by
  have circuit : Mirrors (Meets Stops) Expr.Alike (shortCircuit c₁) (shortCircuit c₂) text :=
    (h.binary c₁ c₂).passes (fun _ _ => shortCircuit_passes _) (fun _ _ => shortCircuit_passes _)
      (fun s stops => .stops stops.ahead) .illegal
  exact circuit.passes (fun _ _ => conditional_passes _) (fun _ _ => conditional_passes _)
    (fun s stops => .stops stops.ahead) .illegal

/-- What an assignment is where no function with an arrow begins. -/
theorem assignment_back {c : Surround} {cover : Bool} {fuel : Nat} {p : Place} {z : Expr × Place}
    (arrow : ∀ fuel, arrowHead fuel p = none) (read : assignment c cover fuel p = some z) :
    ∃ n r, fuel = n + 1 ∧ conditional c n p = some r
      ∧ (Quiet r.2.token → z = r ∧ (cover || !hasDefault r.1) = true) := by
  cases fuel with
  | zero => cases read
  | succ n =>
    cases found : conditional c n p with
    | none => cases (assignment_fails (arrow n) found).symm.trans read
    | some r =>
      refine ⟨n, r, rfl, found, fun quiet => ?_⟩
      rw [assignment_gives (arrow n) found quiet] at read
      split at read
      · next plain =>
        cases read
        exact ⟨rfl, plain⟩
      · cases read

theorem Reaches.assignment {c : Surround} {cover : Bool} {p q : Place} {x : Expr}
    (arrow : ∀ fuel, arrowHead fuel p = none) (part : Reaches (conditional c) n p x q)
    (quiet : Quiet q.token) (plain : (cover || !hasDefault x) = true) :
    Reaches (assignment c cover) (n + 1) p x q :=
  part.then fun n done => by rw [assignment_gives (arrow n) done quiet, if_pos plain]

theorem Formula.assignment (h : Formula text) (c₁ c₂ : Surround) (cover : Bool) :
    Mirrors (Meets Stops) Expr.Alike (assignment c₁ cover) (assignment c₂ cover) text := by
  intro s₁ s₂ o₁ o₂ p₁ p₂ fuel x q₁ stops₁ stops₂ both read
  have start₁ := h.starts stops₁.halts both.first
  have start₂ := h.starts stops₂.halts both.second
  obtain ⟨n, ⟨x', r⟩, rfl, found, same⟩ := assignment_back start₁.arrow read
  rcases h.conditional c₁ c₂ stops₁ stops₂ both found with
    lost | ⟨y, q₂, alike, reaches, after⟩
  · obtain ⟨done, -⟩ := same (lost.token ▸ .illegal)
    cases done
    exact .inl lost
  · obtain ⟨done, plain⟩ := same (after.first.token ▸ .stops stops₁.ahead)
    cases done
    refine .inr ⟨y, q₂, alike, reaches.assignment start₂.arrow ?_ ?_, after⟩
    · exact after.second.token ▸ .stops stops₂.ahead
    · rw [← hasDefault_alike alike]
      exact plain

/-- The tokens at which a whole expression ends. -/
def Closes (t : Token) : Prop := Stops t ∧ t ≠ .mark ","

theorem Meets.stops {s : List Char} (h : Meets Closes s) : Meets Stops s := h.mono fun _ => And.left

theorem Formula.expression (h : Formula text) (c₁ c₂ : Surround) :
    Mirrors (Meets Closes) Expr.Alike (expression c₁) (expression c₂) text := by
  have part : Mirrors (Meets Closes) Expr.Alike (Parser.assignment c₁ false)
      (Parser.assignment c₂ false) text := fun _ _ _ _ _ _ _ _ _ ends₁ ends₂ both read =>
    h.assignment c₁ c₂ false ends₁.stops ends₂.stops both read
  exact part.passes (fun _ _ => expression_passes _) (fun _ _ => expression_passes _)
    (fun s ends => ends.ahead.2) (by simp)

/-! ## Lists -/

/-- The text of one part of a list. -/
structure Item (alike : Expr → Expr → Prop) (f g : Nat → Parse Expr) (text : List Char) : Prop where
  opens : ∀ {s o p}, Meets Stops s → Facing o (text ++ s) p →
    ∀ m, m ∉ ["[", "(", "-"] → p.token ≠ .mark m
  reads : Mirrors (Meets Stops) alike f g text

theorem Formula.item (h : Formula text) (c₁ c₂ : Surround) (cover : Bool) :
    Item Expr.Alike (Parser.assignment c₁ cover) (Parser.assignment c₂ cover) text where
  opens stops at_p _ other := (h.starts stops.halts at_p).leading.not_mark other
  reads := h.assignment c₁ c₂ cover

/-- The text of parts with commas between them, up to a closing mark. -/
inductive Listed (part : List Char → Prop) (close : String) : List Char → Prop where
  | nil : Listed part close close.toList
  | last {text : List Char} : part text → Listed part close (text ++ close.toList)
  | more {text rest : List Char} : part text → Listed part close rest →
      Listed part close (text ++ ',' :: ' ' :: rest)

/-- The marks that close lists. -/
structure Closer (close : String) : Prop where
  bracket : close ∈ brackets
  other : close ∉ [",", "...", "[", "(", "-"]
  meets : ∀ s, Meets Stops (close.toList ++ s)

theorem closer_round : Closer ")" := by
  refine ⟨by decide, by decide, fun s => ?_⟩
  have token : ahead (')' :: s) = .mark ")" := ahead_bracket (m := ")") (by decide) s
  exact meets_cons (c := ')') (by decide) (token ▸ .round)

theorem closer_square : Closer "]" := by
  refine ⟨by decide, by decide, fun s => ?_⟩
  have token : ahead (']' :: s) = .mark "]" := ahead_bracket (m := "]") (by decide) s
  exact meets_cons (c := ']') (by decide) (token ▸ .square)

theorem meets_comma (s : List Char) : Meets Stops (',' :: s) := by
  refine meets_cons (by decide) ?_
  rw [show ahead (',' :: s) = .mark "," from ahead_bracket (m := ",") (by decide) s]
  exact .comma

section Lists

variable {alike : Expr → Expr → Prop} {f₁ f₂ : Nat → Parse (List Expr)}
  {part₁ part₂ : Nat → Parse Expr} {close : String}

/-- A list whose first part is read. -/
theorem Item.listed {t₁ t₂ : List Char} {o₁ o₂ fuel : Nat} {p₁ p₂ : Place}
    {z : List Expr × Place} (h : Item alike part₁ part₂ text) (closer : Closer close)
    (first : Lists f₁ part₁ close) (second : Lists f₂ part₂ close) (stops₁ : Meets Stops t₁)
    (stops₂ : Meets Stops t₂) (both : Both o₁ o₂ (text ++ t₁) (text ++ t₂) p₁ p₂)
    (read : f₁ fuel p₁ = some z) :
    ∃ n x y q₁ q₂, fuel = n + 1 ∧ alike x y ∧ Both (o₁ + text.length) (o₂ + text.length) t₁ t₂ q₁ q₂
      ∧ (if q₁.token = .mark close then some ([x], q₁.next)
        else if q₁.token = .mark "," then (f₁ n q₁.next).bind fun r => some (x :: r.1, r.2)
        else none) = some z
      ∧ (q₂.token = .mark close → Reaches f₂ fuel p₂ [y] q₂.next)
      ∧ ∀ ys q, q₂.token = .mark "," → q₂.token ≠ .mark close →
        Reaches f₂ n q₂.next ys q → Reaches f₂ fuel p₂ (y :: ys) q := by
  have opens {o : Nat} {t : List Char} {p : Place} (stops : Meets Stops t)
      (at_p : Facing o (text ++ t) p) : ∀ m ∈ [close, ",", "..."], p.token ≠ .mark m := by
    have other := closer.other
    have opens := h.opens stops at_p
    simp only [List.mem_cons, List.not_mem_nil, or_false, forall_eq_or_imp, forall_eq]
    exact ⟨opens close (by simp_all), opens "," (by decide), opens "..." (by decide)⟩
  cases fuel with
  | zero =>
    rw [first.zero] at read
    cases read
  | succ n =>
    rw [first.item (opens stops₁ both.first), Option.bind_eq_some_iff] at read
    obtain ⟨⟨x, q₁⟩, part_read, read⟩ := read
    rcases h.reads stops₁ stops₂ both part_read with lost | ⟨y, q₂, alike, reaches, after⟩
    · simp [lost.token] at read
    refine ⟨n, x, y, q₁, q₂, rfl, alike, after, read, fun ends => ?_,
      fun ys q comma goes more => ?_⟩
    · exact reaches.then fun n done => by
        rw [second.item (opens stops₂ both.second), done]
        simp [ends]
    · intro m enough
      obtain ⟨m, rfl⟩ : ∃ i, m = i + 1 := ⟨m - 1, by omega⟩
      rw [second.item (opens stops₂ both.second), reaches m (by omega), Option.bind_some,
        if_neg goes, if_pos comma, more m (by omega)]
      rfl

theorem Listed.copies {part : List Char → Prop} (h : Listed part close text)
    (each : ∀ t, part t → Item alike part₁ part₂ t) (closer : Closer close)
    (first : Lists f₁ part₁ close) (second : Lists f₂ part₂ close) :
    Copies (fun _ => True) (List.Forall₂ alike) f₁ f₂ text := by
  intro s₁ s₂ o₁ o₂ p₁ p₂ fuel xs q₁ _ _ both read
  have lexes := lexes_bracket closer.bracket
  have ends {o : Nat} {s : List Char} {p : Place} (at_p : Facing o (close.toList ++ s) p) :
      p.token = .mark close := at_p.token.trans (ahead_bracket closer.bracket s)
  induction h generalizing o₁ o₂ p₁ p₂ fuel xs q₁ with
  | nil =>
    cases fuel with
    | zero =>
      rw [first.zero] at read
      cases read
    | succ n =>
      rw [first.empty (ends both.first)] at read
      cases read
      exact ⟨[], p₂.next, .nil, reaches_of_succ fun n => second.empty (ends both.second),
        both.next (l := markLexeme close) (lexes s₁) (lexes s₂)⟩
  | @last text item =>
    rw [List.append_assoc, List.append_assoc] at both
    obtain ⟨n, x, y, r₁, r₂, rfl, same, after, done, single, -⟩ :=
      (each text item).listed closer first second (closer.meets s₁) (closer.meets s₂) both read
    rw [if_pos (ends after.first)] at done
    cases done
    refine ⟨[y], r₂.next, .cons same .nil, single (ends after.second), ?_⟩
    have at_end := after.next (l := markLexeme close) (lexes s₁) (lexes s₂)
    rw [List.length_append, ← Nat.add_assoc, ← Nat.add_assoc]
    exact at_end
  | @more text rest item _ ih =>
    have text_eq (s : List Char) : (text ++ ',' :: ' ' :: rest) ++ s
        = text ++ ',' :: (' ' :: (rest ++ s)) := by simp
    rw [text_eq, text_eq] at both
    obtain ⟨n, x, y, r₁, r₂, rfl, same, after, done, -, several⟩ :=
      (each text item).listed closer first second (meets_comma _) (meets_comma _) both read
    have comma : "," ∈ brackets := by decide
    have token₁ : r₁.token = .mark "," := after.first.token.trans (ahead_bracket comma _)
    have token₂ : r₂.token = .mark "," := after.second.token.trans (ahead_bracket comma _)
    have other : Token.mark "," ≠ .mark close := fun same =>
      closer.other ((Token.mark.inj same) ▸ by decide)
    rw [token₁, if_neg other, if_pos rfl, Option.bind_eq_some_iff] at done
    obtain ⟨⟨xs, r⟩, rest_read, done⟩ := done
    cases done
    have at_rest := (after.next (l := markLexeme ",") (lexes_bracket comma _)
      (lexes_bracket comma _)).space
    obtain ⟨ys, q₂, all, reaches, at_end⟩ := ih at_rest rest_read
    refine ⟨y :: ys, q₂, .cons same all, several ys q₂ token₂ (token₂ ▸ other) reaches, ?_⟩
    have length : (markLexeme ",").source.length = 1 := rfl
    rw [length] at at_end
    convert at_end using 1 <;> simp <;> omega

end Lists

/-- The elements of an array are a pattern for all that is read of them. -/
theorem Listed.barren {s : List Char} (h : Listed Formula "]" text) (barren : Barren s) :
    Barren (text ++ s) := by
  have closed : Barren (']' :: s) := barren_bracket (m := "]") (by decide) barren
  induction h with
  | nil => exact closed
  | last formula =>
    have nameless : Nameless (']' :: s) := by
      rw [Nameless, show ahead (']' :: s) = .mark "]" from
        ahead_bracket (m := "]") (by decide) s]
      rfl
    rw [List.append_assoc]
    exact formula.barren (closer_square.meets s).halts nameless closed
  | @more text rest formula _ ih =>
    have comma : Barren (',' :: (' ' :: (rest ++ s))) :=
      barren_bracket (m := ",") (by decide) fun o p at_p => ih at_p.space
    have nameless : Nameless (',' :: (' ' :: (rest ++ s))) := by
      rw [Nameless, show ahead (',' :: (' ' :: (rest ++ s))) = .mark "," from
        ahead_bracket (m := ",") (by decide) _]
      rfl
    have whole := formula.barren (meets_comma (' ' :: (rest ++ s))).halts nameless comma
    simpa using whole

theorem alikeAll_of_forall {xs ys : List Expr} (h : List.Forall₂ Expr.Alike xs ys) :
    Expr.AlikeAll xs ys := by
  induction h with
  | nil => exact .nil
  | cons first _ ih => exact .cons first ih

/-- The text of expressions with commas between them. -/
theorem Listed.expressions {f₁ f₂ : Nat → Parse (List Expr)} {c₁ c₂ : Surround} {cover : Bool}
    {close : String} (h : Listed Formula close text) (closer : Closer close)
    (first : Lists f₁ (Parser.assignment c₁ cover) close)
    (second : Lists f₂ (Parser.assignment c₂ cover) close) :
    Copies (fun _ => True) Expr.AlikeAll f₁ f₂ text := by
  intro s₁ s₂ o₁ o₂ p₁ p₂ fuel xs q₁ ok₁ ok₂ both read
  obtain ⟨ys, q₂, all, rest⟩ := h.copies (fun t formula => formula.item c₁ c₂ cover) closer first
    second ok₁ ok₂ both read
  exact ⟨ys, q₂, alikeAll_of_forall all, rest⟩

end EggLang.Script.Parser
