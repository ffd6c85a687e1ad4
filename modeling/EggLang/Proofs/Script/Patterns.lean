import EggLang.Proofs.Script.Ahead
import EggLang.Proofs.Script.Equations

/-!
# Texts that declare nothing

The word `let` is a name unless a pattern follows it: `let[i]` is the beginning of a declaration,
which needs a value. In generated code no pattern has one, however much of the text its reading
passes.
-/

namespace EggLang.Script.Parser

open Script.Place (Facing Both ahead)

variable {p q : Place} {m : String}

/-- A place from which the reading of a pattern comes to no value, no members and no rest, and to
no name right behind a name. -/
inductive Unbound : Place → Prop where
  | halts {p : Place} : (∀ m ∈ ["[", "]", ",", "=", "\x7b", "..."], p.token ≠ .mark m) →
      nameOf? p.token = none → Unbound p
  | bracket {p : Place} {m : String} : m ∈ ["[", "]", ","] → p.token = .mark m →
      Unbound p.next → Unbound p
  | name {p : Place} {n : String} : nameOf? p.token = some n → nameOf? p.next.token = none →
      Unbound p.next → Unbound p

theorem Unbound.not_mark (h : Unbound p) (mem : m ∈ ["=", "\x7b", "..."]) : p.token ≠ .mark m := by
  cases h with
  | halts other _ => exact other m (by revert mem; simp; tauto)
  | bracket known token _ =>
    rw [token]
    rintro ⟨⟩
    revert known mem
    simp only [List.mem_cons, List.not_mem_nil, or_false]
    rintro (rfl | rfl | rfl) <;> decide
  | name known _ _ =>
    intro token
    rw [token] at known
    cases known

theorem Unbound.next (h : Unbound p) (mem : m ∈ ["[", "]", ","]) (token : p.token = .mark m) :
    Unbound p.next := by
  cases h with
  | halts other _ => exact absurd token (other m (by revert mem; simp; tauto))
  | bracket _ _ rest => exact rest
  | name known _ _ =>
    rw [token] at known
    cases known

theorem Unbound.name_next {n : String} (h : Unbound p) (known : nameOf? p.token = some n) :
    nameOf? p.next.token = none ∧ Unbound p.next := by
  cases h with
  | halts _ other => cases other.symm.trans known
  | bracket _ token _ =>
    rw [token] at known
    cases known
  | name _ nameless rest => exact ⟨nameless, rest⟩

/-- The parts of patterns are read from such places to such places. -/
theorem Unbound.pattern (n : Nat) {p : Place} (h : Unbound p) :
    (∀ {x q}, bindingTarget n p = some (x, q) → Unbound q)
      ∧ (∀ {x q}, bindingElement n p = some (x, q) → Unbound q)
      ∧ ∀ {xs q}, bindingElements n p = some (xs, q) → Unbound q := by
  induction n generalizing p with
  | zero =>
    refine ⟨fun {x q} read => ?_, fun {x q} read => ?_, fun {xs q} read => ?_⟩
    all_goals cases read
  | succ n ih =>
    have brace := h.not_mark (m := "\x7b") (by decide)
    have spread := h.not_mark (m := "...") (by decide)
    refine ⟨fun {x q} read => ?_, fun {x q} read => ?_, fun {xs q} read => ?_⟩
    · rw [bindingTarget, bind_run, takeMark_run] at read
      by_cases opens : p.token = .mark "["
      · simp only [opens, if_true, Option.bind_some, bind_run] at read
        obtain ⟨⟨es, r⟩, found, same⟩ := Option.bind_eq_some_iff.1 read
        cases same
        exact (ih (h.next (by decide) opens)).2.2 found
      · simp only [opens, if_false, Option.bind_some, bind_run, takeMark_run, brace,
          Bool.false_eq_true, identifier_run] at read
        cases known : nameOf? p.token with
        | none => simp [known] at read
        | some w =>
          simp only [known] at read
          cases read
          exact (h.name_next known).2
    · rw [bindingElement, bind_run, Option.bind_eq_some_iff] at read
      obtain ⟨⟨target, r⟩, found, read⟩ := read
      have after := (ih h).1 found
      have equals := after.not_mark (m := "=") (by decide)
      simp only [bind_run, takeMark_run, equals, if_false, Option.bind_some,
        Bool.false_eq_true] at read
      cases read
      exact after
    · by_cases closes : p.token = .mark "]"
      · rw [lists_bindingElements.empty closes] at read
        cases read
        exact h.next (by decide) closes
      · by_cases comma : p.token = .mark ","
        · rw [bindingElements, bind_run, takeMark_run, if_neg closes] at read
          simp only [Option.bind_some, Bool.false_eq_true, if_false, bind_run, takeMark_run, comma,
            if_true] at read
          obtain ⟨⟨es, r⟩, found, same⟩ := Option.bind_eq_some_iff.1 read
          cases same
          exact (ih (h.next (by decide) comma)).2.2 found
        · rw [lists_bindingElements.item (by simp [closes, comma, spread]),
            Option.bind_eq_some_iff] at read
          obtain ⟨⟨e, r⟩, found, read⟩ := read
          have after := (ih h).2.1 found
          split at read
          · next ends =>
            cases read
            exact after.next (by decide) ends
          · split at read
            · next more =>
              obtain ⟨⟨es, r'⟩, others, same⟩ := Option.bind_eq_some_iff.1 read
              cases same
              exact (ih (after.next (by decide) more)).2.2 others
            · cases read

/-- A place with the word `let` and a pattern behind it. -/
def Lets (p : Place) : Prop := p.token = .name "let" false ∧ p.next.token = .mark "["

/-- Elsewhere nothing is declared. -/
theorem declarationAt_leading (leading : Leading p.token) (h : Unbound p) (other : ¬ Lets p) :
    declarationAt p = some (none, p) := by
  have no_var : p.token ≠ .name "var" false := leading.not_word (by decide) (by decide)
  have no_const : p.token ≠ .name "const" false := leading.not_word (by decide) (by decide)
  have start : declarationAt p = (do
      if ← atWord "let" then
        let following := (← get).next.token
        let declares := following = .mark "[" || following = .mark "\x7b"
          || ((nameOf? following).isSome && following != .name "in" false
            && following != .name "of" false)
        if declares then
          advance
          return some .let
      return none : Parse (Option Declaration)) p := by
    rw [declarationAt, bind_run, takeWord_run, if_neg no_var, Option.bind_some]
    simp only [Bool.false_eq_true, if_false]
    rw [bind_run, takeWord_run, if_neg no_const]
    rfl
  rw [start, bind_run, atWord_run, Option.bind_some]
  by_cases word : p.token = .name "let" false
  · have opens : p.next.token ≠ .mark "[" := fun opens => other ⟨word, opens⟩
    obtain ⟨nameless, rest⟩ := h.name_next (n := "let") (by rw [word]; rfl)
    have brace := rest.not_mark (m := "\x7b") (by decide)
    simp [word, bind_run, get_run, opens, brace, nameless, pure_run]
  · simp [word, pure_run]

/-- A declaration has no value. -/
theorem Lets.fails {c : Surround} {n : Nat} (lets : Lets p) (h : Unbound p) :
    statement c n p = none := by
  obtain ⟨word, opens⟩ := lets
  cases n with
  | zero => rfl
  | succ n =>
  have declares : declarationAt p = some (some .let, p.next) := by
    simp [declarationAt, bind_run, map_run, takeWord_run, atWord_run, get_run, advance_run, word,
      opens]
  have fails : declarations c .let false n p.next = none := by
    cases n with
    | zero => rfl
    | succ n =>
    rw [declarations, bind_run]
    cases found : bindingTarget n p.next with
    | none => rfl
    | some r =>
      obtain ⟨rest, after⟩ := h.name_next (n := "let") (by rw [word]; rfl)
      have equals := ((after.pattern n).1 found).not_mark (m := "=") (by decide)
      have array : isName r.1 = false := by
        cases n with
        | zero => cases found
        | succ n =>
          rw [bindingTarget, bind_run, takeMark_run, if_pos opens] at found
          simp only [Option.bind_some, if_true, bind_run] at found
          obtain ⟨_, -, same⟩ := Option.bind_eq_some_iff.1 found
          cases same
          rfl
      simp [bind_run, takeMark_run, equals, array, require_run]
  rw [statement, bind_run, get_run, Option.bind_some]
  simp only [word]
  change (declarationAt p).bind _ = _
  rw [declares, Option.bind_some]
  simp [bind_run, fails]

/-! ## Texts -/

/-- A text begins in front of two texts with the same token, and declares nothing in front of one
of them that it does not in front of the other one. -/
def HeadsAlike (ok : List Char → Prop) (text : List Char) : Prop :=
  ∀ ⦃s₁ s₂⦄, ok s₁ → ok s₂ → (ahead s₂ = .mark "[" → ahead s₁ = .mark "[") →
    ∀ ⦃o₁ o₂ p₁ p₂⦄, Both o₁ o₂ (text ++ s₁) (text ++ s₂) p₁ p₂ →
      p₁.token = p₂.token ∧ (Lets p₂ → Lets p₁)

theorem headsAlike_of_token {ok : List Char → Prop} {text : List Char} {t : Token}
    (token : ∀ {s o p}, ok s → Facing o (text ++ s) p → p.token = t)
    (other : t ≠ .name "let" false) : HeadsAlike ok text := by
  intro s₁ s₂ ok₁ ok₂ _ o₁ o₂ p₁ p₂ both
  have token₂ := token ok₂ both.second
  exact ⟨(token ok₁ both.first).trans token₂.symm, fun lets => absurd lets.1 (token₂ ▸ other)⟩

/-- A text in which no declaration ends. -/
def Barren (s : List Char) : Prop := ∀ ⦃o p⦄, Facing o s p → Unbound p

/-- A text that begins with no name. -/
def Nameless (s : List Char) : Prop := nameOf? (ahead s) = none

variable {s : List Char} {l : Lexeme}

theorem barren_halts (other : ∀ m ∈ ["[", "]", ",", "=", "\x7b", "..."], ahead s ≠ .mark m)
    (nameless : Nameless s) : Barren s := by
  intro o p at_s
  have token := at_s.token
  exact .halts (token ▸ other) (token ▸ nameless)

/-- A mark at which a pattern does not go on. -/
theorem nameless_halts {m : String} (other : m ∉ ["[", "]", ",", "=", "\x7b", "..."])
    (mark : ahead s = .mark m) : Nameless s ∧ Barren s := by
  have nameless : Nameless s := by
    rw [Nameless, mark]
    rfl
  refine ⟨nameless, barren_halts (fun n bad same => ?_) nameless⟩
  obtain rfl := Token.mark.inj (mark.symm.trans same)
  exact other bad

theorem barren_lexeme (lexes : l.Lexes s) (other : ∀ m ∈ ["=", "\x7b", "..."], l.token ≠ .mark m)
    (barren : Barren s) (nameless : Nameless s) : Barren (l.source ++ s) := by
  intro o p at_l
  have token := (at_l.lexeme lexes).token
  have at_s := (at_l.lexeme lexes).next
  have next := at_s.token
  cases known : nameOf? p.token with
  | some n => exact .name known (next ▸ nameless) (barren at_s)
  | none =>
    by_cases bracket : ∃ m ∈ ["[", "]", ","], p.token = .mark m
    · obtain ⟨m, mem, mark⟩ := bracket
      exact .bracket mem mark (barren at_s)
    · refine .halts (fun m mem mark => ?_) known
      by_cases known : m ∈ ["[", "]", ","]
      · exact bracket ⟨m, known, mark⟩
      · exact other m (by revert mem known; simp; tauto) (token ▸ mark)

theorem barren_bracket {m : String} (mem : m ∈ ["[", "]", ","]) (barren : Barren s) :
    Barren (m.toList ++ s) := by
  have known : m ∈ brackets := by
    revert mem
    simp [brackets]
    tauto
  intro o p at_m
  have found := at_m.lexeme (l := markLexeme m) (lexes_bracket known s)
  exact .bracket mem found.token (barren found.next)

end EggLang.Script.Parser
