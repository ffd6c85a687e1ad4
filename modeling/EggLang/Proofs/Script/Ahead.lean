import EggLang.Proofs.Script.Points
import EggLang.Proofs.Script.Steps

/-!
# What lies ahead of a place

A place is found in a text from an offset on. Which token it has depends only on the text ahead, so
two places in different scripts have the same tokens as long as the same text lies ahead of them.
-/

namespace EggLang.Script

namespace Place

theorem token_find (o o' : Nat) (b b' : Bool) (text : List Char) :
    (find o b text).token = (find o' b' text).token := by
  fun_induction find o b text generalizing o' b' with
  | case1 => rw [find]
  | case2 o b c rest gap ih =>
    rw [find, if_pos gap]
    exact ih _ _
  | case3 o b c rest gap size hasBreak comment ih =>
    rw [find, if_neg gap, comment]
    exact ih _ _
  | case4 o b c rest gap code token size read =>
    rw [find, if_neg gap, code]
    simp [read]

/-- The token with which a text begins. -/
def ahead (text : List Char) : Token := (find 0 false text).token

/-- A place that is found in a text, so many characters into the script. -/
def Facing (o : Nat) (text : List Char) (p : Place) : Prop :=
  ∃ broken reached, p = { find o broken text with reached }

variable {o : Nat} {text tail blanks : List Char} {p : Place} {l m : Lexeme}

theorem Facing.token (h : Facing o text p) : p.token = ahead text := by
  obtain ⟨broken, _, rfl⟩ := h
  exact token_find o 0 broken false text

theorem Facing.setReached (h : Facing o text p) (reached : Nat) :
    Facing o text { p with reached } := by
  obtain ⟨broken, _, rfl⟩ := h
  exact ⟨broken, reached, rfl⟩

theorem facing_first (script : List Char) : Facing 0 script (first script) := ⟨false, _, rfl⟩

theorem Facing.gap {b : List Char} (h : Facing o (b ++ text) p)
    (blank : ∀ c ∈ b, Token.isGap c = true) : Facing (o + b.length) text p := by
  obtain ⟨broken, reached, rfl⟩ := h
  exact ⟨_, reached, by rw [find_gap blank]⟩

theorem Facing.space (h : Facing o (' ' :: text) p) : Facing (o + 1) text p :=
  Facing.gap (b := [' ']) h (by simp; decide)

/-- What a place with a written token ahead has to do with it. -/
structure AtLexeme (o : Nat) (l : Lexeme) (tail : List Char) (p : Place) : Prop where
  token : p.token = l.token
  start : p.start = o + l.gap.length
  stop : p.stop = o + l.source.length
  text : p.text = l.text ++ tail
  /-- The next place has no line break before the blanks there. -/
  then_ : ∃ reached, p.next = { find (o + l.source.length) false tail with reached }

theorem AtLexeme.next (h : AtLexeme o l tail p) : Facing (o + l.source.length) tail p.next := by
  obtain ⟨reached, same⟩ := h.then_
  exact ⟨false, reached, same⟩

theorem find_lexeme (lexes : l.Lexes tail) (o : Nat) (broken : Bool) :
    find o broken (l.source ++ tail) = ⟨l.token, o + l.gap.length,
      broken || l.gap.any Text.isLineBreak, l.text ++ tail, tail, o + l.source.length,
      o + l.gap.length⟩ := by
  obtain ⟨gap, c, rest, text, solid, code, next⟩ := lexes
  rw [Lexeme.source, List.append_assoc, find_gap gap, text, List.cons_append,
    find_token solid code, next, text]
  simp [Nat.add_assoc]

theorem Facing.lexeme (h : Facing o (l.source ++ tail) p) (lexes : l.Lexes tail) :
    AtLexeme o l tail p := by
  obtain ⟨broken, reached, rfl⟩ := h
  rw [find_lexeme lexes]
  exact ⟨rfl, rfl, rfl, rfl, _, rfl⟩

theorem ahead_lexeme (lexes : l.Lexes tail) : ahead (l.source ++ tail) = l.token := by
  rw [ahead, find_lexeme lexes]

theorem ahead_gap (blank : ∀ c ∈ blanks, Token.isGap c = true) (text : List Char) :
    ahead (blanks ++ text) = ahead text := by
  rw [ahead, find_gap blank]
  exact token_find _ _ _ _ _

/-- A text that begins with a token. -/
def Solid (text : List Char) : Prop :=
  ∃ c rest, text = c :: rest ∧ Token.isGap c = false ∧ c ≠ '/'

theorem Solid.append (h : Solid text) (tail : List Char) : Solid (text ++ tail) := by
  obtain ⟨c, rest, rfl, facts⟩ := h
  exact ⟨c, rest ++ tail, rfl, facts⟩

/-- A space is no line break. -/
theorem AtLexeme.sameLine (h : AtLexeme o l (' ' :: text) p) (solid : Solid text) :
    p.next.afterBreak = false := by
  obtain ⟨reached, same⟩ := h.then_
  obtain ⟨c, rest, rfl, gap, slash⟩ := solid
  have space : Token.isGap ' ' = true ∧ Text.isLineBreak ' ' = false := by decide
  have code : comment? (c :: rest) = none := by
    rw [comment?.eq_def]
    split <;> simp_all
  rw [same, find, if_pos space.1, space.2, find_token gap code]
  rfl

/-- A place where the text is no token. -/
structure Lost (p : Place) : Prop where
  token : p.token = .illegal
  tight : p.afterBreak = false

/-! ## Two places -/

/-- Two places, each with its text ahead. -/
structure Both (o₁ o₂ : Nat) (t₁ t₂ : List Char) (p₁ p₂ : Place) : Prop where
  first : Facing o₁ t₁ p₁
  second : Facing o₂ t₂ p₂

variable {o₁ o₂ : Nat} {t₁ t₂ : List Char} {p₁ p₂ : Place}

theorem Both.gap (h : Both o₁ o₂ (blanks ++ t₁) (blanks ++ t₂) p₁ p₂)
    (blank : ∀ c ∈ blanks, Token.isGap c = true) :
    Both (o₁ + blanks.length) (o₂ + blanks.length) t₁ t₂ p₁ p₂ :=
  ⟨h.first.gap blank, h.second.gap blank⟩

theorem Both.space (h : Both o₁ o₂ (' ' :: t₁) (' ' :: t₂) p₁ p₂) :
    Both (o₁ + 1) (o₂ + 1) t₁ t₂ p₁ p₂ :=
  ⟨h.first.space, h.second.space⟩

theorem Both.tokens (h : Both o₁ o₂ (l.source ++ t₁) (l.source ++ t₂) p₁ p₂) (first : l.Lexes t₁)
    (second : l.Lexes t₂) : p₁.token = l.token ∧ p₂.token = l.token :=
  ⟨(h.first.lexeme first).token, (h.second.lexeme second).token⟩

theorem Both.next (h : Both o₁ o₂ (l.source ++ t₁) (l.source ++ t₂) p₁ p₂) (first : l.Lexes t₁)
    (second : l.Lexes t₂) :
    Both (o₁ + l.source.length) (o₂ + l.source.length) t₁ t₂ p₁.next p₂.next :=
  ⟨(h.first.lexeme first).next, (h.second.lexeme second).next⟩

theorem Both.operator {m : String} (mem : m ∈ spacedMarks)
    (h : Both o₁ o₂ (' ' :: (m.toList ++ ' ' :: t₁)) (' ' :: (m.toList ++ ' ' :: t₂)) p₁ p₂) :
    Both (o₁ + m.toList.length + 2) (o₂ + m.toList.length + 2) t₁ t₂ p₁.next p₂.next := by
  have at_text := (h.space.next (l := markLexeme m) (lexes_spaced mem t₁)
    (lexes_spaced mem t₂)).space
  have length : (markLexeme m).source.length = m.toList.length := rfl
  rw [length] at at_text
  convert at_text using 1 <;> omega

/-- A mark before any text, in both scripts. -/
theorem Both.bracket {m : String} (mem : m ∈ brackets)
    (both : Both o₁ o₂ (m.toList ++ t₁) (m.toList ++ t₂) p₁ p₂) :
    p₁.token = .mark m ∧ p₂.token = .mark m
      ∧ Both (o₁ + m.toList.length) (o₂ + m.toList.length) t₁ t₂ p₁.next p₂.next := by
  have lexes := lexes_bracket mem
  obtain ⟨first, second⟩ := both.tokens (l := markLexeme m) (lexes t₁) (lexes t₂)
  exact ⟨first, second, both.next (l := markLexeme m) (lexes t₁) (lexes t₂)⟩

end Place

namespace Parser

/-! ## What follows an operand -/

/-- A text that neither goes on a name nor makes it a parameter of a function with an arrow. It has
no sign, which would go on a number after an `e`. -/
structure Adjoins (s : List Char) : Prop where
  ends : EndsName s
  unsigned : Unsigned s
  noArrow : Place.ahead s ≠ .mark "=>"

/-- A text that goes on neither a name nor a number and begins with a token of a kind. -/
structure Meets (kind : Token → Prop) (s : List Char) : Prop where
  calm : Calm s
  unsigned : Unsigned s
  ahead : kind (Place.ahead s)

variable {kind : Token → Prop} {s : List Char}

theorem Meets.mono {other : Token → Prop} (h : Meets kind s) (weaker : ∀ t, kind t → other t) :
    Meets other s :=
  ⟨h.calm, h.unsigned, weaker _ h.ahead⟩

theorem Meets.halts (h : Meets Stops s) : Meets Halts s := h.mono fun _ => .stops

theorem Meets.adjoins (h : Meets Halts s) : Adjoins s :=
  ⟨h.calm.endsName, h.unsigned, h.ahead.not_mark (by decide)⟩

theorem meets_end : Meets Stops [] := by
  refine ⟨by simp [Calm], by simp [Unsigned], ?_⟩
  rw [Place.ahead, Place.find]
  exact .end

theorem unsigned_cons {c : Char} (s : List Char) (mem : c ∈ [' ', '\n', '(', ')', '[', ']', ',']) :
    Unsigned (c :: s) := by
  intro d same
  obtain rfl : c = d := by simpa using same
  constructor <;> rintro rfl <;> revert mem <;> decide

theorem meets_cons {c : Char} (mem : c ∈ [' ', '\n', '(', ')', '[', ']', ','])
    (ahead : kind (Place.ahead (c :: s))) : Meets kind (c :: s) :=
  ⟨calm_cons s mem, unsigned_cons s mem, ahead⟩

theorem ahead_bracket {m : String} (mem : m ∈ brackets) (s : List Char) :
    Place.ahead (m.toList ++ s) = .mark m := Place.ahead_lexeme (lexes_bracket mem s)

/-- An operator between blanks. -/
theorem ahead_operator {m : String} (mem : m ∈ spacedMarks) (s : List Char) :
    Place.ahead (' ' :: (m.toList ++ ' ' :: s)) = .mark m := by
  have blank : ∀ c ∈ [' '], Token.isGap c = true := List.forall_mem_singleton.2 (by decide)
  exact (Place.ahead_gap blank (m.toList ++ ' ' :: s)).trans
    (Place.ahead_lexeme (lexes_spaced mem s))

end Parser

end EggLang.Script
