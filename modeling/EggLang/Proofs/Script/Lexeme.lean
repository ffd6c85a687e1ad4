import EggLang.Script.Token
import Mathlib.Data.List.Basic

/-!
# Scripts as written tokens

A written token is a token with its characters and the blanks before them. What matters for a
written token is what follows directly: `Lexes` says that the token is read there. A place stands
at a list of written tokens when the text from there on is theirs; reading a token leads from
`At (l :: ls)` to `At ls`.
-/

namespace EggLang.Script

/-- A token as it is written. -/
structure Lexeme where
  /-- The blanks before the token. -/
  gap : List Char
  text : List Char
  token : Token

namespace Lexeme

/-- The characters of a written token. -/
def source (l : Lexeme) : List Char := l.gap ++ l.text

/-- Whether a written token stands on a new line. -/
def isBroken (l : Lexeme) : Bool := l.gap.any Text.isLineBreak

/-- The written token with more blanks before it. -/
def after (gap : List Char) (l : Lexeme) : Lexeme := { l with gap := gap ++ l.gap }

@[simp] theorem token_after (gap : List Char) (l : Lexeme) : (l.after gap).token = l.token := rfl

/-- A written token is read as its token when the given text follows. -/
structure Lexes (l : Lexeme) (tail : List Char) : Prop where
  gap : ∀ c ∈ l.gap, Token.isGap c = true
  reads : ∃ c rest, l.text = c :: rest ∧ Token.isGap c = false
    ∧ Place.comment? (c :: (rest ++ tail)) = none
    ∧ Token.next c (rest ++ tail) = (l.token, l.text.length)

end Lexeme

/-- The characters of written tokens. -/
def sources (ls : List Lexeme) : List Char := ls.flatMap Lexeme.source

@[simp] theorem sources_nil : sources [] = [] := rfl

@[simp] theorem sources_cons (l : Lexeme) (ls : List Lexeme) :
    sources (l :: ls) = l.source ++ sources ls := rfl

@[simp] theorem sources_append (ls ms : List Lexeme) :
    sources (ls ++ ms) = sources ls ++ sources ms := List.flatMap_append

/-- Written tokens with more blanks before the first one. -/
def lead (gap : List Char) : List Lexeme → List Lexeme
  | [] => []
  | l :: ls => l.after gap :: ls

@[simp] theorem lead_nil (gap : List Char) : lead gap [] = [] := rfl

@[simp] theorem lead_cons (gap : List Char) (l : Lexeme) (ls : List Lexeme) :
    lead gap (l :: ls) = l.after gap :: ls := rfl

@[simp] theorem length_lead (gap : List Char) (ls : List Lexeme) :
    (lead gap ls).length = ls.length := by
  cases ls <;> rfl

theorem lead_append (gap : List Char) {ls : List Lexeme} (some : ls ≠ []) (ms : List Lexeme) :
    lead gap (ls ++ ms) = lead gap ls ++ ms := by
  cases ls with
  | nil => exact absurd rfl some
  | cons => rfl

@[simp] theorem lead_lead (gap more : List Char) (ls : List Lexeme) :
    lead gap (lead more ls) = lead (gap ++ more) ls := by
  cases ls with
  | nil => rfl
  | cons l ls => simp [Lexeme.after]

@[simp] theorem lead_no_gap (ls : List Lexeme) : lead [] ls = ls := by
  cases ls <;> rfl

theorem sources_lead (gap : List Char) {ls : List Lexeme} (some : ls ≠ []) :
    sources (lead gap ls) = gap ++ sources ls := by
  cases ls with
  | nil => exact absurd rfl some
  | cons l ls => simp [Lexeme.after, Lexeme.source]

/-- The first of some written tokens. -/
def headToken : List Lexeme → Token
  | [] => .end
  | l :: _ => l.token

@[simp] theorem headToken_nil : headToken [] = .end := rfl

@[simp] theorem headToken_cons (l : Lexeme) (ls : List Lexeme) : headToken (l :: ls) = l.token :=
  rfl

@[simp] theorem headToken_lead (gap : List Char) (ls : List Lexeme) :
    headToken (lead gap ls) = headToken ls := by
  cases ls <;> rfl

/-- Whether the first of some written tokens stands on a new line, or there is none. -/
def isApart : List Lexeme → Bool
  | [] => true
  | l :: _ => l.isBroken

/-- Each written token is read as its token, before those that follow and the given text. -/
def LexedBefore (tail : List Char) : List Lexeme → Prop
  | [] => True
  | l :: ls => l.Lexes (sources ls ++ tail) ∧ LexedBefore tail ls

theorem lexedBefore_append {tail : List Char} {ls ms : List Lexeme} :
    LexedBefore tail (ls ++ ms) ↔ LexedBefore (sources ms ++ tail) ls ∧ LexedBefore tail ms := by
  induction ls with
  | nil => simp [LexedBefore]
  | cons l ls ih => simp [LexedBefore, ih, and_assoc]

theorem LexedBefore.lead {gap tail : List Char} {ls : List Lexeme} (lexed : LexedBefore tail ls)
    (blank : ∀ c ∈ gap, Token.isGap c = true) : LexedBefore tail (lead gap ls) := by
  cases ls with
  | nil => trivial
  | cons l ls =>
    refine ⟨⟨fun c mem => ?_, lexed.1.reads⟩, lexed.2⟩
    rcases List.mem_append.1 mem with first | own
    · exact blank c first
    · exact lexed.1.gap c own

namespace Place

theorem find_gap {gap : List Char} (blank : ∀ c ∈ gap, Token.isGap c = true) (offset : Nat)
    (broken : Bool) (text : List Char) :
    find offset broken (gap ++ text)
      = find (offset + gap.length) (broken || gap.any Text.isLineBreak) text := by
  induction gap generalizing offset broken with
  | nil => simp
  | cons c gap ih =>
    have first : Token.isGap c = true := blank c List.mem_cons_self
    rw [List.cons_append, find, if_pos first, ih fun d mem => blank d (List.mem_cons_of_mem c mem)]
    simp [Nat.add_comm, Nat.add_left_comm, Bool.or_assoc]

theorem find_token {c : Char} {rest : List Char} (solid : Token.isGap c = false)
    (code : comment? (c :: rest) = none) (offset : Nat) (broken : Bool) :
    find offset broken (c :: rest)
      = ⟨(Token.next c rest).1, offset, broken, c :: rest,
          rest.drop ((Token.next c rest).2 - 1), offset + (Token.next c rest).2, offset⟩ := by
  rw [find, if_neg (by simp [solid]), code]

/-- A place that is found in a text. -/
def Found (p : Place) : Prop :=
  ∃ offset broken text reached, p = { find offset broken text with reached }

theorem find_text {offset : Nat} {broken : Bool} {text : List Char} {c : Char} {rest : List Char}
    (here : (find offset broken text).text = c :: rest) :
    (find offset broken text).token = (Token.next c rest).1
      ∧ (find offset broken text).rest = rest.drop ((Token.next c rest).2 - 1) := by
  fun_induction find offset broken text with
  | case1 => cases here
  | case2 _ _ _ _ _ ih => exact ih here
  | case3 _ _ _ _ _ _ _ _ ih => exact ih here
  | case4 _ _ d more _ _ token size read =>
    cases here
    rw [read]
    exact ⟨rfl, rfl⟩

/-- A place at the first of some written tokens, with any text behind the last one. -/
structure Before (tail : List Char) (ls : List Lexeme) (p : Place) : Prop where
  lexed : LexedBefore tail ls
  found : ∃ offset reached, p = { find offset false (sources ls ++ tail) with reached }

variable {l : Lexeme} {ls : List Lexeme} {tail : List Char} {p : Place}

theorem Before.eq (h : Before tail (l :: ls) p) : ∃ start stop reached, p =
    { token := l.token, start, afterBreak := l.isBroken, text := l.text ++ (sources ls ++ tail),
      rest := sources ls ++ tail, stop, reached } := by
  obtain ⟨⟨⟨gap, c, rest, text, solid, code, next⟩, -⟩, offset, reached, rfl⟩ := h
  have long : l.text.length = rest.length + 1 := by rw [text]; rfl
  have found : find offset false (sources (l :: ls) ++ tail)
      = find (offset + l.gap.length) l.isBroken (c :: (rest ++ (sources ls ++ tail))) := by
    rw [sources_cons, Lexeme.source, List.append_assoc, List.append_assoc, find_gap gap, text,
      Bool.false_or]
    rfl
  refine ⟨offset + l.gap.length, offset + l.gap.length + l.text.length, reached, ?_⟩
  rw [found, find_token solid code, next, long, text]
  simp

/-- A place where the text goes on with some written tokens, the first without blanks, is one at
which the first is read. -/
theorem Found.before (found : Found p) (lexed : LexedBefore tail (l :: ls)) (tight : l.gap = [])
    (text : p.text = sources (l :: ls) ++ tail) : p.token = l.token ∧ Before tail ls p.next := by
  obtain ⟨offset, broken, whole, reached, rfl⟩ := found
  obtain ⟨⟨-, c, rest, spelled, -, -, read⟩, lexed⟩ := lexed
  have here : (find offset broken whole).text = c :: (rest ++ (sources ls ++ tail)) := by
    rw [← List.cons_append, ← spelled]
    simpa [Lexeme.source, tight] using text
  obtain ⟨token, left⟩ := find_text here
  rw [read] at token left
  have behind : (find offset broken whole).rest = sources ls ++ tail := by
    simpa [spelled] using left
  exact ⟨token, lexed, _, _, by rw [next, behind]⟩

theorem Before.token (h : Before tail (l :: ls) p) : p.token = l.token := by
  obtain ⟨_, _, _, rfl⟩ := h.eq
  rfl

theorem Before.afterBreak (h : Before tail (l :: ls) p) : p.afterBreak = l.isBroken := by
  obtain ⟨_, _, _, rfl⟩ := h.eq
  rfl

theorem Before.next (h : Before tail (l :: ls) p) : Before tail ls p.next := by
  obtain ⟨_, stop, _, rfl⟩ := h.eq
  exact ⟨h.lexed.2, stop, stop, rfl⟩

/-- A place at the first of some written tokens. -/
structure At (ls : List Lexeme) (p : Place) : Prop where
  lexed : LexedBefore [] ls
  found : ∃ offset reached, p = { find offset false (sources ls) with reached }

theorem At.before (h : At ls p) : Before [] ls p :=
  ⟨h.lexed, by simpa only [List.append_nil] using h.found⟩

theorem At.token (h : At ls p) : p.token = headToken ls := by
  cases ls with
  | nil =>
    obtain ⟨-, _, _, rfl⟩ := h
    rw [sources_nil, find]
    rfl
  | cons => exact h.before.token

theorem At.afterBreak (h : At (l :: ls) p) : p.afterBreak = l.isBroken := h.before.afterBreak

theorem At.next (h : At (l :: ls) p) : At ls p.next :=
  ⟨h.lexed.2, by simpa only [List.append_nil] using h.before.next.found⟩

theorem At.setReached (h : At ls p) (reached : Nat) : At ls { p with reached } := by
  obtain ⟨lexed, offset, _, rfl⟩ := h
  exact ⟨lexed, offset, reached, rfl⟩

theorem At.first (lexed : LexedBefore [] ls) : At ls (Place.first (sources ls)) :=
  ⟨lexed, 0, (Place.first (sources ls)).reached, rfl⟩

end Place

end EggLang.Script
