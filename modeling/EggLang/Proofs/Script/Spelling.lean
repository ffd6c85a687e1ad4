import EggLang.Proofs.Script.Lexeme

/-!
# Spelled tokens

The written tokens of generated code, and before which texts they are read as they stand: a mark
before anything that makes no longer mark of it, a name before anything that does not go on a name.
-/

namespace EggLang.Script

/-- A mark without blanks before it. -/
def markLexeme (m : String) : Lexeme := ⟨[], m.toList, .mark m⟩

/-- A name or a keyword without blanks before it. -/
def wordLexeme (n : String) : Lexeme := ⟨[], n.toList, .name n false⟩

/-- A text behind which a name or a number ends. -/
def Calm (tail : List Char) : Prop :=
  ∀ c ∈ tail.head?, Text.isIdentifierPart c = false ∧ c ≠ '\\' ∧ c ≠ '.'

/-- A text behind which a name ends. -/
def EndsName (tail : List Char) : Prop :=
  ∀ c ∈ tail.head?, Text.isIdentifierPart c = false ∧ c ≠ '\\'

theorem Calm.endsName {tail : List Char} (h : Calm tail) : EndsName tail := fun c mem =>
  ⟨(h c mem).1, (h c mem).2.1⟩

theorem calm_cons {c : Char} (tail : List Char) (h : c ∈ [' ', '\n', '(', ')', '[', ']', ',']) :
    Calm (c :: tail) := by
  intro d mem
  obtain rfl : c = d := by simpa using mem
  simp only [List.mem_cons, List.not_mem_nil, or_false] at h
  rcases h with rfl | rfl | rfl | rfl | rfl | rfl | rfl <;> decide

/-! ## Marks -/

/-- The marks that are read before every text. -/
def brackets : List String := ["(", ")", "[", "]", "\x7b", "\x7d", ","]

theorem lexes_bracket {m : String} (h : m ∈ brackets) (tail : List Char) :
    (markLexeme m).Lexes tail := by
  refine ⟨by simp [markLexeme], ?_⟩
  simp only [brackets, List.mem_cons, List.not_mem_nil, or_false] at h
  rcases h with rfl | rfl | rfl | rfl | rfl | rfl | rfl <;> exact ⟨_, [], rfl, rfl, rfl, rfl⟩

/-- The marks that stand between blanks in generated code. -/
def spacedMarks : List String := ["+", "-", "*", "/", "==", "<", ">", "!=", "!==", "="]

theorem lexes_spaced {m : String} (h : m ∈ spacedMarks) (tail : List Char) :
    (markLexeme m).Lexes (' ' :: tail) := by
  refine ⟨by simp [markLexeme], ?_⟩
  simp only [spacedMarks, List.mem_cons, List.not_mem_nil, or_false] at h
  rcases h with rfl | rfl | rfl | rfl | rfl | rfl | rfl | rfl | rfl | rfl <;>
    exact ⟨_, _, rfl, rfl, rfl, rfl⟩

theorem lexes_dot (tail : List Char) : (markLexeme ".").Lexes ('l' :: tail) :=
  ⟨by simp [markLexeme], _, [], rfl, rfl, rfl, rfl⟩

/-! ## Names -/

/-- The characters of a name in ASCII. -/
structure IsName (cs : List Char) : Prop where
  ascii : ∀ c ∈ cs, c.toNat < 0x80
  starts : ∃ c rest, cs = c :: rest ∧ Text.isIdentifierStart c = true
    ∧ ∀ d ∈ rest, Text.isIdentifierPart d = true

theorem isName_iff {cs : List Char} :
    IsName cs ↔ (cs.all fun c => c.toNat < 0x80) = true
      ∧ cs.head?.any Text.isIdentifierStart = true
      ∧ cs.tail.all Text.isIdentifierPart = true := by
  rw [List.all_eq_true, List.all_eq_true]
  simp only [decide_eq_true_eq]
  constructor
  · rintro ⟨ascii, c, rest, rfl, start, parts⟩
    exact ⟨ascii, start, parts⟩
  · rintro ⟨ascii, start, parts⟩
    cases cs with
    | nil => cases start
    | cons c rest => exact ⟨ascii, c, rest, rfl, start, parts⟩

instance (cs : List Char) : Decidable (IsName cs) := decidable_of_iff' _ isName_iff

theorem ascii_start {c : Char} (ascii : c.toNat < 0x80) (h : Text.isIdentifierStart c = true) :
    Token.isGap c = false ∧ c ≠ '\\' ∧ c ≠ '/' := by
  have all : ∀ n : Fin 128, Text.isIdentifierStart (Char.ofNat n) = true →
      Token.isGap (Char.ofNat n) = false ∧ Char.ofNat n ≠ '\\' ∧ Char.ofNat n ≠ '/' := by
    decide
  have this := all ⟨c.toNat, ascii⟩
  rw [Char.ofNat_toNat] at this
  exact this h

theorem ascii_part {c : Char} (h : Text.isIdentifierPart c = true) : c ≠ '\\' := by
  rintro rfl
  revert h
  decide

theorem nameRest_part {cs tail : List Char} (parts : ∀ c ∈ cs, Text.isIdentifierPart c = true)
    (ends : EndsName tail) :
    Token.nameRest 0 false (cs ++ tail) = some (cs, cs.length, false) := by
  induction cs with
  | nil =>
    cases tail with
    | nil => rfl
    | cons c tail =>
      obtain ⟨no_part, no_escape⟩ := ends c rfl
      simp [Token.nameRest, no_part, no_escape]
  | cons c cs ih =>
    have part := parts c List.mem_cons_self
    rw [List.cons_append, Token.nameRest.eq_def]
    simp [ascii_part part, part, ih fun d mem => parts d (List.mem_cons_of_mem c mem)]

theorem lexes_word {n : String} (name : IsName n.toList) {tail : List Char}
    (ends : EndsName tail) : (wordLexeme n).Lexes tail := by
  obtain ⟨c, rest, text, start, parts⟩ := name.starts
  obtain ⟨solid, no_escape, no_slash⟩ := ascii_start (name.ascii c (by simp [text])) start
  have code : Place.comment? (c :: (rest ++ tail)) = none := by
    rw [Place.comment?.eq_def]
    split
    · simp_all
    · simp_all
    · rfl
  have whole : Token.nameRest 0 true (c :: (rest ++ tail))
      = some (n.toList, n.toList.length, false) := by
    rw [Token.nameRest.eq_def]
    simp [no_escape, start, nameRest_part parts ends, text]
  refine ⟨by simp [wordLexeme], c, rest, text, solid, code, ?_⟩
  simp [Token.next, start, whole, wordLexeme]

/-! ## Strings -/

/-- What a function with the wrong number of arguments says, between quotes. -/
def arityText : List Char := "\"Wrong number of arguments\"".toList

/-- The string of that text. -/
def arityLexeme : Lexeme := ⟨[], arityText, .string (Units.ofString "Wrong number of arguments")⟩

theorem lexes_arity (tail : List Char) : arityLexeme.Lexes tail :=
  ⟨by simp [arityLexeme], _, _, rfl, rfl, rfl, rfl⟩

end EggLang.Script
