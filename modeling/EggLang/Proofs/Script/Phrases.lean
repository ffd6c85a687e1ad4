import EggLang.Proofs.Number.Layout
import EggLang.Proofs.Script.Lines

/-!
# Phrases of generated code

A phrase is a text together with its written tokens: the tokens spell the text, and they are read
as an expression or as a statement. Each shape of generated code is one way to make a phrase of
smaller ones.
-/

namespace EggLang.Script.Parser

/-! ## Spelled texts -/

/-- The text is that of the written tokens, and these are read as they stand before each text of a
kind. -/
structure Spells (before : List Char → Prop) (text : Bytes) (ls : List Lexeme) : Prop where
  written : text = Text.ofChars (sources ls)
  lexed : ∀ tail, before tail → LexedBefore tail ls

/-- Blanks with their text. -/
structure IsBlank (text : Bytes) (gap : List Char) : Prop where
  written : text = Text.ofChars gap
  blank : ∀ c ∈ gap, Token.isGap c = true

/-- Written tokens behind which a name or a number ends. -/
def IsCalm (ls : List Lexeme) : Prop := ∀ tail, Calm (sources ls ++ tail)

variable {P : List Char → Prop} {a b text : Bytes} {ls ms : List Lexeme} {gap more : List Char}

theorem IsBlank.append (h : IsBlank a gap) (g : IsBlank b more) :
    IsBlank (a ++ b) (gap ++ more) where
  written := by rw [h.written, g.written, Layout.ofChars_append]
  blank c mem := by
    rcases List.mem_append.1 mem with here | here
    · exact h.blank c here
    · exact g.blank c here

theorem isBlank_space : IsBlank (utf8 " ") [' '] := ⟨rfl, List.forall_mem_singleton.2 rfl⟩

theorem isBlank_line : IsBlank (utf8 "\n") ['\n'] := ⟨rfl, List.forall_mem_singleton.2 rfl⟩

theorem isCalm_bracket {m : String} {c : Char} (starts : m.toList = [c])
    (mem : c ∈ [' ', '\n', '(', ')', '[', ']', ',']) (ls : List Lexeme) :
    IsCalm (markLexeme m :: ls) := by
  intro tail
  rw [sources_cons, Lexeme.source, markLexeme, starts]
  exact calm_cons _ mem

theorem isCalm_lead {c : Char} (filled : ls ≠ []) (starts : gap.head? = some c)
    (mem : c ∈ [' ', '\n', '(', ')', '[', ']', ',']) : IsCalm (lead gap ls) := by
  intro tail
  cases gap with
  | nil => cases starts
  | cons d gap =>
    cases starts
    rw [sources_lead _ filled]
    exact calm_cons _ mem

theorem IsCalm.append (h : IsCalm ls) (ms : List Lexeme) : IsCalm (ls ++ ms) := by
  intro tail
  rw [sources_append, List.append_assoc]
  exact h _

theorem Spells.append (h : Spells Calm a ls) (g : Spells P b ms) (calm : IsCalm ms) :
    Spells P (a ++ b) (ls ++ ms) where
  written := by rw [h.written, g.written, sources_append, Layout.ofChars_append]
  lexed tail fits := lexedBefore_append.2 ⟨h.lexed _ (calm tail), g.lexed tail fits⟩

theorem Spells.lead (h : Spells P text ls) (filled : ls ≠ []) (blank : IsBlank a gap) :
    Spells P (a ++ text) (lead gap ls) where
  written := by rw [h.written, blank.written, sources_lead gap filled, Layout.ofChars_append]
  lexed tail fits := (h.lexed tail fits).lead blank.blank

theorem Spells.bracket {m : String} (mem : m ∈ brackets) (g : Spells P b ms) :
    Spells P (utf8 m ++ b) (markLexeme m :: ms) where
  written := by
    rw [g.written, sources_cons, Layout.ofChars_append]
    rfl
  lexed tail fits := ⟨lexes_bracket mem _, g.lexed tail fits⟩

theorem spells_bracket {m : String} (mem : m ∈ brackets) : Spells P (utf8 m) [markLexeme m] where
  written := by simp [Lexeme.source, markLexeme, utf8, Text.ofChars]
  lexed _ _ := ⟨lexes_bracket mem _, trivial⟩

theorem Spells.word {n : String} (name : IsName n.toList) (g : Spells P b ms) (calm : IsCalm ms) :
    Spells P (utf8 n ++ b) (wordLexeme n :: ms) where
  written := by
    rw [g.written, sources_cons, Layout.ofChars_append]
    rfl
  lexed tail fits := ⟨lexes_word name (calm tail).endsName, g.lexed tail fits⟩

theorem spells_word {n : String} (name : IsName n.toList) :
    Spells Calm (utf8 n) [wordLexeme n] where
  written := by simp [Lexeme.source, wordLexeme, utf8, Text.ofChars]
  lexed _ calm := ⟨lexes_word name calm.endsName, trivial⟩

/-- A mark between blanks, and a text after it. -/
def spacedText (m : String) (text : Bytes) : Bytes := utf8 " " ++ (utf8 m ++ (utf8 " " ++ text))

theorem Spells.spaced {m : String} (mem : m ∈ spacedMarks) (g : Spells P b ms) (filled : ms ≠ []) :
    Spells P (spacedText m b)
      (EggLang.Script.lead [' '] (markLexeme m :: EggLang.Script.lead [' '] ms)) := by
  have operand := g.lead filled isBlank_space
  refine ⟨?_, fun tail fits => ⟨?_, operand.lexed tail fits⟩⟩
  · rw [spacedText, operand.written, lead_cons, sources_cons, Layout.ofChars_append]
    simp [Lexeme.after, Lexeme.source, markLexeme, utf8, Text.ofChars]
  · rw [sources_lead [' '] filled]
    exact ⟨by simp [Lexeme.after, markLexeme]; decide,
      (lexes_spaced mem (sources ms ++ tail)).reads⟩

/-! ## Names of programs -/

/-- A name that a program may give: in ASCII, and no word of the language. -/
structure IsFree (n : String) : Prop where
  spelled : IsName n.toList
  reserved : n ∉ reserved
  word : n ∉ statementWords
  connective : n ∉ connectives

theorem isFree_iff {n : String} : IsFree n ↔
    IsName n.toList ∧ n ∉ reserved ∧ n ∉ statementWords ∧ n ∉ connectives :=
  ⟨fun h => ⟨h.spelled, h.reserved, h.word, h.connective⟩,
    fun ⟨spelled, reserved, word, connective⟩ => ⟨spelled, reserved, word, connective⟩⟩

instance (n : String) : Decidable (IsFree n) := decidable_of_iff' _ isFree_iff

/-! ## Expressions -/

/-- How the first token of an expression meets the line before. -/
inductive Start : LineKind → List Lexeme → Prop where
  | fresh {ls : List Lexeme} : Fresh (headToken ls) → Start .fresh ls
  | bracketed {ss ps : List Lexeme} : Suffix ss → Parts ps → Start .bracketed (ss ++ ps)
  | hollow {ls : List Lexeme} : Hollow ls → Start .hollow ls

/-- The text of an expression. -/
structure Phrase (kind : LineKind) (text : Bytes) (ls : List Lexeme) : Prop where
  spells : Spells Calm text ls
  tight : isApart ls = false
  chain : Chain ls
  leads : Leads (headToken ls)
  start : Start kind ls

variable {kind : LineKind}

theorem Phrase.filled (h : Phrase kind text ls) : ls ≠ [] := h.chain.opening.nonempty

theorem Start.parts (h : Start kind ls) (nonempty : ls ≠ []) (parts : Parts ms) :
    Start kind (ls ++ ms) := by
  cases h with
  | fresh fresh =>
    refine .fresh ?_
    cases ls with
    | nil => exact absurd rfl nonempty
    | cons => exact fresh
  | bracketed suffix more =>
    rw [List.append_assoc]
    exact .bracketed suffix (more.append parts)
  | hollow brackets => exact .hollow (brackets.append ms)

theorem Start.suffix (h : Start kind ls) (nonempty : ls ≠ []) (suffix : Suffix ms) :
    Start kind (ls ++ ms) := by
  cases h with
  | fresh fresh =>
    refine .fresh ?_
    cases ls with
    | nil => exact absurd rfl nonempty
    | cons => exact fresh
  | @bracketed ss ps first more =>
    by_cases none : ps = []
    · subst none
      rw [List.append_nil, ← List.append_nil (ss ++ ms)]
      exact .bracketed (first.append suffix) .nil
    · rw [List.append_assoc]
      exact .bracketed first (more.suffix none suffix)
  | hollow brackets => exact .hollow (brackets.append ms)

theorem headToken_append (nonempty : ls ≠ []) (ms : List Lexeme) :
    headToken (ls ++ ms) = headToken ls := by
  cases ls with
  | nil => exact absurd rfl nonempty
  | cons => rfl

theorem isApart_append (nonempty : ls ≠ []) (ms : List Lexeme) :
    isApart (ls ++ ms) = isApart ls := by
  cases ls with
  | nil => exact absurd rfl nonempty
  | cons => rfl

theorem Phrase.parts (h : Phrase kind a ls) (spelled : Spells Calm b ms) (calm : IsCalm ms)
    (parts : Parts ms) : Phrase kind (a ++ b) (ls ++ ms) where
  spells := h.spells.append spelled calm
  tight := by rw [isApart_append h.filled, h.tight]
  chain := h.chain.parts parts
  leads := by
    rw [headToken_append h.filled]
    exact h.leads
  start := h.start.parts h.filled parts

theorem phrase_name {n : String} (free : IsFree n) : Phrase .fresh (utf8 n) [wordLexeme n] where
  spells := spells_word free.spelled
  tight := rfl
  chain := (Operand.name free.reserved rfl).chain
  leads := .name n free.word
  start := .fresh (.name n free.connective)

theorem phrase_truth (b : Bool) : Phrase .fresh (utf8 (toString b)) [wordLexeme (toString b)] where
  spells := by
    refine spells_word ?_
    cases b <;> decide
  tight := rfl
  chain := (Operand.truth b rfl).chain
  leads := .name _ (by cases b <;> decide)
  start := .fresh (.name _ (by cases b <;> decide))

theorem phrase_number (h : Layout.WritesNumeral text) : ∃ ls, Phrase .fresh text ls := by
  obtain ⟨cs, written, numeral⟩ := h
  obtain ⟨x, lexes⟩ := lexes_numeral numeral
  refine ⟨[⟨[], cs, .number x⟩], ⟨⟨?_, fun tail calm => ⟨lexes _ (calm.endsNumber _), trivial⟩⟩,
    rfl, (Operand.number rfl).chain, .number x, .fresh (.number x)⟩⟩
  rw [written]
  simp [Lexeme.source]

/-! ## Lists of expressions -/

/-- The text of expressions with commas between them. -/
structure Listing (text : Bytes) (ls : List Lexeme) : Prop where
  spells : Spells Calm text ls
  items : Items ls

theorem Phrase.listing (h : Phrase kind text ls) : Listing text ls := ⟨h.spells, h.chain.items⟩

theorem Phrase.comma (h : Phrase kind a ls) (g : Listing b ms) :
    Listing (a ++ (utf8 ", " ++ b)) (ls ++ (markLexeme "," :: lead [' '] ms)) where
  spells := by
    have more := (g.spells.lead g.items.opening.nonempty isBlank_space).bracket
      (show "," ∈ brackets by decide)
    exact h.spells.append more (isCalm_bracket rfl (by decide) _)
  items := Items.cons h.chain rfl (g.items.lead [' '])

/-! ## Arrays, accesses and calls -/

/-- The text of an array: nothing behind its closing bracket is read with it. -/
structure ArrayPhrase (kind : LineKind) (text : Bytes) (ls : List Lexeme) : Prop where
  phrase : Phrase kind text ls
  operand : Operand ls
  sealed : ∀ before, Spells before text ls

theorem array_empty :
    ArrayPhrase .hollow (utf8 "[" ++ utf8 "]") [markLexeme "[", markLexeme "]"] where
  phrase :=
    { spells := (spells_bracket (by decide)).bracket (by decide)
      tight := rfl
      chain := (Operand.noElements rfl rfl).chain
      leads := .square
      start := .hollow (.brackets rfl rfl) }
  operand := .noElements rfl rfl
  sealed _ := (spells_bracket (by decide)).bracket (by decide)

/-- A list of expressions between brackets. -/
theorem Listing.enclosed (h : Listing text ls) {o e : String} {c : Char} (opens : o ∈ brackets)
    (closes : e ∈ brackets) (starts : e.toList = [c])
    (mem : c ∈ [' ', '\n', '(', ')', '[', ']', ',']) (before : List Char → Prop) :
    Spells before (utf8 o ++ (text ++ utf8 e)) (markLexeme o :: (ls ++ [markLexeme e])) :=
  (h.spells.append (spells_bracket closes) (isCalm_bracket starts mem [])).bracket opens

theorem Listing.array (h : Listing text ls) :
    ArrayPhrase .bracketed (utf8 "[" ++ (text ++ utf8 "]"))
      (markLexeme "[" :: (ls ++ [markLexeme "]"])) where
  phrase :=
    { spells := h.enclosed (by decide) (by decide) rfl (by decide) Calm
      tight := rfl
      chain := (Operand.array h.items rfl rfl).chain
      leads := .square
      start := by
        rw [← List.append_nil (markLexeme "[" :: (ls ++ [markLexeme "]"]))]
        exact .bracketed (.index h.items rfl rfl) .nil }
  operand := .array h.items rfl rfl
  sealed := h.enclosed (by decide) (by decide) rfl (by decide)

theorem ArrayPhrase.length (h : ArrayPhrase kind text ls) :
    Phrase kind (text ++ (utf8 "." ++ utf8 "length"))
      (ls ++ [markLexeme ".", wordLexeme "length"]) where
  spells := by
    have word : IsName "length".toList := by decide
    have member : Spells Calm (utf8 "." ++ utf8 "length") [markLexeme ".", wordLexeme "length"] :=
      ⟨rfl, fun tail calm => ⟨lexes_dot _, lexes_word word calm.endsName, trivial⟩⟩
    refine ⟨?_, fun tail calm => ?_⟩
    · rw [(h.sealed Calm).written, member.written, sources_append, Layout.ofChars_append]
    · exact lexedBefore_append.2 ⟨(h.sealed fun _ => True).lexed _ trivial, member.lexed tail calm⟩
  tight := by rw [isApart_append h.phrase.filled, h.phrase.tight]
  chain := (h.operand.append (.member rfl rfl)).chain
  leads := by
    rw [headToken_append h.phrase.filled]
    exact h.phrase.leads
  start := h.phrase.start.suffix h.phrase.filled (.member rfl rfl)

/-- A phrase with a list of expressions between brackets after it. -/
theorem Phrase.suffix (h : Phrase kind a ls) (spelled : Spells Calm b ms) (calm : IsCalm ms)
    (suffix : Suffix ms) : Phrase kind (a ++ b) (ls ++ ms) where
  spells := h.spells.append spelled calm
  tight := by rw [isApart_append h.filled, h.tight]
  chain := h.chain.suffix suffix
  leads := by
    rw [headToken_append h.filled]
    exact h.leads
  start := h.start.suffix h.filled suffix

theorem Phrase.index (h : Phrase kind a ls) (g : Listing b ms) :
    Phrase kind (a ++ (utf8 "[" ++ (b ++ utf8 "]")))
      (ls ++ (markLexeme "[" :: (ms ++ [markLexeme "]"]))) :=
  h.suffix (g.enclosed (by decide) (by decide) rfl (by decide) Calm)
    (isCalm_bracket rfl (by decide) _) (.index g.items rfl rfl)

theorem Phrase.call (h : Phrase kind a ls) (g : Listing b ms) :
    Phrase kind (a ++ (utf8 "(" ++ (b ++ utf8 ")")))
      (ls ++ (markLexeme "(" :: (ms ++ [markLexeme ")"]))) :=
  h.suffix (g.enclosed (by decide) (by decide) rfl (by decide) Calm)
    (isCalm_bracket rfl (by decide) _) (.call g.items rfl rfl)

/-- A member of what a name stands for. -/
theorem phrase_access {n m : String} (object : IsFree n) (property : IsName m.toList)
    {rest : List Char} (starts : m.toList = 'l' :: rest) :
    Phrase .fresh (utf8 n ++ (utf8 "." ++ utf8 m))
      [wordLexeme n, markLexeme ".", wordLexeme m] where
  spells := by
    refine ⟨?_, fun tail calm => ⟨lexes_word object.spelled ?_, ?_,
      lexes_word property calm.endsName, trivial⟩⟩
    · simp [Lexeme.source, wordLexeme, markLexeme, utf8, Text.ofChars]
    · intro c mem
      obtain rfl : '.' = c := by simpa [Lexeme.source, markLexeme] using mem
      decide
    · rw [sources_cons, Lexeme.source, wordLexeme, starts]
      exact lexes_dot _
  tight := rfl
  chain := by
    have access : Suffix [markLexeme ".", wordLexeme m] := .member rfl rfl
    exact ((Operand.name (l := wordLexeme n) object.reserved rfl).append access).chain
  leads := .name n object.word
  start := .fresh (.name n object.connective)

end EggLang.Script.Parser
