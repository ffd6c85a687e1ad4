import EggLang.Proofs.Script.Phrases

/-!
# Clauses of generated code

A clause is a statement with its text, at any depth of indentation: blocks, conditionals, loops
and function literals, which check the number of their arguments before their body.
-/

namespace EggLang.Script.Parser

variable {P : List Char → Prop} {a b pad inner text cond yes no : Bytes}
  {ls ms cs ys ns : List Lexeme} {gap more : List Char} {kind : LineKind}

/-! ## Lines -/

/-- The text of a statement, which any blanks with a line break may come before. -/
structure Clause (kind : LineKind) (text : Bytes) (ls : List Lexeme) : Prop where
  spells : Spells Calm text ls
  filled : ls ≠ []
  line : ∀ gap, gap.any Text.isLineBreak = true → Line kind (lead gap ls)

theorem isApart_lead (breaks : gap.any Text.isLineBreak = true) (ls : List Lexeme) :
    isApart (lead gap ls) = true := by
  cases ls with
  | nil => rfl
  | cons l ls => simp [isApart, Lexeme.isBroken, Lexeme.after, breaks]

theorem Line.of_closed (h : Statement true ls) (apart : isApart ls = true)
    (fresh : Fresh (headToken ls)) : Line .closed ls := by
  cases ls with
  | nil => exact absurd rfl h.nonempty
  | cons => exact .closed h apart fresh

theorem Line.of_fresh (h : Sentence ls) (apart : isApart ls = true)
    (fresh : Fresh (headToken ls)) : Line .fresh ls := by
  cases ls with
  | nil => exact absurd rfl h.nonempty
  | cons => exact .fresh h apart fresh

/-- An expression as a statement. -/
theorem Phrase.clause (h : Phrase kind text ls) : Clause kind text ls where
  spells := h.spells
  filled := h.filled
  line gap breaks := by
    have sentence : Sentence (lead gap ls) := (Sentence.evaluated h.chain h.leads).lead gap
    have start := h.start
    cases start with
    | fresh fresh =>
      exact .of_fresh sentence (isApart_lead breaks ls) (by rwa [headToken_lead])
    | @bracketed ss ps suffix parts =>
      rw [lead_append gap suffix.nonempty] at sentence ⊢
      exact .bracketed sentence (suffix.lead gap) parts
    | hollow brackets => exact .hollow sentence (brackets.lead gap)

/-- The text of a statement with which a function can end. -/
structure Closing (text : Bytes) (ls : List Lexeme) : Prop where
  spells : Spells Calm text ls
  statement : ∃ isClosed, Statement isClosed ls
  fresh : Fresh (headToken ls)

theorem Closing.filled (h : Closing text ls) : ls ≠ [] := by
  obtain ⟨_, statement⟩ := h.statement
  exact statement.nonempty

theorem Fresh.not_brace {t : Token} (h : Fresh t) : t ≠ .mark "\x7d" := by
  rintro rfl
  cases h

theorem Closing.body (h : Closing text ls) (gap : List Char) : Body (lead gap ls) := by
  obtain ⟨isClosed, statement⟩ := h.statement
  have starts : headToken (lead gap ls) ≠ .mark "\x7d" := by
    rw [headToken_lead]
    exact h.fresh.not_brace
  rw [← List.append_nil (lead gap ls)]
  exact Body.cons (statement.lead gap) (fun _ => .nothing) starts .nil

theorem Closing.ends (h : Closing text ls) (breaks : gap.any Text.isLineBreak = true) :
    Ends (lead gap ls) := by
  have apart := isApart_lead breaks ls
  have fresh : Fresh (headToken (lead gap ls)) := by
    rw [headToken_lead]
    exact h.fresh
  generalize lead gap ls = ms at apart fresh
  cases ms with
  | nil => exact .nothing
  | cons => exact .line apart fresh

/-- A statement as the only one of a block. -/
theorem Clause.body (h : Clause kind text ls) (breaks : gap.any Text.isLineBreak = true) :
    Body (lead gap ls) := by
  have lines := Body.lines [(kind, lead gap ls)] (by simpa using h.line gap breaks) (by simp)
  simpa using lines.1

/-! ## Blocks -/

/-- The text of a block, with a blank before its opening brace. -/
structure Block (text : Bytes) (ls : List Lexeme) : Prop where
  sealed : ∀ before, Spells before text ls
  statement : Statement true ls
  calm : IsCalm ls

/-- A new line with its indentation. -/
structure NewLine (text : Bytes) (gap : List Char) : Prop where
  blank : IsBlank text gap
  starts : gap.head? = some '\n'

theorem NewLine.breaks (h : NewLine text gap) : gap.any Text.isLineBreak = true := by
  cases gap with
  | nil => cases h.starts
  | cons c gap =>
    cases h.starts
    rfl

/-- The text of a block, behind a blank. -/
def blockText (body pad : Bytes) : Bytes :=
  utf8 " " ++ (utf8 "\x7b" ++ (body ++ (pad ++ utf8 "\x7d")))

theorem Body.block (h : Body ls) (spells : Spells Calm inner ls) (line : NewLine pad gap) :
    Block (blockText inner pad)
      (lead [' '] (markLexeme "\x7b" :: (ls ++ lead gap [markLexeme "\x7d"]))) where
  sealed before := by
    have closing : Spells before (pad ++ utf8 "\x7d") (lead gap [markLexeme "\x7d"]) :=
      (spells_bracket (by decide)).lead (by simp) line.blank
    have body := spells.append closing (isCalm_lead (by simp) line.starts (by decide))
    exact (body.bracket (by decide)).lead (by simp) isBlank_space
  statement := (h.braced rfl rfl).lead [' ']
  calm := isCalm_lead (by simp) rfl (by decide)

/-! ## Conditionals and loops -/

/-- The written tokens of an operator and what stands after it. -/
def operationLexemes (m : String) (ls : List Lexeme) : List Lexeme :=
  lead [' '] (markLexeme m :: lead [' '] ls)

/-- An operator and a phrase after it. -/
theorem Phrase.operation {m : String} (h : Phrase kind text ls) (spaced : m ∈ spacedMarks)
    (mem : m ∈ infixes) :
    Spells Calm (spacedText m text) (operationLexemes m ls) ∧ IsCalm (operationLexemes m ls)
      ∧ Parts (operationLexemes m ls) := by
  refine ⟨h.spells.spaced spaced h.filled, isCalm_lead (by simp) rfl (by decide), ?_⟩
  obtain ⟨os, ps, rfl, operand, parts⟩ := h.chain
  rw [operationLexemes, lead_cons, lead_append [' '] operand.opening.nonempty]
  exact .cons m rfl mem (operand.lead [' ']) parts

/-- The condition as it is tested: whether it is other than `false`. -/
theorem Phrase.tested (h : Phrase kind cond cs) :
    ∃ ls, Listing (cond ++ spacedText "!==" (utf8 "false")) ls := by
  obtain ⟨spelled, calm, parts⟩ :=
    (phrase_truth false).operation (m := "!==") (by decide) (by decide)
  exact ⟨_, (h.parts spelled calm parts).listing⟩

/-- A keyword and a condition in parentheses, and a text after them. -/
def headText (m : String) (cond text : Bytes) : Bytes :=
  utf8 m ++ (utf8 " " ++ (utf8 "(" ++ (cond ++ (utf8 ")" ++ text))))

theorem Listing.headed {m : String} (test : Listing cond cs) (word : IsName m.toList)
    (g : Spells P text ls) :
    Spells P (headText m cond text)
      (wordLexeme m :: lead [' '] (markLexeme "(" :: (cs ++ markLexeme ")" :: ls))) := by
  have closed : Spells P (utf8 ")" ++ text) (markLexeme ")" :: ls) := g.bracket (by decide)
  have enclosed := (test.spells.append closed (isCalm_bracket rfl (by decide) _)).bracket
    (show "(" ∈ brackets by decide)
  exact (enclosed.lead (by simp) isBlank_space).word word (isCalm_lead (by simp) rfl (by decide))

theorem Listing.conditional (test : Listing cond cs) (first : Block yes ys) (second : Block no ns) :
    ∃ ls, Closing (headText "if" cond (yes ++ (utf8 " " ++ (utf8 "else" ++ no)))) ls
      ∧ Statement true ls := by
  have if_word : IsName "if".toList := by decide
  have else_word : IsName "else".toList := by decide
  have other : Spells Calm (utf8 " " ++ (utf8 "else" ++ no))
      (lead [' '] (wordLexeme "else" :: ns)) :=
    ((second.sealed Calm).word else_word second.calm).lead (by simp) isBlank_space
  have branches := (first.sealed Calm).append other (isCalm_lead (by simp) rfl (by decide))
  have whole : Statement true (wordLexeme "if" :: lead [' '] (markLexeme "("
      :: (cs ++ markLexeme ")" :: (ys ++ lead [' '] (wordLexeme "else" :: ns))))) :=
    .ifElse test.items first.statement second.statement rfl rfl rfl rfl
  exact ⟨_, ⟨test.headed if_word branches, ⟨true, whole⟩, .name "if" (by decide)⟩, whole⟩

theorem Listing.loop (test : Listing cond cs) (body : Block text ls) :
    ∃ ls, Clause .closed (headText "while" cond text) ls := by
  have word : IsName "while".toList := by decide
  have whole : Statement true (wordLexeme "while" :: lead [' '] (markLexeme "("
      :: (cs ++ markLexeme ")" :: ls))) := .while test.items body.statement rfl rfl rfl
  refine ⟨_, test.headed word (body.sealed Calm), whole.nonempty, fun gap breaks => ?_⟩
  exact .of_closed (whole.lead gap) (isApart_lead breaks _) (.name "while" (by decide))

theorem Closing.clause (h : Closing text ls) (closed : Statement true ls) :
    Clause .closed text ls where
  spells := h.spells
  filled := h.filled
  line gap breaks := by
    refine .of_closed (closed.lead gap) (isApart_lead breaks ls) ?_
    rw [headToken_lead]
    exact h.fresh

/-! ## Statements with a value -/

theorem Phrase.returned (h : Phrase kind text ls) :
    ∃ ms, Closing (utf8 "return" ++ (utf8 " " ++ text)) ms := by
  have word : IsName "return".toList := by decide
  have tight : isApart (lead [' '] ls) = false := by
    have own := h.tight
    cases ls with
    | nil => exact own
    | cons l ls =>
      have space : Text.isLineBreak ' ' = false := by decide
      simpa [isApart, Lexeme.isBroken, Lexeme.after, space] using own
  have spelled := (h.spells.lead h.filled isBlank_space).word word
    (isCalm_lead h.filled rfl (by decide))
  exact ⟨_, spelled, ⟨false, (h.chain.lead [' ']).returned rfl tight⟩, .name "return" (by decide)⟩

theorem Phrase.assigned {n : String} (h : Phrase kind text ls) (free : IsFree n) :
    ∃ ms, Clause .fresh (utf8 n ++ spacedText "=" text) ms := by
  have value := h.spells.spaced (m := "=") (by decide) h.filled
  have sentence : Sentence (wordLexeme n :: lead [' '] (markLexeme "=" :: lead [' '] ls)) :=
    .assigned n rfl free.reserved free.word rfl (h.chain.lead [' '])
  refine ⟨_, value.word free.spelled (isCalm_lead (by simp) rfl (by decide)), by simp,
    fun gap breaks => ?_⟩
  exact .of_fresh (sentence.lead gap) (isApart_lead breaks _) (.name n free.connective)

/-- A value that a name is declared with, in a chain of operators. -/
theorem clause_declaration {n : String} (chain : Chain ls) (spells : Spells Calm text ls)
    (free : IsFree n) :
    ∃ ms, Clause .fresh (utf8 "var" ++ (utf8 " " ++ (utf8 n ++ spacedText "=" text))) ms := by
  have word : IsName "var".toList := by decide
  have value := spells.spaced (m := "=") (by decide) chain.opening.nonempty
  have named := ((value.word free.spelled (isCalm_lead (by simp) rfl (by decide))).lead (by simp)
    isBlank_space).word word (isCalm_lead (by simp) rfl (by decide))
  have sentence : Sentence (wordLexeme "var" :: lead [' '] (wordLexeme n
      :: lead [' '] (markLexeme "=" :: lead [' '] ls))) :=
    .declared n rfl rfl free.reserved rfl (chain.lead [' '])
  refine ⟨_, named, by simp, fun gap breaks => ?_⟩
  exact .of_fresh (sentence.lead gap) (isApart_lead breaks _) (.name "var" (by decide))

/-! ## Functions -/

/-- What a function does about the wrong number of arguments. -/
def throwText : Bytes := utf8 "throw new TypeError(" ++ (Text.ofChars arityText ++ utf8 ")")

/-- The written tokens of that text. -/
def throwLexemes : List Lexeme :=
  wordLexeme "throw" :: lead [' '] (wordLexeme "new" :: lead [' '] (wordLexeme "TypeError"
    :: markLexeme "(" :: ([arityLexeme] ++ [markLexeme ")"])))

theorem closing_throw : Closing throwText throwLexemes := by
  have throw_word : IsName "throw".toList := by decide
  have new_word : IsName "new".toList := by decide
  have error_word : IsName "TypeError".toList := by decide
  have message : Listing (Text.ofChars arityText) [arityLexeme] :=
    { spells := ⟨by simp [Lexeme.source, arityLexeme], fun _ _ => ⟨lexes_arity _, trivial⟩⟩
      items := (Operand.string rfl).chain.items }
  have made := message.enclosed (o := "(") (e := ")") (by decide) (by decide) rfl (by decide) Calm
  have spelled := (((made.word error_word (isCalm_bracket rfl (by decide) _)).lead (by simp)
    isBlank_space).word new_word (isCalm_lead (by simp) rfl (by decide))).lead (by simp)
    isBlank_space |>.word throw_word (isCalm_lead (by simp) rfl (by decide))
  have made : Operand (lead [' '] (wordLexeme "new" :: lead [' '] (wordLexeme "TypeError"
      :: markLexeme "(" :: ([arityLexeme] ++ [markLexeme ")"])))) :=
    (Operand.construction message.items rfl rfl (by decide) rfl rfl).lead [' ']
  refine ⟨⟨?_, spelled.lexed⟩, ⟨false, made.chain.thrown rfl rfl⟩, .name "throw" (by decide)⟩
  refine Eq.trans ?_ spelled.written
  rfl

/-- The text of a function literal. -/
structure Literal (text : Bytes) (ls : List Lexeme) : Prop where
  sealed : ∀ before, Spells before text ls
  operand : Operand ls
  starts : headToken ls = .name "function" false

/-- The check of the number of arguments, with which a function begins. -/
def checkText (count inner outer : Bytes) : Bytes :=
  headText "if" (utf8 "arguments" ++ (utf8 "." ++ utf8 "length") ++ spacedText "!=" count)
    (blockText (inner ++ throwText) outer)

/-- The written tokens of what is compared with the number of parameters. -/
def countLexemes : List Lexeme := [wordLexeme "arguments", markLexeme ".", wordLexeme "length"]

/-- The written tokens of the check, given those of the number. -/
def checkLexemes (count : List Lexeme) (outer inner : List Char) : List Lexeme :=
  wordLexeme "if" :: lead [' '] (markLexeme "("
    :: (countLexemes ++ operationLexemes "!=" count) ++ markLexeme ")"
      :: lead [' '] (markLexeme "\x7b" :: (lead inner throwLexemes
        ++ lead outer [markLexeme "\x7d"])))

theorem Phrase.compared {count : Bytes} (number : Phrase kind count ls) :
    Listing (utf8 "arguments" ++ (utf8 "." ++ utf8 "length") ++ spacedText "!=" count)
      (countLexemes ++ operationLexemes "!=" ls) := by
  have object : IsFree "arguments" := by decide
  have property : IsName "length".toList := by decide
  obtain ⟨spelled, calm, parts⟩ := number.operation (m := "!=") (by decide) (by decide)
  exact ((phrase_access object property rfl).parts spelled calm parts).listing

variable {outer : Bytes}

theorem block_throw (shallow : NewLine outer gap) (deep : NewLine inner more) :
    Block (blockText (inner ++ throwText) outer)
      (lead [' '] (markLexeme "\x7b" :: (lead more throwLexemes
        ++ lead gap [markLexeme "\x7d"]))) :=
  (closing_throw.body more).block
    (closing_throw.spells.lead closing_throw.filled deep.blank) shallow

theorem check_spelled {count : Bytes} (number : Phrase kind count ls)
    (shallow : NewLine outer gap) (deep : NewLine inner more) :
    Spells P (checkText count inner outer) (checkLexemes ls gap more) := by
  have if_word : IsName "if".toList := by decide
  exact number.compared.headed if_word ((block_throw shallow deep).sealed P)

theorem arity_check {count : Bytes} (numeral : Layout.WritesNumeral count)
    (shallow : NewLine outer gap) (deep : NewLine inner more) :
    ∃ ls, Spells Calm (checkText count inner outer) ls ∧ Statement false ls
      ∧ Fresh (headToken ls) := by
  obtain ⟨ns, number⟩ := phrase_number numeral
  have whole : Statement false (checkLexemes ns gap more) :=
    .if number.compared.items (block_throw shallow deep).statement rfl rfl rfl
  exact ⟨_, check_spelled number shallow deep, whole, .name "if" (by decide)⟩

/-- A function with one parameter. -/
def functionText (n : String) (body outer : Bytes) : Bytes :=
  utf8 "function" ++ (utf8 "(" ++ (utf8 n ++ (utf8 ")" ++ blockText body outer)))

theorem Closing.function {n : String} (h : Closing text ls) (free : IsFree n) {count : Bytes}
    (numeral : Layout.WritesNumeral count) {middle : Bytes} {g₀ g₁ g₂ : List Char}
    (shallow : NewLine outer g₀) (line : NewLine middle g₁) (deep : NewLine inner g₂) :
    ∃ ms, Literal (functionText n
      (middle ++ checkText count inner middle ++ (middle ++ text)) outer) ms := by
  have word : IsName "function".toList := by decide
  obtain ⟨cs, check, statement, fresh⟩ := arity_check numeral line deep
  have ends : Ends (lead g₁ ls) := h.ends line.breaks
  have starts : headToken (lead g₁ cs) ≠ .mark "\x7d" := by
    rw [headToken_lead]
    exact fresh.not_brace
  have body : Body (lead g₁ cs ++ lead g₁ ls) :=
    Body.cons (statement.lead g₁) (fun _ => ends) starts (h.body g₁)
  have body_spelled := (check.lead statement.nonempty line.blank).append
    (h.spells.lead h.filled line.blank) (isCalm_lead h.filled line.starts (by decide))
  have block := body.block body_spelled shallow
  have params : Params [wordLexeme n, markLexeme ")"] := .last n rfl free.reserved rfl
  have operand : Operand (wordLexeme "function" :: markLexeme "(" :: (_
      ++ (markLexeme "\x7b").after [' '] :: (_ ++ [(markLexeme "\x7d").after g₀]))) :=
    .function params body rfl rfl rfl rfl
  refine ⟨_, fun before => ?_, operand, rfl⟩
  have named := ((block.sealed before).bracket (show ")" ∈ brackets by decide)).word free.spelled
    (isCalm_bracket rfl (by decide) _)
  exact (named.bracket (by decide)).word word (isCalm_bracket rfl (by decide) _)

/-- The call of a function literal. -/
theorem Literal.call (h : Literal a ls) (g : Listing b ms) :
    ∃ ns, Phrase .bracketed (utf8 "(" ++ (a ++ (utf8 ")" ++ (utf8 "(" ++ (b ++ utf8 ")")))))
      ns := by
  have function : Listing a ls := ⟨h.sealed Calm, h.operand.chain.items⟩
  have call : Suffix (markLexeme "(" :: (ms ++ [markLexeme ")"])) := .call g.items rfl rfl
  have first : Suffix (markLexeme "(" :: (ls ++ [markLexeme ")"])) := .call function.items rfl rfl
  have callee : Operand (markLexeme "(" :: (ls ++ [markLexeme ")"])) :=
    .parenthesised function.items rfl h.starts rfl
  have args := g.enclosed (o := "(") (e := ")") (by decide) (by decide) rfl (by decide) Calm
  have whole := ((h.sealed Calm).append (args.bracket (show ")" ∈ brackets by decide))
    (isCalm_bracket rfl (by decide) _)).bracket (show "(" ∈ brackets by decide)
  refine ⟨(markLexeme "(" :: (ls ++ [markLexeme ")"]))
    ++ (markLexeme "(" :: (ms ++ [markLexeme ")"])),
    by simpa using whole, rfl, (callee.append call).chain, .round, ?_⟩
  rw [← List.append_nil (_ ++ _)]
  exact .bracketed (first.append call) .nil

end EggLang.Script.Parser
