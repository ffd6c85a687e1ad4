import EggLang.Code.Printer
import EggLang.Proofs.Script.Wrapped
import EggLang.Run.Executor

/-!
# Written code

The code of programs built from arithmetic, comparisons, arrays, functions of one parameter,
conditionals and loops is written as phrases that are read back as expressions and statements, at
every depth. What a line begins with decides whether it can go on the line before.
-/

namespace EggLang.Code

open Script Script.Parser

/-! ## Shapes of code -/

/-- A name that a program may give to a variable or a function. -/
def IsVariable (name : Bytes) : Prop := ∃ n : String, name = utf8 n ∧ IsFree n

/-- What code is there for. -/
inductive Role where
  /-- Its value is used. -/
  | value
  /-- It is the body of a function. -/
  | body

/-- The operators of operations. -/
def operators : List String := ["+", "-", "*", "/", "==", "<", ">"]

/-- The code of an expression, and of the body of a function. -/
inductive Generated : Role → Code → Prop where
  | number (n : Nat) : Generated .value (number (.ofNat n))
  | name {n : Bytes} : IsVariable n → Generated .value (ident n)
  | truth (b : Bool) : Generated .value (ident (utf8 (toString b)))
  | operation {m : String} {c : Code} {cs : List Code} : m ∈ operators → Generated .value c →
      (∀ d ∈ cs, Generated .value d) → Generated .value (operation (utf8 m) (c :: cs))
  | array {cs : List Code} : (∀ d ∈ cs, Generated .value d) → Generated .value (array cs)
  | length {cs : List Code} : (∀ d ∈ cs, Generated .value d) →
      Generated .value (member (array cs) (utf8 "length"))
  | element {cs : List Code} {i : Code} : (∀ d ∈ cs, Generated .value d) → Generated .value i →
      Generated .value (index (array cs) i)
  | call {f : Bytes} {a : Code} : IsVariable f → Generated .value a →
      Generated .value (call (ident f) [a])
  | applied {q : Bytes} {body a : Code} : IsVariable q → Generated .body body →
      Generated .value a → Generated .value (call (function [q] body) [a])
  | returned {c : Code} : Generated .value c → Generated .body (.return c)
  | branch {c yes no : Code} : Generated .value c → Generated .value yes → Generated .value no →
      Generated .body (.if c (.return yes) (.return no))

/-- The code of a statement. -/
inductive GeneratedLine : Code → Prop where
  | value {c : Code} : Generated .value c → GeneratedLine c
  | branch {c yes no : Code} : Generated .value c → Generated .value yes → Generated .value no →
      GeneratedLine (.if c (.return yes) (.return no))
  | printed {c : Code} : Generated .value c →
      GeneratedLine (.effect (.call (.ident (utf8 "console.log")) [c]))
  | declared {n : Bytes} {c : Code} : IsVariable n → Generated .value c → GeneratedLine (.var n c)
  | defined {n q : Bytes} {body : Code} : IsVariable n → IsVariable q → Generated .body body →
      GeneratedLine (.var n (.function [q] body))
  | assigned {n : Bytes} {c : Code} : IsVariable n → Generated .value c →
      GeneratedLine (.assign n c)
  | loop {c : Code} : GeneratedLine c → GeneratedLine (.while (.ident (utf8 "false")) c)

/-- What a line is to the lines around it. -/
def lineKind : Code → LineKind
  | array [] => .hollow
  | array (_ :: _) => .bracketed
  | operation _ (c :: _) => lineKind c
  | call c _ => if c.isFunction then .bracketed else .fresh
  | member c _ => lineKind c
  | index c _ => lineKind c
  | .if .. => .closed
  | .while .. => .closed
  | _ => .fresh

/-! ## Texts -/

variable {indent : Bytes} {depth : Nat} {c : Code} {cs : List Code}

theorem lines_single (single : ∀ statements, c ≠ .block statements) :
    lines indent depth c = [render indent depth c] := by
  cases c with
  | block statements => exact absurd rfl (single statements)
  | «return» value =>
    rw [render, joined, lines]
    split <;> rfl
  | _ => rfl

theorem lines_return (present : c.isAbsent = Bool.false) : lines indent depth (.return c)
    = [utf8 "return" ++ (utf8 " " ++ render indent depth c)] := by
  rw [lines, present, ← List.append_assoc]
  rfl

theorem join_cons (sep text : Bytes) (texts : List Bytes) :
    Bytes.join sep (text :: texts) = text ++ texts.flatMap (sep ++ ·) := by
  induction texts generalizing text with
  | nil => simp [Bytes.join]
  | cons t ts ih => simp [Bytes.join, ih]

theorem Generated.plain {role : Role} (h : Generated role c) : c.isFunction = Bool.false := by
  cases h <;> rfl

theorem Generated.single {role : Role} (h : Generated role c) (statements : List Code) :
    c ≠ .block statements := by
  cases h <;> simp [Code.number, ident]

/-- The code is written as an expression. -/
def WritesPhrase (indent : Bytes) (depth : Nat) (c : Code) : Prop :=
  ∃ ls, Phrase c.lineKind (render indent depth c) ls

theorem operator_marks : ∀ m ∈ operators, m ∈ spacedMarks ∧ m ∈ infixes := by decide

theorem operands_written {m : String} {kind : LineKind} {text : Bytes} {ls : List Script.Lexeme}
    (first : Phrase kind text ls) (mem : m ∈ operators)
    (each : ∀ d ∈ cs, d.isFunction = Bool.false ∧ WritesPhrase indent depth d) :
    ∃ ms, Phrase kind (text
      ++ (operandTexts indent depth cs).flatMap (utf8 " " ++ utf8 m ++ utf8 " " ++ ·)) ms := by
  induction cs generalizing text ls with
  | nil => exact ⟨ls, by simpa [operandTexts] using first⟩
  | cons d ds ih =>
    obtain ⟨plain, os, phrase⟩ := each d List.mem_cons_self
    obtain ⟨spaced, known⟩ := operator_marks m mem
    obtain ⟨spelled, calm, parts⟩ := phrase.operation spaced known
    obtain ⟨ms, whole⟩ := ih (first.parts spelled calm parts)
      fun e inside => each e (List.mem_cons_of_mem d inside)
    refine ⟨ms, ?_⟩
    have text_eq : asOperand d (joined indent depth (lines indent depth d))
        = render indent depth d := by
      rw [asOperand, plain]
      rfl
    simpa [operandTexts, spacedText, text_eq] using whole

theorem listing_written {kind : LineKind} {text : Bytes} {ls : List Script.Lexeme}
    (first : Phrase kind text ls) (each : ∀ d ∈ cs, WritesPhrase indent depth d) :
    ∃ ms, Listing (text ++ (texts indent depth cs).flatMap (utf8 ", " ++ ·)) ms := by
  induction cs generalizing text ls kind with
  | nil => exact ⟨ls, by simpa [texts] using first.listing⟩
  | cons d ds ih =>
    obtain ⟨os, phrase⟩ := each d List.mem_cons_self
    obtain ⟨ms, rest⟩ := ih phrase fun e inside => each e (List.mem_cons_of_mem d inside)
    exact ⟨_, by simpa [texts, render] using first.comma rest⟩

theorem elements_written (each : ∀ d ∈ cs, WritesPhrase indent depth d) :
    ∃ ls, ArrayPhrase (lineKind (array cs)) (render indent depth (array cs)) ls := by
  cases cs with
  | nil => exact ⟨_, array_empty⟩
  | cons c cs =>
    obtain ⟨ls, first⟩ := each c List.mem_cons_self
    obtain ⟨ms, items⟩ := listing_written first fun d inside =>
      each d (List.mem_cons_of_mem c inside)
    have text_eq : render indent depth (array (c :: cs)) = utf8 "[" ++ ((render indent depth c
        ++ (texts indent depth cs).flatMap (utf8 ", " ++ ·)) ++ utf8 "]") := by
      rw [← join_cons, ← List.append_assoc]
      rfl
    have whole := items.array
    rw [← text_eq] at whole
    exact ⟨_, whole⟩

/-! ## Indentation -/

/-- Indentation units of blanks. -/
def IsIndent (indent : Bytes) : Prop := ∃ gap, IsBlank indent gap

theorem newLine_pad (blank : IsIndent indent) (depth : Nat) :
    ∃ gap, NewLine (utf8 "\n" ++ pad indent depth) gap := by
  obtain ⟨gap, blank⟩ := blank
  have repeated : ∃ more, IsBlank (pad indent depth) more := by
    induction depth with
    | zero => exact ⟨[], rfl, by simp⟩
    | succ depth ih =>
      obtain ⟨more, rest⟩ := ih
      exact ⟨gap ++ more, blank.append rest⟩
  obtain ⟨more, repeated⟩ := repeated
  exact ⟨'\n' :: more, isBlank_line.append repeated, rfl⟩

/-! ## Conditionals, loops and functions -/

/-- The code is written as a statement with which a function can end. -/
def WritesClosing (indent : Bytes) (depth : Nat) (c : Code) : Prop :=
  ∃ ls, Closing (render indent depth c) ls

theorem return_written (h : ∀ depth, WritesPhrase indent depth c) (plain : c ≠ .absent) :
    ∀ depth, WritesClosing indent depth (.return c) := by
  intro depth
  obtain ⟨ls, phrase⟩ := h depth
  obtain ⟨ms, closing⟩ := phrase.returned
  have absent : c.isAbsent = Bool.false := by
    cases c with
    | absent => exact absurd rfl plain
    | _ => rfl
  refine ⟨ms, ?_⟩
  have text_eq : render indent depth (.return c)
      = utf8 "return" ++ (utf8 " " ++ render indent depth c) := by
    rw [render, joined, lines_return absent]
    rfl
  rwa [text_eq]

/-- The line of a body behind a brace. -/
theorem block_written (blank : IsIndent indent) {text : Bytes} {ls : List Script.Lexeme}
    (depth : Nat) (spells : Spells Calm text ls) (filled : ls ≠ [])
    (body : ∀ gap, gap.any Text.isLineBreak = true → Body (lead gap ls)) :
    ∃ ms, Block (blockText (utf8 "\n" ++ pad indent (depth + 1) ++ text)
      (utf8 "\n" ++ pad indent depth)) ms := by
  obtain ⟨outer, shallow⟩ := newLine_pad blank depth
  obtain ⟨inner, deep⟩ := newLine_pad blank (depth + 1)
  exact ⟨_, (body inner deep.breaks).block (spells.lead filled deep.blank) shallow⟩

theorem braced_single (indent : Bytes) (depth : Nat) (text : Bytes) :
    braced indent depth [text] = pad indent depth ++ text ++ utf8 "\n" := by
  simp [braced]

theorem if_written {cond yes no : Code} (blank : IsIndent indent)
    (test : ∀ depth, WritesPhrase indent depth cond)
    (first : ∀ depth, WritesClosing indent depth yes)
    (second : ∀ depth, WritesClosing indent depth no)
    (first_single : ∀ statements, yes ≠ .block statements)
    (second_single : ∀ statements, no ≠ .block statements) (depth : Nat) :
    ∃ ls, Closing (render indent depth (.if cond yes no)) ls ∧ Statement true ls := by
  obtain ⟨cs, phrase⟩ := test depth
  obtain ⟨ts, tested⟩ := phrase.tested
  obtain ⟨ys, yes_closing⟩ := first (depth + 1)
  obtain ⟨ns, no_closing⟩ := second (depth + 1)
  obtain ⟨_, yes_block⟩ := block_written blank depth yes_closing.spells yes_closing.filled
    fun gap _ => yes_closing.body gap
  obtain ⟨_, no_block⟩ := block_written blank depth no_closing.spells no_closing.filled
    fun gap _ => no_closing.body gap
  obtain ⟨ls, closing, statement⟩ := tested.conditional yes_block no_block
  refine ⟨ls, ?_, statement⟩
  convert closing using 1
  rw [render, joined, lines, lines_single first_single, lines_single second_single, braced_single,
    braced_single]
  simp [headText, blockText, spacedText, Bytes.join, render, utf8]

theorem writesNumeral_one : Layout.WritesNumeral (Bytes.ofNat 1) :=
  ⟨['1'], rfl, ['1'], [], [], rfl, .inr ⟨'1', [], rfl, by decide⟩,
    List.forall_mem_singleton.2 rfl, .inl rfl, .inl rfl⟩

theorem encode_arityMessage : Text.Quoted.encode (utf8 arityMessage) = Text.ofChars arityText := by
  decide +kernel

theorem function_written {q : Bytes} {body : Code} (blank : IsIndent indent) (name : IsVariable q)
    (closing : ∀ depth, WritesClosing indent depth body)
    (single : ∀ statements, body ≠ .block statements) (depth : Nat) :
    ∃ ls, Script.Parser.Literal (render indent depth (function [q] body)) ls := by
  obtain ⟨n, rfl, free⟩ := name
  obtain ⟨_, shallow⟩ := newLine_pad blank depth
  obtain ⟨_, line⟩ := newLine_pad blank (depth + 1)
  obtain ⟨_, deep⟩ := newLine_pad blank (depth + 1 + 1)
  obtain ⟨bs, body_closing⟩ := closing (depth + 1)
  obtain ⟨ls, literal⟩ := body_closing.function free writesNumeral_one shallow line deep
  refine ⟨ls, ?_⟩
  convert literal using 1
  rw [render, joined, lines, lines_single single, braced_single, arityCheck, encode_arityMessage]
  simp [functionText, checkText, throwText, headText, blockText, spacedText, Bytes.join,
    render, utf8]

/-- Every expression and every function body is written as what it is there for. -/
theorem Generated.written {role : Role} (blank : IsIndent indent) (h : Generated role c) :
    ∀ depth, match role with
      | .value => WritesPhrase indent depth c
      | .body => WritesClosing indent depth c := by
  induction h with
  | number n =>
    intro depth
    rcases numberText_ofNat n with numeral | infinity
    · exact phrase_number numeral
    · have free : IsFree "Infinity" := by decide
      have text_eq : render indent depth (Code.number (.ofNat n)) = utf8 "Infinity" := infinity
      exact ⟨_, text_eq ▸ phrase_name free⟩
  | name name =>
    intro depth
    obtain ⟨n, rfl, free⟩ := name
    exact ⟨_, phrase_name free⟩
  | truth b => exact fun depth => ⟨_, phrase_truth b⟩
  | @operation m c cs mem first each ih ihs =>
    intro depth
    obtain ⟨ls, phrase⟩ := ih depth
    have others : ∀ d ∈ cs, d.isFunction = Bool.false ∧ WritesPhrase indent depth d :=
      fun d inside => ⟨(each d inside).plain, ihs d inside depth⟩
    obtain ⟨ms, whole⟩ := operands_written phrase mem others
    refine ⟨ms, ?_⟩
    have text_eq : render indent depth (Code.operation (utf8 m) (c :: cs))
        = render indent depth c ++ (operandTexts indent depth cs).flatMap
          (utf8 " " ++ utf8 m ++ utf8 " " ++ ·) := by
      rw [← join_cons]
      simp [render, joined, lines, operandTexts, Bytes.join, asOperand, first.plain]
    rw [text_eq, lineKind]
    exact whole
  | array each ih =>
    intro depth
    obtain ⟨ls, phrase⟩ := elements_written fun d inside => ih d inside depth
    exact ⟨ls, phrase.phrase⟩
  | length each ih =>
    intro depth
    obtain ⟨ls, phrase⟩ := elements_written fun d inside => ih d inside depth
    have whole := phrase.length
    rw [← List.append_assoc] at whole
    exact ⟨_, whole⟩
  | @element cs i each index ih ihi =>
    intro depth
    obtain ⟨ls, phrase⟩ := elements_written fun d inside => ih d inside depth
    obtain ⟨ms, inner⟩ := ihi depth
    have whole := phrase.phrase.index inner.listing
    have text_eq : render indent depth (Code.index (Code.array cs) i)
        = render indent depth (Code.array cs)
          ++ (utf8 "[" ++ (render indent depth i ++ utf8 "]")) := by
      simp [render, joined, lines, Bytes.join, asOperand, isFunction]
    rw [← text_eq] at whole
    exact ⟨_, whole⟩
  | @call _ a name arg ih =>
    intro depth
    obtain ⟨n, rfl, free⟩ := name
    obtain ⟨ms, inner⟩ := ih depth
    have whole := (phrase_name free).call inner.listing
    have text_eq : render indent depth (Code.call (ident (utf8 n)) [a])
        = utf8 n ++ (utf8 "(" ++ (render indent depth a ++ utf8 ")")) := by
      simp [render, joined, lines, texts, Bytes.join, asOperand, isFunction, ident]
    rw [← text_eq] at whole
    exact ⟨_, whole⟩
  | applied name body arg ih iha =>
    intro depth
    obtain ⟨ls, literal⟩ := function_written blank name ih body.single depth
    obtain ⟨ms, inner⟩ := iha depth
    obtain ⟨ns, whole⟩ := literal.call inner.listing
    refine ⟨ns, ?_⟩
    convert whole using 1
    · simp [lineKind, isFunction]
    · rw [render, joined, lines]
      simp [Bytes.join, render, asOperand, isFunction, texts]
  | returned value ih =>
    refine return_written ih ?_
    cases value <;> simp [Code.number, ident]
  | branch cond yes no ihc ihy ihn =>
    intro depth
    have filled : ∀ {d : Code}, Generated .value d → d ≠ .absent := by
      intro d value
      cases value <;> simp [Code.number, ident]
    obtain ⟨ls, closing, -⟩ := if_written blank ihc (return_written ihy (filled yes))
      (return_written ihn (filled no)) (by simp) (by simp) depth
    exact ⟨ls, closing⟩

/-! ## Statements and programs -/

theorem Generated.not_absent (h : Generated .value c) : c ≠ .absent := by
  cases h <;> simp [Code.number, ident]

theorem GeneratedLine.single (h : GeneratedLine c) (statements : List Code) :
    c ≠ .block statements := by
  cases h with
  | value h => exact h.single statements
  | branch | printed | declared | defined | assigned | loop => all_goals simp

/-- The code is written as a line. -/
def WritesClause (indent : Bytes) (depth : Nat) (c : Code) : Prop :=
  ∃ ls, Clause c.lineKind (render indent depth c) ls

theorem WritesClause.of_eq {kind : LineKind} {text : Bytes} {ls : List Script.Lexeme}
    (h : Clause kind text ls) (kind_eq : c.lineKind = kind)
    (text_eq : render indent depth c = text) : WritesClause indent depth c :=
  ⟨ls, kind_eq ▸ text_eq ▸ h⟩

/-- Every statement is written as a line, of the kind that its code tells. -/
theorem GeneratedLine.written (blank : IsIndent indent) (h : GeneratedLine c) :
    ∀ depth, WritesClause indent depth c := by
  induction h with
  | value value =>
    intro depth
    obtain ⟨ls, phrase⟩ := value.written blank depth
    exact ⟨ls, phrase.clause⟩
  | branch cond yes no =>
    intro depth
    obtain ⟨ls, closing, statement⟩ := if_written blank (cond.written blank)
      (return_written (yes.written blank) yes.not_absent)
      (return_written (no.written blank) no.not_absent) (by simp) (by simp) depth
    exact ⟨ls, closing.clause statement⟩
  | printed value =>
    intro depth
    obtain ⟨ls, phrase⟩ := value.written blank depth
    have object : IsFree "console" := by decide
    have property : IsName "log".toList := by decide
    refine .of_eq ((phrase_access object property rfl).call phrase.listing).clause rfl ?_
    simp [render, joined, lines, texts, Bytes.join, asOperand, isFunction, ident, utf8]
  | declared name value =>
    intro depth
    obtain ⟨n, rfl, free⟩ := name
    obtain ⟨ls, phrase⟩ := value.written blank depth
    obtain ⟨ms, whole⟩ := clause_declaration phrase.chain phrase.spells free
    refine .of_eq whole rfl ?_
    simp [spacedText, render, joined, lines, Bytes.join, utf8]
  | defined name param closing =>
    intro depth
    obtain ⟨n, rfl, free⟩ := name
    obtain ⟨ls, literal⟩ := function_written blank param (closing.written blank)
      closing.single depth
    obtain ⟨ms, whole⟩ := clause_declaration literal.operand.chain (literal.sealed Calm) free
    refine .of_eq whole rfl ?_
    rw [render, joined, lines]
    simp [spacedText, render, Bytes.join, utf8]
  | assigned name value =>
    intro depth
    obtain ⟨n, rfl, free⟩ := name
    obtain ⟨ls, phrase⟩ := value.written blank depth
    obtain ⟨ms, whole⟩ := phrase.assigned free
    refine .of_eq whole rfl ?_
    simp [spacedText, render, joined, lines, Bytes.join, utf8]
  | loop line ih =>
    intro depth
    obtain ⟨bs, clause⟩ := ih (depth + 1)
    obtain ⟨ts, tested⟩ := (phrase_truth Bool.false).tested
    obtain ⟨ls, block⟩ := block_written blank depth clause.spells clause.filled
      fun gap breaks => clause.body breaks
    obtain ⟨ms, whole⟩ := tested.loop block
    refine .of_eq whole rfl ?_
    have truth : toString Bool.false = "false" := rfl
    rw [render, joined, lines, lines_single line.single, braced_single, truth]
    simp [headText, blockText, spacedText, Bytes.join, render, joined, lines, ident, utf8]

theorem linesAll_single (single : ∀ c ∈ cs, ∀ statements, c ≠ .block statements) :
    linesAll indent depth cs = cs.map (render indent depth) := by
  induction cs with
  | nil => rfl
  | cons c cs ih =>
    rw [linesAll, lines_single (single c List.mem_cons_self),
      ih fun d inside => single d (List.mem_cons_of_mem c inside)]
    rfl

/-- A line of a program, with its written tokens. -/
structure WritesLine (indent : Bytes) (c : Code) (part : LineKind × List Script.Lexeme) : Prop where
  kind : part.1 = c.lineKind
  clause : Clause part.1 (render indent 0 c) part.2

/-- The written tokens of lines, each on a new line. -/
def lineLexemes (parts : List (LineKind × List Script.Lexeme)) : List Script.Lexeme :=
  parts.flatMap fun part => lead ['\n'] part.2

variable {parts : List (LineKind × List Script.Lexeme)}

theorem lines_written (each : ∀ c ∈ cs, WritesClause indent 0 c) :
    ∃ parts, List.Forall₂ (WritesLine indent) cs parts := by
  induction cs with
  | nil => exact ⟨[], .nil⟩
  | cons c cs ih =>
    obtain ⟨ls, clause⟩ := each c List.mem_cons_self
    obtain ⟨parts, written⟩ := ih fun d inside => each d (List.mem_cons_of_mem c inside)
    exact ⟨(c.lineKind, ls) :: parts, .cons ⟨rfl, clause⟩ written⟩

theorem kinds_written (written : List.Forall₂ (WritesLine indent) cs parts) :
    parts.map (·.1) = cs.map lineKind := by
  induction written with
  | nil => rfl
  | cons first _ ih => rw [List.map_cons, List.map_cons, first.kind, ih]

theorem lines_of_written (written : List.Forall₂ (WritesLine indent) cs parts) :
    ∀ part ∈ parts, part.2 ≠ [] ∧ Line part.1 (lead ['\n'] part.2) := by
  induction written with
  | nil => simp
  | cons first _ ih =>
    exact List.forall_mem_cons.2 ⟨⟨first.clause.filled, first.clause.line ['\n'] rfl⟩, ih⟩

theorem lines_spelled (written : List.Forall₂ (WritesLine indent) cs parts) :
    Spells Calm (cs.flatMap fun c => utf8 "\n" ++ render indent 0 c) (lineLexemes parts)
      ∧ ∀ tail, Calm tail → Calm (sources (lineLexemes parts) ++ tail) := by
  induction written with
  | nil => exact ⟨⟨rfl, fun _ _ => trivial⟩, fun _ calm => calm⟩
  | @cons c part cs parts first _ ih =>
    obtain ⟨spelled, calm⟩ := ih
    have own := first.clause.spells.lead first.clause.filled isBlank_line
    have own_calm : IsCalm (lead ['\n'] part.2) :=
      isCalm_lead first.clause.filled rfl (by decide)
    refine ⟨⟨?_, fun tail fits => ?_⟩, fun tail _ => own_calm.append _ tail⟩
    · rw [List.flatMap_cons, lineLexemes, List.flatMap_cons, sources_append,
        Layout.ofChars_append, own.written, spelled.written]
      rfl
    · exact lexedBefore_append.2 ⟨own.lexed _ (calm tail fits), spelled.lexed tail fits⟩

theorem wrap_block (nonempty : cs ≠ []) (single : ∀ c ∈ cs, ∀ statements, c ≠ .block statements) :
    Executor.wrap (print indent (block cs)) = utf8 "(" ++ (utf8 "function" ++ (utf8 "("
      ++ (utf8 ")" ++ (utf8 " " ++ (utf8 "\x7b"
        ++ ((cs.flatMap fun c => utf8 "\n" ++ render indent 0 c)
          ++ (utf8 "\n" ++ (utf8 "\x7d" ++ (utf8 ")" ++ (utf8 "(" ++ utf8 ")")))))))))) := by
  cases cs with
  | nil => exact absurd rfl nonempty
  | cons c cs =>
    rw [print, render, joined, lines, linesAll_single single, List.map_cons, join_cons]
    simp [Executor.wrap, pad, Bytes.repeated, utf8, List.flatMap_map]

theorem chars_ofChars (cs : List Char) : Text.chars? (Text.ofChars cs) = some cs := by
  rw [Text.chars?, Text.glyphs_ofChars, List.mapM_map]
  induction cs with
  | nil => rfl
  | cons c cs ih =>
    rw [List.mapM_cons, ih]
    rfl

theorem parses_nothing : (parse? "(function() \x7b\n\n\x7d)()".toList).isSome = Bool.true := by
  decide +kernel

/-- A program is written as the lines of a function that is called. -/
theorem wrap_lexed (nonempty : cs ≠ []) (single : ∀ c ∈ cs, ∀ statements, c ≠ .block statements)
    (written : List.Forall₂ (WritesLine indent) cs parts) :
    Text.chars? (Executor.wrap (print indent (block cs)))
        = some (sources (callLexemes (lineLexemes parts)))
      ∧ LexedBefore [] (callLexemes (lineLexemes parts)) := by
  obtain ⟨spelled, calm⟩ := lines_spelled written
  have word : IsName "function".toList := by decide
  have ending : Spells (· = []) (utf8 "\x7d" ++ (utf8 ")" ++ (utf8 "(" ++ utf8 ")")))
      (markLexeme "\x7d" :: calledLexemes) :=
    (((spells_bracket (by decide)).bracket (by decide)).bracket (by decide)).bracket (by decide)
  have inner := (spelled.append (ending.lead (by simp) isBlank_line)
    (isCalm_lead (by simp) rfl (by decide))).bracket (show "\x7b" ∈ brackets by decide)
  have params := ((inner.lead (by simp) isBlank_space).bracket
    (show ")" ∈ brackets by decide)).bracket (show "(" ∈ brackets by decide)
  have whole := (params.word word (isCalm_bracket rfl (by decide) _)).bracket
    (show "(" ∈ brackets by decide)
  refine ⟨?_, whole.lexed [] rfl⟩
  rw [wrap_block nonempty single, whole.written]
  exact chars_ofChars _

/-- The text of a program, wrapped as an executor wraps it, is a script just if no line with the
brackets of an empty array goes on the line before. -/
theorem wrap_parses_iff (blank : IsIndent indent) (each : ∀ c ∈ cs, GeneratedLine c) :
    ∃ script, Text.chars? (Executor.wrap (print indent (block cs))) = some script
      ∧ ((∃ body, parse? script = some body)
        ↔ (cs.map lineKind).IsChain fun k m => k.mayPrecede m = true) := by
  by_cases nonempty : cs = []
  · subst nonempty
    have text_eq : Executor.wrap (print indent (block []))
        = Text.ofChars "(function() \x7b\n\n\x7d)()".toList := rfl
    exact ⟨_, text_eq ▸ chars_ofChars _,
      iff_of_true (Option.isSome_iff_exists.1 parses_nothing) .nil⟩
  obtain ⟨parts, written⟩ := lines_written fun c inside => (each c inside).written blank 0
  obtain ⟨chars, lexed⟩ := wrap_lexed nonempty (fun c inside => (each c inside).single) written
  let lines : List (LineKind × List Script.Lexeme) :=
    parts.map fun part => (part.1, lead ['\n'] part.2)
  have tokens : lines.flatMap (·.2) = lineLexemes parts := List.flatMap_map ..
  have kinds : lines.map (·.1) = cs.map lineKind := by
    rw [← kinds_written written, List.map_map]
    rfl
  have well : ∀ line ∈ lines, Line line.1 line.2 := by
    intro line inside
    obtain ⟨part, mem, rfl⟩ := List.mem_map.1 inside
    exact (lines_of_written written part mem).2
  refine ⟨_, chars, fun read => ?_, fun order => ?_⟩
  · by_contra order
    have fails := (tokens ▸ (Dead.lines lines well (kinds ▸ order)).1).parse_call lexed
    obtain ⟨body, read⟩ := read
    cases fails.symm.trans read
  · obtain ⟨f, read⟩ := (tokens ▸ (Body.lines lines well (kinds ▸ order)).1).parse_call lexed
    exact ⟨_, read⟩

end EggLang.Code
