import EggLang.Proofs.Code.Writing
import EggLang.Proofs.Script.Check

/-!
# Function literals as they are read

Wherever a script has the text of a function literal where an expression is read, this is read as
a function with these parameters that checks the number of its arguments first.
-/

namespace EggLang.Code

open Script Script.Parser

/-- The name of a parameter that can be declared, by its text. -/
def IsParameter (q : Bytes) (n : String) : Prop :=
  ∃ text isEscaped, q = Text.ofChars text ∧ IsIdentifier text n isEscaped ∧ n ∉ reserved

variable {indent : Bytes} {depth : Nat} {params : List Bytes} {names : List String} {body : Code}
  {P : List Char → Prop} {text : Bytes} {ls : List Script.Lexeme}

theorem spells_identifier {cs : List Char} {n : String} {isEscaped : Bool}
    (identifier : IsIdentifier cs n isEscaped) (g : Spells P text ls) (calm : IsCalm ls) :
    Spells P (Text.ofChars cs ++ text) (⟨[], cs, .name n isEscaped⟩ :: ls) where
  written := by
    rw [g.written, sources_cons, Layout.ofChars_append]
    rfl
  lexed tail fits := ⟨identifier.lexes (calm tail).endsName, g.lexed tail fits⟩

theorem named_lead {ps : List Script.Lexeme} (named : Named names ps) (gap : List Char) :
    Named names (lead gap ps) := by
  cases named with
  | none closes => exact .none closes
  | last token free closes => exact .last token free closes
  | more token free comma others => exact .more token free comma others

/-- Parameters behind their opening parenthesis, before any text. -/
theorem params_spelled (each : List.Forall₂ IsParameter params names) (rest : Spells P text ls) :
    ∃ ps, Named names ps
      ∧ Spells P (Bytes.join (utf8 ", ") params ++ (utf8 ")" ++ text)) (ps ++ ls) := by
  have closed : Spells P (utf8 ")" ++ text) (markLexeme ")" :: ls) := rest.bracket (by decide)
  induction each with
  | nil => exact ⟨_, .none rfl, closed⟩
  | cons first more ih =>
    obtain ⟨cs, isEscaped, rfl, identifier, free⟩ := first
    cases more with
    | nil =>
      exact ⟨_, .last rfl free rfl,
        spells_identifier identifier closed (isCalm_bracket rfl (by decide) ls)⟩
    | @cons q _ params _ _ _ =>
      obtain ⟨ps, named, spelled⟩ := ih
      have filled : ps ++ ls ≠ [] := by cases named <;> simp
      have further := spells_identifier identifier
        ((spelled.lead filled isBlank_space).bracket (show "," ∈ brackets by decide))
        (isCalm_bracket rfl (by decide) _)
      have some : ps ≠ [] := by cases named <;> simp
      refine ⟨⟨[], cs, .name _ isEscaped⟩ :: markLexeme "," :: lead [' '] ps,
        .more rfl free rfl (named_lead named [' ']), ?_⟩
      rw [lead_append [' '] some] at further
      have text_eq : Bytes.join (utf8 ", ") (Text.ofChars cs :: q :: params) ++ (utf8 ")" ++ text)
          = Text.ofChars cs ++ (utf8 "," ++ (utf8 " " ++ (Bytes.join (utf8 ", ") (q :: params)
            ++ (utf8 ")" ++ text)))) := by
        rw [join_cons, join_cons]
        simp [utf8]
      rw [text_eq]
      exact further

/-- The text of a function literal up to the end of its check, behind the keyword. -/
theorem head_spelled (blank : IsIndent indent) (each : List.Forall₂ IsParameter params names)
    (few : params.length < Nat.pow 2 63) (depth : Nat) (body : Code) :
    ∃ ps outer inner head rest, Named names ps
      ∧ Spells (fun _ => True) head (headLexemes ps params.length outer inner)
      ∧ render indent depth (.function params body) = utf8 "function" ++ (head ++ rest) := by
  obtain ⟨outer, line⟩ := newLine_pad blank (depth + 1)
  obtain ⟨inner, deep⟩ := newLine_pad blank (depth + 1 + 1)
  have check : Spells (fun _ => True) _ (checkLexemes [countLexeme params.length] outer inner) :=
    check_spelled (phrase_count few) line deep
  have opened := ((check.lead (by simp [checkLexemes]) line.blank).bracket
    (show "\x7b" ∈ brackets by decide)).lead (by simp) isBlank_space
  obtain ⟨ps, named, spelled⟩ := params_spelled each opened
  refine ⟨ps, outer, inner, _,
    utf8 "\n" ++ braced indent (depth + 1) (lines indent (depth + 1) body) ++ pad indent depth
      ++ utf8 "\x7d", named, spelled.bracket (show "(" ∈ brackets by decide), ?_⟩
  rw [render, joined, lines, arityCheck, encode_arityMessage]
  simp [checkText, throwText, headText, blockText, spacedText, Bytes.join, utf8]

/-- Wherever the reader stands before the text of a function literal and reads an expression, it
reads a function that checks the number of its arguments. -/
theorem literal_checks (blank : IsIndent indent) (each : List.Forall₂ IsParameter params names)
    (few : params.length < Nat.pow 2 63) {c : Surround} {fuel : Nat} {p p' : Script.Place}
    {e : Script.Expr} {rest : Bytes} (found : p.Found)
    (written : Text.ofChars p.text = render indent depth (.function params body) ++ rest)
    (read : primary c fuel p = some (e, p')) :
    ∃ f otherwise body', e = .function f ∧ f.Checks names otherwise body' := by
  obtain ⟨ps, outer, inner, head, more, named, spelled, text_eq⟩ :=
    head_spelled blank each few depth body
  have word : IsName "function".toList := by decide
  have whole : Spells (fun _ => True) (utf8 "function" ++ head)
      (wordLexeme "function" :: headLexemes ps params.length outer inner) :=
    spelled.word word (isCalm_bracket rfl (by decide) _)
  obtain ⟨tail, text⟩ : ∃ tail, p.text
      = sources (wordLexeme "function" :: headLexemes ps params.length outer inner) ++ tail := by
    have begins : Text.ofChars p.text = Text.ofChars (sources
        (wordLexeme "function" :: headLexemes ps params.length outer inner)) ++ (more ++ rest) := by
      rw [written, text_eq, ← whole.written]
      simp
    exact Text.ofChars_prefix begins
  obtain ⟨token, at_next⟩ := found.before (whole.lexed tail trivial) rfl text
  rw [each.length_eq] at at_next
  exact primary_checks named token at_next read

end EggLang.Code
