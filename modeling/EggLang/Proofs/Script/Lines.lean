import EggLang.Proofs.Script.Spelling
import EggLang.Proofs.Script.Statements
import Mathlib.Data.List.Chain

/-!
# Lines of scripts

Generated code has its statements on lines of their own. Whether a line is a statement of its own
depends on the two that meet: nothing goes on a statement that a brace closes, a line that begins
with a name or a number goes on no other, and one that begins with a bracket goes on the line
before. The last is still read, unless there is nothing between its brackets.
-/

namespace EggLang.Script.Parser

variable {c : Surround} {p p' : Place} {fuel : Nat} {x : Expr} {ls ms rest : List Lexeme}

/-! ## Sentences -/

/-- Written tokens of a statement that a bracket on the next line would go on. -/
inductive Sentence : List Lexeme → Prop where
  | evaluated {ls : List Lexeme} : Chain ls → Leads (headToken ls) → Sentence ls
  | assigned {l₁ l₂ : Lexeme} {ls : List Lexeme} (n : String) : l₁.token = .name n false →
      n ∉ reserved → n ∉ statementWords → l₂.token = .mark "=" → Chain ls →
      Sentence (l₁ :: l₂ :: ls)
  | declared {l l₁ l₂ : Lexeme} {ls : List Lexeme} (n : String) : l.token = .name "var" false →
      l₁.token = .name n false → n ∉ reserved → l₂.token = .mark "=" → Chain ls →
      Sentence (l :: l₁ :: l₂ :: ls)

theorem Sentence.statement (h : Sentence ls) : Statement false ls := by
  cases h with
  | evaluated chain leads => exact chain.evaluated leads
  | assigned n named free word equals chain => exact chain.assigned named free word equals
  | declared n word named free equals chain => exact chain.declared word named free equals

theorem Sentence.nonempty (h : Sentence ls) : ls ≠ [] := h.statement.nonempty

theorem Sentence.append (h : Sentence ls) (extend : ∀ {os}, Chain os → Chain (os ++ ms)) :
    Sentence (ls ++ ms) := by
  cases h with
  | evaluated chain leads =>
    refine .evaluated (extend chain) ?_
    rwa [chain.opening.headToken_append]
  | assigned n named free word equals chain =>
    exact .assigned n named free word equals (extend chain)
  | declared n word named free equals chain =>
    exact .declared n word named free equals (extend chain)

theorem Sentence.lead (h : Sentence ls) (gap : List Char) : Sentence (lead gap ls) := by
  cases h with
  | evaluated chain leads =>
    refine .evaluated (chain.lead gap) ?_
    rwa [headToken_lead]
  | assigned n named free word equals chain => exact .assigned n named free word equals chain
  | declared n word named free equals chain => exact .declared n word named free equals chain

theorem Sentence.not_brace (h : Sentence ls) : headToken ls ≠ .mark "\x7d" := by
  cases h with
  | evaluated chain leads => exact leads.not_mark (by decide)
  | assigned n named => simp [named]
  | declared n word => simp [word]

/-- Lines that go on no statement and are read as statements. -/
structure Apart (ls : List Lexeme) : Prop where
  ends : Ends ls
  body : Body ls

/-- Lines behind a statement that a bracket goes on. What they begin with goes on it, up to lines of
a kind. -/
structure Joins (after : List Lexeme → Prop) (ls : List Lexeme) : Prop where
  split : ∃ ms rest, ls = ms ++ rest ∧ (∀ {os}, Chain os → Chain (os ++ ms)) ∧ after rest

theorem Joins.of {after : List Lexeme → Prop} (h : after ls) : Joins after ls :=
  ⟨[], ls, rfl, fun chain => by rwa [List.append_nil], h⟩

theorem Joins.suffix {after : List Lexeme → Prop} {ss ps : List Lexeme} (h : Joins after ms)
    (suffix : Suffix ss) (parts : Parts ps) : Joins after (ss ++ (ps ++ ms)) := by
  obtain ⟨os, rest, rfl, extends_, last⟩ := h
  refine ⟨ss ++ (ps ++ os), rest, by simp only [List.append_assoc], fun chain => ?_, last⟩
  rw [← List.append_assoc, ← List.append_assoc]
  exact extends_ ((chain.suffix suffix).parts parts)

theorem Joins.sentence (h : Joins Apart ms) (first : Sentence ls) : Body (ls ++ ms) := by
  obtain ⟨os, rest, rfl, extends_, apart⟩ := h
  have whole : Sentence (ls ++ os) := first.append extends_
  rw [← List.append_assoc]
  exact .cons whole.statement (fun _ => apart.ends) whole.not_brace apart.body

/-- Written tokens that begin with brackets and nothing between them. -/
inductive Hollow : List Lexeme → Prop where
  | brackets {l₁ l₂ : Lexeme} {ls : List Lexeme} : l₁.token = .mark "[" → l₂.token = .mark "]" →
      Hollow (l₁ :: l₂ :: ls)

theorem Hollow.append (h : Hollow ls) (ms : List Lexeme) : Hollow (ls ++ ms) := by
  cases h with
  | brackets opens closes => exact .brackets opens closes

theorem Hollow.lead (h : Hollow ls) (gap : List Char) : Hollow (lead gap ls) := by
  cases h with
  | brackets opens closes => exact .brackets opens closes

/-- What a line of generated code is to the lines around it. -/
inductive LineKind where
  /-- A brace closes it. -/
  | closed
  /-- It begins with a name or a number. -/
  | fresh
  /-- It begins with a bracket and can go on the line before. -/
  | bracketed
  /-- It begins with the brackets of an array without elements. -/
  | hollow
  deriving DecidableEq

/-- Written tokens of a line. -/
inductive Line : LineKind → List Lexeme → Prop where
  | closed {l : Lexeme} {ls : List Lexeme} : Statement true (l :: ls) → l.isBroken = true →
      Fresh l.token → Line .closed (l :: ls)
  | fresh {l : Lexeme} {ls : List Lexeme} : Sentence (l :: ls) → l.isBroken = true →
      Fresh l.token → Line .fresh (l :: ls)
  | bracketed {ss ps : List Lexeme} : Sentence (ss ++ ps) → Suffix ss → Parts ps →
      Line .bracketed (ss ++ ps)
  | hollow {ls : List Lexeme} : Sentence ls → Hollow ls → Line .hollow ls

/-- Whether the second line can follow the first. -/
def LineKind.mayPrecede (first second : LineKind) : Bool := first = .closed || second ≠ .hollow

/-- Lines are read as statements unless one with empty brackets follows one that they go on. -/
theorem Body.lines (lines : List (LineKind × List Lexeme))
    (each : ∀ line ∈ lines, Line line.1 line.2)
    (order : (lines.map (·.1)).IsChain fun k m => k.mayPrecede m = true) :
    Body (lines.flatMap (·.2))
      ∧ ((lines.map (·.1)).head? ≠ some .hollow → Joins Apart (lines.flatMap (·.2))) := by
  induction lines with
  | nil => exact ⟨.nil, fun _ => .of ⟨.nothing, .nil⟩⟩
  | cons line more ih =>
    obtain ⟨kind, ls⟩ := line
    rw [List.map_cons, List.isChain_cons] at order
    obtain ⟨body, joins⟩ := ih (fun l mem => each l (List.mem_cons_of_mem _ mem)) order.2
    have next : kind ≠ .closed → Joins Apart (more.flatMap (·.2)) := by
      intro is_open
      refine joins fun hollow => ?_
      have may := order.1 .hollow hollow
      simp [LineKind.mayPrecede, is_open] at may
    have line : Line kind ls := each _ List.mem_cons_self
    rw [List.flatMap_cons]
    cases line with
    | @closed l ls statement broken fresh =>
      have starts : headToken (l :: ls) ≠ .mark "\x7d" := by
        intro same
        rw [headToken_cons] at same
        rw [same] at fresh
        cases fresh
      have whole := body.cons statement (by simp) starts
      exact ⟨whole, fun _ => .of ⟨.line broken fresh, whole⟩⟩
    | @fresh l ls sentence broken fresh =>
      have whole := (next (by simp)).sentence sentence
      exact ⟨whole, fun _ => .of ⟨.line broken fresh, whole⟩⟩
    | bracketed sentence suffix parts =>
      refine ⟨(next (by simp)).sentence sentence, fun _ => ?_⟩
      rw [List.append_assoc]
      exact (next (by simp)).suffix suffix parts
    | hollow sentence _ =>
      exact ⟨(next (by simp)).sentence sentence, fun first => absurd rfl first⟩

end EggLang.Script.Parser
