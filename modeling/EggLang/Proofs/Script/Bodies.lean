import EggLang.Proofs.Script.Check
import EggLang.Proofs.Script.Factors

/-!
# Functions in two scripts

A function literal begins with the check of its arguments and has one statement after it.
-/

namespace EggLang.Script.Parser

open Script.Place (Facing Both Lost Solid ahead)

variable {ok ok' : List Char → Prop} {text more gap : List Char}

/-! ## Statements -/

/-- The text of a statement of a function. -/
structure Instruction (ok : List Char → Prop) (text : List Char) : Prop where
  goes : ∀ {s o p}, ok s → Facing o (text ++ s) p → p.token ≠ .mark "\x7d"
  noElse : ∀ {s o p}, ok s → Facing o (text ++ s) p → p.token ≠ .name "else" false
  reads : Copies ok Stmt.AlikeAll (statement .function) (statement .function) text

/-- A text that begins with a closing brace. -/
def Brace (s : List Char) : Prop := Meets (· = .mark "\x7d") s

theorem Brace.closes {s : List Char} (h : Brace s) : Meets Closes s :=
  h.mono fun _ same => same ▸ ⟨.brace, by simp⟩

/-- What ends a statement, in both scripts. -/
theorem ends_statement {k : Expr → Stmt} {x y : Expr} {q₁ q₂ : Place} {z : List Stmt × Place}
    {s₁ s₂ : List Char} {o₁ o₂ : Nat} (brace₁ : Brace s₁) (brace₂ : Brace s₂)
    (after : Both o₁ o₂ s₁ s₂ q₁ q₂)
    (done : ((endStatement q₁).bind fun e => some ([k x], e.2)) = some z) :
    z = ([k x], q₁) ∧ ((endStatement q₂).bind fun e => some ([k y], e.2))
      = some ([k y], q₂) := by
  have token₁ : q₁.token = .mark "\x7d" := after.first.token.trans brace₁.ahead
  have token₂ : q₂.token = .mark "\x7d" := after.second.token.trans brace₂.ahead
  rw [endStatement_closes token₁, Option.bind_some] at done
  exact ⟨(Option.some.inj done).symm, by rw [endStatement_closes token₂, Option.bind_some]⟩

theorem not_ended_of_lost {k : Expr → Stmt} {x : Expr} {q : Place} {z : List Stmt × Place}
    (lost : Lost q) (done : ((endStatement q).bind fun e => some ([k x], e.2)) = some z) :
    False := by
  rw [endStatement_illegal lost.token lost.tight] at done
  cases done

theorem Brace.barren {s : List Char} (h : Brace s) : Nameless s ∧ Barren s := by
  have nameless : Nameless s := by
    rw [Nameless, h.ahead]
    rfl
  exact ⟨nameless, barren_halts (by rw [h.ahead]; decide) nameless⟩

/-- An expression as a statement. -/
theorem Formula.instruction (h : Formula text) : Instruction Brace text where
  goes brace at_p := (h.starts brace.closes.stops.halts at_p).leading.not_mark (by decide)
  noElse brace at_p :=
    (h.starts brace.closes.stops.halts at_p).leading.not_word (by decide) (by decide)
  reads := by
    intro s₁ s₂ o₁ o₂ p₁ p₂ fuel z q brace₁ brace₂ both read
    have start₁ := h.starts brace₁.closes.stops.halts both.first
    have start₂ := h.starts brace₂.closes.stops.halts both.second
    have unbound₁ := h.barren brace₁.closes.stops.halts brace₁.barren.1 brace₁.barren.2 both.first
    have unbound₂ := h.barren brace₂.closes.stops.halts brace₂.barren.1 brace₂.barren.2 both.second
    obtain ⟨same_token, same_lets⟩ := h.heads brace₁.closes.stops.halts brace₂.closes.stops.halts
      (fun square => by simp [brace₂.ahead] at square) both
    have other₁ : ¬ Lets p₁ := fun lets => by cases (lets.fails unbound₁).symm.trans read
    have other₂ : ¬ Lets p₂ := fun lets => other₁ (same_lets lets)
    have plain₁ : p₁.token ≠ .name "function" false := fun word => by
      cases (statement_function_fails word (start₁.nameless word)).symm.trans read
    have plain₂ : p₂.token ≠ .name "function" false := same_token ▸ plain₁
    have declares₁ := declarationAt_leading start₁.leading unbound₁ other₁
    have declares₂ := declarationAt_leading start₂.leading unbound₂ other₂
    cases fuel with
    | zero => cases read
    | succ n =>
      obtain ⟨fails, gives⟩ := statement_expression_eq (c := .function) (n := n) start₁.leading
        plain₁ declares₁
      cases found : Parser.expression .function n p₁ with
      | none => cases (fails found).symm.trans read
      | some r =>
        rcases h.expression .function .function brace₁.closes brace₂.closes both found with
          lost | ⟨y, q₂, alike, reaches, after⟩
        · rw [gives r found (by simp [lost.token])] at read
          exact (not_ended_of_lost lost read).elim
        · have noLabel {o : Nat} {s : List Char} {q : Place} (brace : Brace s)
              (at_q : Facing o s q) : q.token ≠ .mark ":" := by
            rw [at_q.token, brace.ahead]
            simp
          rw [gives r found (noLabel brace₁ after.first)] at read
          obtain ⟨same, ended⟩ := ends_statement (y := y) brace₁ brace₂ after read
          cases same
          refine ⟨[.expression y], q₂, .cons (.expression alike) .nil,
            reaches.then fun n done => ?_, after⟩
          rw [(statement_expression_eq start₂.leading plain₂ declares₂).2 _ done
            (noLabel brace₂ after.second)]
          exact ended

/-- A word with an expression behind it. -/
theorem instruction_word {w : String} {k : Expr → Stmt} (name : IsName w.toList)
    (noElse : w ≠ "else") (h : Formula text)
    (alike : ∀ {x y : Expr}, x.Alike y → (k x).Alike (k y))
    (step : ∀ {n p}, p.token = .name w false → p.next.afterBreak = false →
      Leading p.next.token → statement .function (n + 1) p
        = (expression .function n p.next).bind fun r =>
          (endStatement r.2).bind fun e => some ([k r.1], e.2)) :
    Instruction Brace (w.toList ++ ' ' :: text) := by
  have lexes (s : List Char) : (wordLexeme w).Lexes (' ' :: s) :=
    lexes_word name (calm_cons s (by decide)).endsName
  have at_word {s : List Char} {o : Nat} {p : Place}
      (at_p : Facing o ((w.toList ++ ' ' :: text) ++ s) p) : p.token = .name w false := by
    rw [List.append_assoc] at at_p
    exact (at_p.lexeme (l := wordLexeme w) (lexes (text ++ s))).token
  refine ⟨fun _ at_p => by simp [at_word at_p], fun _ at_p => by simp [at_word at_p, noElse], ?_⟩
  intro s₁ s₂ o₁ o₂ p₁ p₂ fuel z q brace₁ brace₂ both read
  have word₁ := at_word both.first
  have word₂ := at_word both.second
  rw [List.append_assoc, List.append_assoc] at both
  have at_text := (both.next (l := wordLexeme w) (lexes (text ++ s₁)) (lexes (text ++ s₂))).space
  have tight₁ := (both.first.lexeme (l := wordLexeme w) (lexes (text ++ s₁))).sameLine
    (h.solid.append s₁)
  have tight₂ := (both.second.lexeme (l := wordLexeme w) (lexes (text ++ s₂))).sameLine
    (h.solid.append s₂)
  have start₁ := h.starts brace₁.closes.stops.halts at_text.first
  have start₂ := h.starts brace₂.closes.stops.halts at_text.second
  cases fuel with
  | zero => cases read
  | succ n =>
    rw [step word₁ tight₁ start₁.leading, Option.bind_eq_some_iff] at read
    obtain ⟨⟨x, q₁⟩, value_read, read⟩ := read
    rcases h.expression .function .function brace₁.closes brace₂.closes at_text value_read with
      lost | ⟨y, q₂, value_alike, reaches, after⟩
    · exact (not_ended_of_lost lost read).elim
    · obtain ⟨same, ended⟩ := ends_statement (y := y) brace₁ brace₂ after read
      cases same
      refine ⟨[k y], q₂, .cons (alike value_alike) .nil, reaches.then fun n done => ?_, ?_⟩
      · rw [step word₂ tight₂ start₂.leading, done]
        exact ended
      · have length : (wordLexeme w).source.length = w.toList.length := rfl
        rw [length] at after
        convert after using 1 <;> simp <;> omega

theorem Leading.not_end {t : Token} (h : Leading t) : t ≠ .end := by
  cases h <;> simp

theorem instruction_throw (h : Formula text) : Instruction Brace ("throw".toList ++ ' ' :: text) :=
  instruction_word (k := .throw) (by decide) (by decide) h .throw fun word tight leading =>
    statement_throw word tight leading.not_end

theorem instruction_return (h : Formula text) :
    Instruction Brace ("return".toList ++ ' ' :: text) :=
  instruction_word (k := .return) (by decide) (by decide) h .return fun word tight leading =>
    statement_return word rfl tight leading.not_end
      ⟨leading.not_mark (by decide), leading.not_mark (by decide)⟩

/-! ## Blocks -/

/-- The text of statements up to the closing brace of their block. -/
inductive Braced : List Char → Prop where
  | close {gap : List Char} : (∀ c ∈ gap, Token.isGap c = true) → Braced (gap ++ ['\x7d'])
  | cons {ok : List Char → Prop} {gap text rest : List Char} :
      (∀ c ∈ gap, Token.isGap c = true) → Instruction ok text → (∀ s, ok (rest ++ s)) →
      Braced rest → Braced (gap ++ (text ++ rest))

theorem Braced.copies (h : Braced text) {done₁ done₂ body : List Stmt} {s₁ s₂ : List Char}
    {o₁ o₂ fuel stop : Nat} {p₁ p₂ q₁ : Place} (alike : Stmt.AlikeAll done₁ done₂)
    (both : Both o₁ o₂ (text ++ s₁) (text ++ s₂) p₁ p₂)
    (read : blockRest .function fuel done₁ p₁ = some ((body, stop), q₁)) :
    stop = o₁ + text.length ∧ ∃ body' q₂, Stmt.AlikeAll body body'
      ∧ Reaches (fun n => blockRest .function n done₂) fuel p₂ (body', o₂ + text.length) q₂
      ∧ Both (o₁ + text.length) (o₂ + text.length) s₁ s₂ q₁ q₂ := by
  induction h generalizing done₁ done₂ o₁ o₂ fuel p₁ p₂ with
  | @close gap blank =>
    rw [List.append_assoc, List.append_assoc] at both
    have at_brace := both.gap blank
    have lexes (s : List Char) : (markLexeme "\x7d").Lexes s := lexes_bracket (by decide) s
    have first := at_brace.first.lexeme (l := markLexeme "\x7d") (lexes s₁)
    have second := at_brace.second.lexeme (l := markLexeme "\x7d") (lexes s₂)
    have length : (markLexeme "\x7d").source.length = 1 := rfl
    cases fuel with
    | zero => cases read
    | succ n =>
      rw [blockRest_closes first.token] at read
      cases read
      have total (o : Nat) : o + gap.length + 1 = o + (gap ++ ['\x7d']).length := by
        simp
        omega
      refine ⟨?_, done₂.reverse, p₂.next, alike.reverse, reaches_of_succ fun n => ?_, ?_⟩
      · rw [first.stop, length, total]
      · rw [blockRest_closes second.token, second.stop, length, total]
      · rw [← total, ← total]
        exact at_brace.next (l := markLexeme "\x7d") (lexes s₁) (lexes s₂)
  | @cons ok gap text rest blank instruction follows _ ih =>
    have text_eq (s : List Char) : (gap ++ (text ++ rest)) ++ s = gap ++ (text ++ (rest ++ s)) := by
      simp
    rw [text_eq, text_eq] at both
    have at_text := both.gap blank
    cases fuel with
    | zero => cases read
    | succ n =>
      rw [blockRest_more (instruction.goes (follows s₁) at_text.first),
        Option.bind_eq_some_iff] at read
      obtain ⟨⟨ss, r₁⟩, statement_read, read⟩ := read
      obtain ⟨ts, r₂, all, reaches, at_rest⟩ :=
        instruction.reads (follows s₁) (follows s₂) at_text statement_read
      obtain ⟨stops, body', q₂, whole, rest_reaches, at_end⟩ :=
        ih (all.reverse.append alike) at_rest read
      have total (o : Nat) : o + gap.length + text.length + rest.length
          = o + (gap ++ (text ++ rest)).length := by
        simp
        omega
      rw [total] at stops at_end rest_reaches
      rw [total] at at_end
      refine ⟨stops, body', q₂, whole, Onward.reaches (reaches.onward fun n done => ?_)
        rest_reaches, at_end⟩
      rw [blockRest_more (instruction.goes (follows s₂) at_text.second), done, Option.bind_some]

/-! ## The check of the arguments -/

/-- A condition in parentheses. -/
theorem Formula.condition (h : Formula text) (c₁ c₂ : Surround) :
    Copies (fun _ => True) Expr.Alike (condition c₁) (condition c₂) ('(' :: (text ++ [')'])) := by
  intro s₁ s₂ o₁ o₂ p₁ p₂ fuel x q₁ _ _ both read
  have text_eq (s : List Char) : ('(' :: (text ++ [')'])) ++ s = '(' :: (text ++ (')' :: s)) := by
    simp
  rw [text_eq, text_eq] at both
  obtain ⟨opens₁, opens₂, at_text⟩ := both.bracket (m := "(") (by decide)
  have ends (s : List Char) : Meets Closes (')' :: s) :=
    meets_closing (m := ")") (by decide) rfl (by decide) ⟨.round, by decide⟩ s
  cases fuel with
  | zero => cases read
  | succ n =>
    rw [condition_eq opens₁, Option.bind_eq_some_iff] at read
    obtain ⟨⟨x', r₁⟩, inner_read, read⟩ := read
    rcases h.expression c₁ c₂ (ends s₁) (ends s₂) at_text inner_read with
      lost | ⟨y, r₂, alike, reaches, at_close⟩
    · simp [lost.token] at read
    obtain ⟨closes₁, closes₂, at_end⟩ := at_close.bracket (m := ")") (by decide)
    rw [if_pos closes₁] at read
    cases read
    refine ⟨y, r₂.next, alike, reaches.then fun n done => ?_, ?_⟩
    · rw [condition_eq opens₂, done, Option.bind_some, if_pos closes₂]
    · convert at_end using 1 <;> simp <;> omega

/-- A block where one statement is expected. -/
theorem Braced.single (h : Braced text) : Copies (fun _ => True) Stmt.Alike
    (single .function) (single .function) ('\x7b' :: text) := by
  intro s₁ s₂ o₁ o₂ p₁ p₂ fuel s q₁ _ _ both read
  obtain ⟨opens₁, opens₂, at_text⟩ := both.bracket (m := "\x7b") (by decide)
  obtain ⟨n, rfl⟩ : ∃ n, fuel = n + 3 := by
    by_cases short : fuel < 3
    · cases (single_short opens₁ short).symm.trans read
    · exact ⟨fuel - 3, by omega⟩
  rw [single_braced opens₁, Option.bind_eq_some_iff] at read
  obtain ⟨⟨⟨body, stop⟩, r⟩, block_read, read⟩ := read
  obtain ⟨-, others, q₂, all, reaches, at_end⟩ := h.copies .nil at_text block_read
  split at read
  · next isScoped =>
    cases read
    refine ⟨.block others, q₂, .block all, ?_, ?_⟩
    · intro m enough
      obtain ⟨m, rfl⟩ : ∃ i, m = i + 3 := ⟨m - 3, by omega⟩
      have block_done := reaches m (by omega)
      beta_reduce at block_done
      rw [single_braced opens₂, block_done, Option.bind_some,
        if_pos ((isWellScoped_alike all [] false).symm.trans isScoped)]
    · convert at_end using 1 <;> simp <;> omega
  · cases read

/-- A conditional without another branch. -/
theorem instruction_if {cond body : List Char} (test : Formula cond) (block : Braced body) :
    Instruction (fun s => ahead s ≠ .name "else" false)
      ("if".toList ++ ' ' :: (('(' :: (cond ++ [')'])) ++ ' ' :: '\x7b' :: body)) := by
  have lexes (s : List Char) : (wordLexeme "if").Lexes (' ' :: s) :=
    lexes_word (by decide) (calm_cons s (by decide)).endsName
  have text_eq (s : List Char) :
      ("if".toList ++ ' ' :: (('(' :: (cond ++ [')'])) ++ ' ' :: '\x7b' :: body)) ++ s
        = "if".toList ++ ' ' :: (('(' :: (cond ++ [')'])) ++ (' ' :: (('\x7b' :: body) ++ s))) := by
    simp
  have at_word {s : List Char} {o : Nat} {p : Place}
      (at_p : Facing o ("if".toList ++ ' ' :: s) p) : p.token = .name "if" false :=
    (at_p.lexeme (l := wordLexeme "if") (lexes s)).token
  refine ⟨fun _ at_p => ?_, fun _ at_p => ?_, ?_⟩
  · rw [text_eq] at at_p
    simp [at_word at_p]
  · rw [text_eq] at at_p
    simp [at_word at_p]
  · intro s₁ s₂ o₁ o₂ p₁ p₂ fuel z q₁ other₁ other₂ both read
    rw [text_eq, text_eq] at both
    have word₁ := at_word both.first
    have word₂ := at_word both.second
    have at_cond := (both.next (l := wordLexeme "if") (lexes _) (lexes _)).space
    cases fuel with
    | zero => cases read
    | succ n =>
    rw [statement_if_eq word₁, Option.bind_eq_some_iff] at read
    obtain ⟨⟨x, r₁⟩, cond_read, read⟩ := read
    obtain ⟨y, r₂, test_alike, cond_reaches, at_gap⟩ :=
      test.condition .function .function trivial trivial at_cond cond_read
    have at_block := at_gap.space
    rw [Option.bind_eq_some_iff] at read
    obtain ⟨⟨yes, r⟩, single_read, read⟩ := read
    obtain ⟨other, q₂, yes_alike, single_reaches, at_end⟩ :=
      block.single trivial trivial at_block single_read
    have noElse₁ : r.token ≠ .name "else" false := at_end.first.token ▸ other₁
    have noElse₂ : q₂.token ≠ .name "else" false := at_end.second.token ▸ other₂
    rw [if_neg noElse₁] at read
    cases read
    refine ⟨[.if y other .empty], q₂, .cons (.if test_alike yes_alike) .nil, ?_, ?_⟩
    · intro m enough
      obtain ⟨m, rfl⟩ : ∃ i, m = i + 1 := ⟨m - 1, by omega⟩
      rw [statement_if_eq word₂, cond_reaches m (by omega), Option.bind_some,
        single_reaches m (by omega), Option.bind_some, if_neg noElse₂]
    · have length : (wordLexeme "if").source.length = 2 := rfl
      rw [length] at at_end
      convert at_end using 1 <;> simp <;> omega

/-! ## Functions -/

/-- The text of a name that a function can have as a parameter. -/
def IsParameter (text : List Char) : Prop :=
  ∃ n isEscaped, IsIdentifier text n isEscaped ∧ n ∉ reserved

theorem bindingElement_reaches {p : Place} {n : String} {isEscaped : Bool}
    (token : p.token = .name n isEscaped) (free : n ∉ reserved)
    (ends : p.next.token ≠ .mark "=") : Reaches bindingElement 2 p (.ident n) p.next := by
  intro fuel enough
  obtain ⟨fuel, rfl⟩ : ∃ m, fuel = m + 2 := ⟨fuel - 2, by omega⟩
  simp [bindingElement, bindingTarget, bind_run, map_run, pure_run, takeMark_run, identifier_run,
    nameOf?, token, free, ends]

theorem IsParameter.item (h : IsParameter text) :
    Item (· = ·) bindingElement bindingElement text := by
  obtain ⟨n, isEscaped, name, free⟩ := h
  have lexes {s : List Char} (stops : Meets Stops s) :
      Lexeme.Lexes ⟨[], text, .name n isEscaped⟩ s :=
    name.lexes stops.calm.endsName
  have at_name {s : List Char} {o : Nat} {p : Place} (stops : Meets Stops s)
      (at_p : Facing o (text ++ s) p) :
      p.token = .name n isEscaped ∧ p.next.token ≠ .mark "=" := by
    have found := at_p.lexeme (l := ⟨[], text, .name n isEscaped⟩) (lexes stops)
    exact ⟨found.token, found.next.token ▸ stops.ahead.not_mark (by decide)⟩
  refine ⟨fun stops at_p _ _ => by simp [(at_name stops at_p).1], ?_⟩
  intro s₁ s₂ o₁ o₂ p₁ p₂ fuel x q stops₁ stops₂ both read
  obtain ⟨token₁, ends₁⟩ := at_name stops₁ both.first
  obtain ⟨token₂, ends₂⟩ := at_name stops₂ both.second
  match fuel with
  | 0 | 1 => cases read
  | fuel + 2 =>
    have reaches := bindingElement_reaches token₂ free ends₂
    cases (bindingElement_reaches token₁ free ends₁ (fuel + 2) (by omega)).symm.trans read
    exact .inr ⟨.ident n, p₂.next, rfl, fun m enough => reaches m (by omega),
      both.next (l := ⟨[], text, .name n isEscaped⟩) (lexes stops₁) (lexes stops₂)⟩

theorem Listed.parameters (h : Listed IsParameter ")" text) :
    Copies (fun _ => True) (· = ·) parameters parameters text := by
  intro s₁ s₂ o₁ o₂ p₁ p₂ fuel xs q₁ ok₁ ok₂ both read
  obtain ⟨ys, q₂, same, rest⟩ := h.copies (fun t param => IsParameter.item param) closer_round
    lists_parameters lists_parameters ok₁ ok₂ both read
  rw [List.forall₂_eq_eq_eq] at same
  exact ⟨ys, q₂, same, rest⟩

theorem functionRest_eq {start p : Place} {n : Nat} (opens : p.token = .mark "(") :
    functionRest start none (n + 1) p = (parameters n p.next).bind fun r =>
      if r.2.token = .mark "\x7b" then
        (blockRest .function n [] r.2.next).bind fun b =>
          (checkFunction .normal r.1 b.1.1 b.2).bind fun e =>
            some (makeFunction .normal none start (b.1.2 - start.start) r.1 b.1.1, e.2)
      else none := by
  rw [functionRest, bind_run, expect_run, if_pos opens, Option.bind_some, bind_run]
  congr 1
  funext r
  rw [bind_run, expect_run]
  split <;> rfl

theorem checkFunction_run (kind : FunctionKind) (params : List Expr) (body : List Stmt)
    (p : Place) : checkFunction kind params body p =
      if ((params.all isName && kind = .normal) || areDistinct (Expr.namesAll params))
        && isWellScoped (Expr.namesAll params) body true then some ((), p) else none := by
  rw [checkFunction, bind_run, require_run]
  split
  · next distinct =>
    rw [Option.bind_some, require_run]
    simp [distinct]
  · next twice => simp [twice]

theorem checkFunction_alike {kind : FunctionKind} {params : List Expr} {body others : List Stmt}
    {p : Place} {z : Unit × Place} (all : Stmt.AlikeAll body others)
    (checked : checkFunction kind params body p = some z) :
    z = ((), p) ∧ ∀ q, checkFunction kind params others q = some ((), q) := by
  rw [checkFunction_run, isWellScoped_alike all] at checked
  split at checked
  · next passes =>
    cases checked
    exact ⟨rfl, fun q => by rw [checkFunction_run, if_pos passes]⟩
  · cases checked

/-- A function is read by its parameters, its statements and the check of both. -/
theorem functionRest_back {start p q : Place} {fuel : Nat} {f : Function}
    (opens : p.token = .mark "(") (read : functionRest start none fuel p = some (f, q)) :
    ∃ n params r body stop r' z, fuel = n + 1 ∧ parameters n p.next = some (params, r)
      ∧ r.token = .mark "\x7b" ∧ blockRest .function n [] r.next = some ((body, stop), r')
      ∧ checkFunction .normal params body r' = some (z, q)
      ∧ f = makeFunction .normal none start (stop - start.start) params body := by
  cases fuel with
  | zero => cases read
  | succ n =>
    rw [functionRest_eq opens, Option.bind_eq_some_iff] at read
    obtain ⟨⟨params, r⟩, params_read, read⟩ := read
    split at read
    · next brace =>
      obtain ⟨⟨⟨body, stop⟩, r'⟩, block_read, read⟩ := Option.bind_eq_some_iff.1 read
      obtain ⟨⟨z, r''⟩, checked, made⟩ := Option.bind_eq_some_iff.1 read
      cases made
      exact ⟨n, params, r, body, stop, r', z, rfl, params_read, brace, block_read, checked, rfl⟩
    · cases read

/-- A part that stands in a text. -/
theorem hasText_append {part before : List Char} {n : Nat} (tail : List Char)
    (some_text : part ≠ []) (within : before.length < n) :
    hasText part n (before ++ (part ++ tail)) = true := by
  induction before generalizing n with
  | nil =>
    obtain ⟨n, rfl⟩ : ∃ m, n = m + 1 := ⟨n - 1, by simp at within; omega⟩
    obtain ⟨c, cs, rfl⟩ := List.exists_cons_of_ne_nil some_text
    have begins : (c :: cs).isPrefixOf ((c :: cs) ++ tail) = true :=
      List.isPrefixOf_iff_prefix.2 (List.prefix_append _ _)
    rw [List.nil_append, List.cons_append, hasText, ← List.cons_append, begins, Bool.true_or]
  | cons b before ih =>
    obtain ⟨n, rfl⟩ : ∃ m, n = m + 1 := ⟨n - 1, by simp at within; omega⟩
    rw [List.cons_append, hasText, ih (by simpa using within), Bool.or_true]

/-- A function that mentions its arguments, made from the same text in two scripts. -/
theorem makeFunction_alike {start₁ start₂ : Place} {s₁ s₂ : List Char} {params : List Expr}
    {body others : List Stmt} (text₁ : start₁.text = text ++ s₁) (text₂ : start₂.text = text ++ s₂)
    (mentions : "arguments".toList <:+: text) (all : Stmt.AlikeAll body others) :
    (makeFunction .normal none start₁ text.length params body).Alike
      (makeFunction .normal none start₂ text.length params others) := by
  have uses (s : List Char) : hasText "arguments".toList text.length (text ++ s) = true := by
    obtain ⟨before, after, rfl⟩ := mentions
    rw [List.append_assoc, List.append_assoc]
    exact hasText_append (after ++ s) (by decide) (by simp)
  rw [makeFunction, makeFunction, all.variables]
  simp only [text₁, text₂, uses, Bool.true_or]
  exact .mk (by simp) all

/-- The text of a function literal, from its parameters and from its statements, each up to what
closes them. -/
def literalText (ps body : List Char) : List Char :=
  "function".toList ++ '(' :: (ps ++ ' ' :: '\x7b' :: body)

theorem literalText_append (ps body s : List Char) : literalText ps body ++ s
    = "function".toList ++ '(' :: (ps ++ ' ' :: '\x7b' :: (body ++ s)) := by
  unfold literalText
  simp only [List.append_assoc, List.cons_append]

theorem literalText_length (ps body : List Char) :
    (literalText ps body).length = 8 + (ps.length + body.length + 3) := by
  have word : "function".toList.length = 8 := by decide
  unfold literalText
  rw [List.length_append, word, List.length_cons, List.length_append]
  simp only [List.length_cons]
  omega

theorem lexes_function (s : List Char) : (wordLexeme "function").Lexes ('(' :: s) :=
  lexes_word (by decide) (calm_cons s (by decide)).endsName

theorem literal_word {ps body s : List Char} {o : Nat} {p : Place}
    (at_p : Facing o (literalText ps body ++ s) p) :
    p.token = .name "function" false ∧ p.next.token = .mark "(" := by
  rw [literalText_append] at at_p
  have word := at_p.lexeme (l := wordLexeme "function") (lexes_function _)
  exact ⟨word.token, word.next.token.trans (ahead_bracket (m := "(") (by decide) _)⟩

/-- The statements of a function literal end where its text does. -/
theorem literal_extent (o : Nat) (ps body : List Char) :
    o + (wordLexeme "function").source.length + "(".toList.length + ps.length + 1
        + "\x7b".toList.length + body.length = o + (literalText ps body).length := by
  have word_length : (wordLexeme "function").source.length = 8 := by decide
  rw [literalText_length, word_length]
  simp
  omega

theorem literal_mentions {part ps body : List Char} (h : part <:+: body) :
    part <:+: literalText ps body := by
  obtain ⟨before, after, rfl⟩ := h
  refine ⟨literalText ps before, after, ?_⟩
  unfold literalText
  simp only [List.append_assoc, List.cons_append]

/-- A function literal. -/
theorem core_function {ps body : List Char} (params : Listed IsParameter ")" ps)
    (block : Braced body) (mentions : "arguments".toList <:+: body) :
    Core ok (literalText ps body) := by
  refine .of_primary ⟨'f', _, rfl, by decide⟩ (fun {s o p} _ at_p => ?_)
    (fun {s o p} _ at_p => by simp [(literal_word at_p).1])
    (headsAlike_of_token (fun _ at_p => (literal_word at_p).1) (by simp))
    (fun {s} _ _ _ o p at_p => ?_) fun c₁ c₂ => ?_
  · obtain ⟨word, opens⟩ := literal_word at_p
    exact ⟨word ▸ .word "function" (by decide), fun _ => opens,
      arrowHead_fails (by simp [word]) (by simp [opens])⟩
  · have word := (literal_word at_p).1
    exact .halts (by simp [word]) (by rw [word]; rfl)
  · intro s₁ s₂ o₁ o₂ p₁ p₂ fuel x q₁ _ _ both read
    obtain ⟨word₁, opens₁⟩ := literal_word both.first
    obtain ⟨word₂, opens₂⟩ := literal_word both.second
    rw [literalText_append, literalText_append] at both
    have first := both.first.lexeme (l := wordLexeme "function") (lexes_function _)
    have second := both.second.lexeme (l := wordLexeme "function") (lexes_function _)
    obtain ⟨-, -, at_params⟩ := (both.next (l := wordLexeme "function") (lexes_function _)
      (lexes_function _)).bracket (m := "(") (by decide)
    cases fuel with
    | zero => cases read
    | succ n =>
    rw [primary_function word₁ opens₁, Option.bind_eq_some_iff] at read
    obtain ⟨⟨f, r⟩, rest_read, done⟩ := read
    cases done
    obtain ⟨n, names, r₁, ss, stop, r', z, rfl, params_read, brace₁, block_read, checked, rfl⟩ :=
      functionRest_back opens₁ rest_read
    -- the parts of the function in the other script
    obtain ⟨_, r₂, rfl, params_reaches, at_gap⟩ :=
      params.parameters trivial trivial at_params params_read
    obtain ⟨-, brace₂, at_body⟩ := (at_gap.space).bracket (m := "\x7b") (by decide)
    obtain ⟨stop_eq, ts, q₂, all, block_reaches, at_end⟩ := block.copies .nil at_body block_read
    obtain ⟨same, passes⟩ := checkFunction_alike all checked
    cases same
    rw [literal_extent] at stop_eq block_reaches at_end
    rw [literal_extent] at at_end
    have extent₁ : stop - p₁.start = (literalText ps body).length := by
      rw [stop_eq, first.start]
      simp [wordLexeme]
    have extent₂ : o₂ + (literalText ps body).length - p₂.start = (literalText ps body).length := by
      rw [second.start]
      simp [wordLexeme]
    have whole₁ := (literalText_append ps body s₁).symm
    have whole₂ := (literalText_append ps body s₂).symm
    rw [extent₁]
    refine .inr ⟨_, q₂, .function (makeFunction_alike (first.text.trans whole₁)
      (second.text.trans whole₂) (literal_mentions mentions) all), ?_, at_end⟩
    intro m enough
    obtain ⟨m, rfl⟩ : ∃ i, m = i + 2 := ⟨m - 2, by omega⟩
    have block_done := block_reaches m (by omega)
    beta_reduce at block_done
    rw [primary_function word₂ opens₂, functionRest_eq opens₂, params_reaches m (by omega),
      Option.bind_some, if_pos brace₂, block_done, Option.bind_some, passes]
    simp only [Option.bind_some, extent₂]

end EggLang.Script.Parser
