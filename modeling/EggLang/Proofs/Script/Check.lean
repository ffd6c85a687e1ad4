import EggLang.Proofs.Script.Clauses
import EggLang.Proofs.Script.Identifier
import EggLang.Proofs.Script.Outcome

/-!
# Functions that check their arguments

The generated text of a function begins with its parameters and the check of the number of
arguments. What stands behind that may be any text: wherever the function is read, its tree has
these parameters, and its body begins with the check.
-/

namespace EggLang.Script

/-- The number of arguments. -/
def argumentCount : Expr := .member false (.ident "arguments") (Units.ofString "length")

/-- Whether the number of arguments differs from the number of parameters. -/
def countDiffers (n : Nat) : Expr := .binary .looseUnequal argumentCount (.number (.ofNat n))

/-- What a call says that has the wrong number of arguments. -/
def arityMessage : Units := Units.ofString "Wrong number of arguments"

/-- The error of such a call. -/
def arityError : Expr := .construct (.ident "TypeError") [.string arityMessage]

/-- The check of the number of arguments. A text of a program may go on with another branch. -/
def arityCheck (n : Nat) (otherwise : Stmt) : Stmt :=
  .if (countDiffers n) (.block [.throw arityError]) otherwise

/-- A function with parameters of these names whose body begins with the check. -/
structure Function.Checks (f : Function) (names : List String) (otherwise : Stmt)
    (rest : List Stmt) : Prop where
  kind : f.info.kind = .normal
  nameless : f.info.name = none
  simple : f.info.isSimple = true
  parameters : f.info.parameters = names
  hoisted : f.info.variables_ = (Stmt.variablesAll f.body).eraseDups
  body : f.body = arityCheck names.length otherwise :: rest

namespace Parser

variable {c : Surround} {p p' : Place} {fuel n : Nat} {tail gap outer inner : List Char}
  {l : Lexeme} {ls ms : List Lexeme}

/-! ## The check -/

/-- The written token of the number of parameters. -/
def countLexeme (n : Nat) : Lexeme := ⟨[], Nat.toDigits 10 n, .number (.ofNat n)⟩

theorem phrase_count (small : n < Nat.pow 2 63) :
    Phrase .fresh (Bytes.ofNat n) [countLexeme n] where
  spells := by
    refine ⟨?_, fun tail calm =>
      ⟨lexes_value (isNumeral_toDigits n) (decimalLiteral_toDigits small) (calm.endsNumber _),
        trivial⟩⟩
    rw [Layout.ofNat_eq]
    simp [Lexeme.source, countLexeme]
  tight := rfl
  chain := (Operand.number rfl).chain
  leads := .number _
  start := .fresh (.number _)

theorem gives_count
    (at_p : Place.Before tail
      ((countLexemes ++ operationLexemes "!=" [countLexeme n]) ++ l :: ls) p)
    (closes : l.token = .mark ")") :
    ∃ p', Gives (expression c) p (countDiffers n) p' ∧ Place.Before tail (l :: ls) p' := by
  have at_dot := at_p.next
  have at_length := at_dot.next
  have at_mark := at_length.next
  have at_number := at_mark.next
  have at_end := at_number.next
  have object : p.token = .name "arguments" false := at_p.token
  have dot : p.next.token = .mark "." := at_dot.token
  have property : p.next.next.token = .name "length" false := at_length.token
  have mark : p.next.next.next.token = .mark "!=" := at_mark.token
  have number : p.next.next.next.next.token = .number (.ofNat n) := at_number.token
  have compares : operator? c p.next.next.next.token = some (6, .strict .looseUnequal) := by
    rw [mark]
    rfl
  have stops : Stops p.next.next.next.next.next.token := by
    rw [at_end.token, closes]
    exact .round
  have unequal : Halts p.next.next.next.token := mark ▸ .operator "!=" (by decide)
  have left : Gives (power c) p _ p.next.next.next :=
    gives_power (object ▸ .name "arguments" (by decide))
      (gives_access (by simp [object]) (gives_ident (by decide) object)
        (gives_member dot property (gives_accessRest unequal _)))
      unequal
  have right : Gives (binary c 7) p.next.next.next.next _ p.next.next.next.next.next :=
    gives_alone
      (gives_power (number ▸ .number _)
        (gives_access (by simp [number]) (gives_number number) (gives_accessRest (.stops stops) _))
        (.stops stops))
      stops
  have whole : Gives (binary c 3) p (countDiffers n) p.next.next.next.next.next :=
    gives_binary left (gives_operation compares (by decide) right
      (gives_binaryRest stops.operator? _))
  refine ⟨_, gives_expression (gives_assignment (by simp [object]) (by simp [dot]) whole rfl stops
    false) ?_, at_end⟩
  rw [at_end.token, closes]
  decide

theorem gives_throw_arity (at_p : Place.Before tail (lead gap throwLexemes ++ l :: ls) p)
    (closes : l.token = .mark "\x7d") :
    ∃ p', Gives (statement c) p [.throw arityError] p' ∧ Place.Before tail (l :: ls) p' := by
  have at_new := at_p.next
  have at_name := at_new.next
  have at_open := at_name.next
  have at_text := at_open.next
  have at_close := at_text.next
  have at_end := at_close.next
  have word : p.token = .name "throw" false := at_p.token
  have new : p.next.token = .name "new" false := at_new.token
  have named : p.next.next.token = .name "TypeError" false := at_name.token
  have opens : p.next.next.next.token = .mark "(" := at_open.token
  have text : p.next.next.next.next.token = .string arityMessage := at_text.token
  have round : p.next.next.next.next.next.token = .mark ")" := at_close.token
  have closing : p.next.next.next.next.next.next.token = .mark "\x7d" := at_end.token.trans closes
  have ends : Stops p.next.next.next.next.next.token := round ▸ .round
  have stops : Stops p.next.next.next.next.next.next.token := closing ▸ .brace
  have argument : Gives (power c.inside) p.next.next.next.next (.string arityMessage)
      p.next.next.next.next.next :=
    gives_power (text ▸ .string _)
      (gives_access (by simp [text]) (gives_string text) (gives_accessRest (.stops ends) _))
      (.stops ends)
  have list := gives_argument (by simp [text]) (by simp [text])
    (gives_assignment (by simp [text]) (by simp [round]) (gives_alone argument ends) rfl ends false)
    round
  have made : Gives (power c) p.next arityError p.next.next.next.next.next.next :=
    gives_power (new ▸ .name "new" (by decide))
      (gives_new new (gives_construction (by decide) named opens list)
        (gives_accessRest (.stops stops) _))
      (.stops stops)
  have value : Gives (expression c) p.next arityError p.next.next.next.next.next.next :=
    gives_expression
      (gives_assignment (by simp [new]) (by simp [named]) (gives_alone made stops) rfl stops false)
      (by simp [closing])
  refine ⟨_, gives_throw word ?_ (by simp [new]) value closing, at_end⟩
  rw [at_new.afterBreak]
  rfl

theorem statement_check {r : List Stmt × Place} {first : List Char}
    (at_p : Place.Before tail (lead first (checkLexemes [countLexeme n] outer inner)) p)
    (read : statement c fuel p = some r) : ∃ no, r.1 = [arityCheck n no] := by
  have at_open := at_p.next
  have at_count := at_open.next
  have round : p.next.token = .mark "(" := at_open.token
  obtain ⟨p₁, count, at_close⟩ := gives_count (c := c) at_count rfl
  have at_brace := at_close.next
  have brace : p₁.next.token = .mark "\x7b" := at_brace.token
  have at_throw := at_brace.next
  have word : p₁.next.next.token = .name "throw" false := at_throw.token
  obtain ⟨p₂, throwing, at_end⟩ := gives_throw_arity (c := c) at_throw rfl
  exact statement_if at_p.token (gives_condition round count at_close.token)
    (gives_single (gives_block brace (by simp [word]) throwing ⟨rfl, fun _ => rfl⟩ at_end.token))
    read

theorem body_check {first : List Char} {body : List Stmt} {stop : Nat}
    (at_p : Place.Before tail (lead first (checkLexemes [countLexeme n] outer inner)) p)
    (read : blockRest c fuel [] p = some ((body, stop), p')) :
    ∃ otherwise rest, body = arityCheck n otherwise :: rest := by
  have word : p.token = .name "if" false := at_p.token
  cases fuel with
  | zero => cases read
  | succ fuel =>
    rw [blockRest, bind_run, atMark_run, Option.bind_some] at read
    simp only [word, reduceCtorEq, decide_false, Bool.false_eq_true, if_false, bind_run,
      Option.bind_eq_some_iff] at read
    obtain ⟨⟨more, p₁⟩, statement_read, left⟩ := read
    obtain ⟨otherwise, rfl⟩ := statement_check at_p statement_read
    obtain ⟨rest, rfl⟩ := blockRest_keeps left
    exact ⟨otherwise, rest, rfl⟩

/-! ## Parameters -/

/-- Written parameters up to their closing parenthesis, with their names. -/
inductive Named : List String → List Lexeme → Prop where
  | none {close : Lexeme} : close.token = .mark ")" → Named [] [close]
  | last {n : String} {isEscaped : Bool} {l close : Lexeme} : l.token = .name n isEscaped →
      n ∉ reserved → close.token = .mark ")" → Named [n] [l, close]
  | more {n : String} {isEscaped : Bool} {l comma : Lexeme} {ns : List String} {ls : List Lexeme} :
      l.token = .name n isEscaped → n ∉ reserved → comma.token = .mark "," → Named ns ls →
      Named (n :: ns) (l :: comma :: ls)

theorem gives_bindingElement {n : String} {isEscaped : Bool}
    (token : p.token = .name n isEscaped) (free : n ∉ reserved) (ends : p.next.token ≠ .mark "=") :
    Gives bindingElement p (.ident n) p.next
  | 0 => .inl rfl
  | 1 => .inl rfl
  | fuel + 2 => by
    refine .inr ?_
    simp [bindingElement, bindingTarget, bind_run, map_run, pure_run, takeMark_run, identifier_run,
      nameOf?, token, free, ends]

theorem gives_parameters {ns : List String} {ps : List Lexeme} (named : Named ns ps)
    (at_p : Place.Before tail (ps ++ ms) p) :
    ∃ p', Gives parameters p (ns.map .ident) p' ∧ Place.Before tail ms p' := by
  induction named generalizing p with
  | none closes =>
    have token : p.token = .mark ")" := at_p.token.trans closes
    refine ⟨p.next, .of_succ rfl fun fuel => .inr ?_, at_p.next⟩
    simp [parameters, bind_run, pure_run, takeMark_run, token]
  | last named free closes =>
    have token := at_p.token.trans named
    have closing : p.next.token = .mark ")" := at_p.next.token.trans closes
    refine ⟨p.next.next, .of_succ rfl fun fuel => ?_, at_p.next.next⟩
    rcases gives_bindingElement token free (by simp [closing]) fuel with fails | read
    · simp [parameters, bind_run, takeMark_run, token, fails]
    · simp [parameters, bind_run, pure_run, takeMark_run, token, read, closing]
  | more named free comma _ ih =>
    have token := at_p.token.trans named
    have between : p.next.token = .mark "," := at_p.next.token.trans comma
    obtain ⟨p', others, at_rest⟩ := ih at_p.next.next
    refine ⟨p', .of_succ rfl fun fuel => ?_, at_rest⟩
    rcases gives_bindingElement token free (by simp [between]) fuel with fails | read
    · simp [parameters, bind_run, takeMark_run, token, fails]
    rcases others fuel with fails | more
    · simp [parameters, bind_run, map_run, takeMark_run, expect_run, token, read, between, fails]
    · simp [parameters, bind_run, map_run, takeMark_run, expect_run, token, read, between, more]

/-! ## Functions -/

theorem namesAll_idents (ns : List String) : Expr.namesAll (ns.map .ident) = ns := by
  induction ns with
  | nil => rfl
  | cons n ns ih => simp [Expr.namesAll, Expr.names, ih]

/-- The written tokens of a function literal up to the end of its check, behind the keyword. -/
def headLexemes (ps : List Lexeme) (n : Nat) (outer inner : List Char) : List Lexeme :=
  markLexeme "(" :: (ps ++ (markLexeme "\x7b").after [' ']
    :: lead outer (checkLexemes [countLexeme n] outer inner))

theorem functionRest_checks {ns : List String} {ps : List Lexeme} {start : Place} {f : Function}
    (named : Named ns ps)
    (at_p : Place.Before tail (headLexemes ps ns.length outer inner) p)
    (read : functionRest start none fuel p = some (f, p')) :
    ∃ otherwise rest, f.Checks ns otherwise rest := by
  have opens : p.token = .mark "(" := at_p.token
  obtain ⟨p₁, params, at_brace⟩ := gives_parameters named at_p.next
  have brace : p₁.token = .mark "\x7b" := at_brace.token
  have at_check := at_brace.next
  have word : p₁.next.token = .name "if" false := at_check.token
  cases fuel with
  | zero => cases read
  | succ fuel =>
    rw [functionRest, bind_run, expect_run, if_pos opens, Option.bind_some, bind_run] at read
    rcases params fuel with fails | params_read
    · simp [fails] at read
    rw [params_read, Option.bind_some, bind_run, expect_run, if_pos brace, Option.bind_some,
      bind_run, Option.bind_eq_some_iff] at read
    obtain ⟨⟨⟨body, stop⟩, p₂⟩, body_read, read⟩ := read
    obtain ⟨otherwise, rest, rfl⟩ := body_check at_check body_read
    obtain ⟨_, -, made⟩ := Option.bind_eq_some_iff.1 read
    cases made
    refine ⟨otherwise, rest, rfl, rfl, ?_, namesAll_idents ns, rfl, rfl⟩
    simp [Function.info, makeFunction, isName]

/-- A function literal whose text begins with the check is read as a function that makes it. -/
theorem primary_checks {ns : List String} {ps : List Lexeme} {e : Expr} (named : Named ns ps)
    (word : p.token = .name "function" false)
    (at_next : Place.Before tail (headLexemes ps ns.length outer inner) p.next)
    (read : primary c fuel p = some (e, p')) :
    ∃ f otherwise rest, e = .function f ∧ f.Checks ns otherwise rest := by
  have opens : p.next.token = .mark "(" := at_next.token
  cases fuel with
  | zero => cases read
  | succ fuel =>
    rw [primary, bind_run, get_run, Option.bind_some] at read
    simp only [word, bind_run, advance_run, atMark_run, Option.bind_some, opens, decide_true,
      if_true, pure_run, Option.bind_eq_some_iff] at read
    obtain ⟨⟨f, p₁⟩, rest_read, done⟩ := read
    obtain ⟨otherwise, rest, checks⟩ := functionRest_checks named at_next rest_read
    cases done
    exact ⟨f, otherwise, rest, rfl, checks⟩

end Parser

end EggLang.Script
