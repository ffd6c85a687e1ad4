import EggLang.Proofs.Script.Statements

/-!
# The only outcome of a reading

Fuel bounds how deep a reading goes and has no part in what it gives. `Gives` says so of a reading
at a place: whatever fuel it has, it gives one outcome or nothing. Each form of the grammar passes
this on from its parts, so it holds of a text as soon as its tokens are known.
-/

namespace EggLang.Script.Parser

variable {α : Type}

/-- Whatever fuel it has, a reading gives this outcome at a place, or nothing. -/
def Gives (read : Nat → Parse α) (p : Place) (a : α) (p' : Place) : Prop :=
  ∀ fuel, read fuel p = none ∨ read fuel p = some (a, p')

variable {read : Nat → Parse α} {a : α} {p p' : Place}

theorem Gives.of_succ (zero : read 0 = malformed)
    (succ : ∀ fuel, read (fuel + 1) p = none ∨ read (fuel + 1) p = some (a, p')) :
    Gives read p a p'
  | 0 => .inl (by rw [zero]; rfl)
  | fuel + 1 => succ fuel

variable {c : Surround} {p₁ p₂ : Place} {x y z : Expr} {n : String} {least level : Nat}

/-! ## Primary expressions and accesses -/

theorem gives_ident (free : n ∉ reserved) (token : p.token = .name n false) :
    Gives (primary c) p (.ident n) p.next :=
  .of_succ rfl fun _ => .inr (primary_name free token)

theorem gives_number {v : Numeric} (token : p.token = .number v) :
    Gives (primary c) p (.number v) p.next := by
  refine .of_succ rfl fun fuel => .inr ?_
  rw [primary, bind_run, get_run, Option.bind_some]
  simp only [token]
  rfl

theorem gives_string {u : Units} (token : p.token = .string u) :
    Gives (primary c) p (.string u) p.next := by
  refine .of_succ rfl fun fuel => .inr ?_
  rw [primary, bind_run, get_run, Option.bind_some]
  simp only [token]
  rfl

theorem gives_accessRest (halts : Halts p.token) (x : Expr) :
    Gives (fun fuel => accessRest c true false fuel x) p x p :=
  .of_succ rfl fun fuel => .inr (halts.accessRest true fuel x)

theorem gives_member (dot : p.token = .mark ".") (token : p.next.token = .name n false)
    (rest : Gives (fun fuel => accessRest c true false fuel (.member false x (Units.ofString n)))
      p.next.next y p₁) :
    Gives (fun fuel => accessRest c true false fuel x) p y p₁ := by
  refine .of_succ rfl fun fuel => ?_
  have step : accessRest c true false (fuel + 1) x p
      = accessRest c true false fuel (.member false x (Units.ofString n)) p.next.next := by
    simp [accessRest, accessRest.memberName, bind_run, map_run, peek_run, advance_run, dot, token]
  rw [step]
  exact rest fuel

theorem gives_access (first : p.token ≠ .name "new" false) (head : Gives (primary c) p x p₁)
    (rest : Gives (fun fuel => accessRest c true false fuel x) p₁ y p₂) :
    Gives (access c) p y p₂ := by
  refine .of_succ rfl fun fuel => ?_
  rw [access, bind_run, takeWord_run, if_neg first, Option.bind_some]
  rcases head fuel with fails | read
  · simp [bind_run, fails]
  · simpa [bind_run, read] using rest fuel

/-! ## Operations -/

theorem gives_power (begins : Begins p.token) (operand : Gives (access c) p x p₁)
    (halts : Halts p₁.token) : Gives (power c) p x p₁
  | 0 => .inl rfl
  | 1 => .inl (by rw [power, bind_run, atMark_run]; rfl)
  | fuel + 2 => by
    rcases operand fuel with fails | read
    · refine .inl ?_
      rw [power, bind_run, atMark_run, Option.bind_some, bind_run, unary, bind_run, peek_run,
        Option.bind_some, begins.unary?]
      simp [begins.update?, bind_run, takeWord_run, begins.not_delete, fails]
    · exact .inr (power_of_access begins read halts)

theorem gives_binaryRest (ends : operator? c p.token = none) (x : Expr) :
    Gives (fun fuel => binaryRest c least fuel x) p x p :=
  .of_succ rfl fun _ => .inr (binaryRest_ends ends)

theorem gives_operation {op : BinaryOp} (found : operator? c p.token = some (level, .strict op))
    (tight : least ≤ level)
    (right : Gives (binary c (if level = comparisonLevel then level else level + 1)) p.next y p₁)
    (rest : Gives (fun fuel => binaryRest c least fuel (.binary op x y)) p₁ z p₂) :
    Gives (fun fuel => binaryRest c least fuel x) p z p₂ := by
  refine .of_succ rfl fun fuel => ?_
  rw [binaryRest, bind_run, peek_run, Option.bind_some]
  simp only [found, if_neg (Nat.not_lt.2 tight), bind_run, advance_run, Option.bind_some]
  rcases right fuel with fails | read
  · simp [fails]
  · simpa [read, Operator.apply] using rest fuel

theorem gives_binary (left : Gives (power c) p x p₁)
    (rest : Gives (fun fuel => binaryRest c least fuel x) p₁ y p₂) :
    Gives (binary c least) p y p₂ := by
  refine .of_succ rfl fun fuel => ?_
  rw [binary, bind_run]
  rcases left fuel with fails | read
  · simp [fails]
  · simpa [read] using rest fuel

theorem gives_alone (operand : Gives (power c) p x p₁) (stops : Stops p₁.token) :
    Gives (binary c least) p x p₁ :=
  gives_binary operand (gives_binaryRest stops.operator? x)

/-! ## Whole expressions -/

theorem gives_conditional (operation : Gives (binary c 3) p x p₁) (stops : Stops p₁.token) :
    Gives (conditional c) p x p₁
  | 0 => .inl rfl
  | 1 => .inl rfl
  | fuel + 2 => by
    rcases operation fuel with fails | read
    · exact .inl (by rw [conditional, bind_run, shortCircuit, bind_run, fails]; rfl)
    · exact .inr (conditional_of_binary read (.stops stops) stops.operator?)

theorem arrowHead_fails (first : p.token ≠ .mark "(") (second : p.next.token ≠ .mark "=>") :
    ∀ fuel, arrowHead fuel p = none
  | 0 => rfl
  | fuel + 1 => by
    rw [arrowHead, bind_run, get_run, Option.bind_some, bind_run, takeMark_run, if_neg first]
    cases named : nameOf? p.token with
    | none => simp [bind_run, identifier_run, named]
    | some n =>
      by_cases broken : p.next.afterBreak = true <;>
        simp [bind_run, map_run, identifier_run, named, get_run, require_run, expect_run, second,
          broken]

theorem gives_assignment (first : p.token ≠ .mark "(") (second : p.next.token ≠ .mark "=>")
    (operation : Gives (binary c 3) p x p₁) (plain : hasDefault x = false)
    (stops : Stops p₁.token) (cover : Bool) : Gives (assignment c cover) p x p₁ := by
  refine .of_succ rfl fun fuel => ?_
  rw [assignment, bind_run, attempt_run _ _ (arrowHead_fails first second fuel), Option.bind_some]
  simp only [bind_run, atMark_run, Option.bind_some, peek_run]
  rcases gives_conditional operation stops fuel with fails | read
  · simp [fails]
  · generalize token : p₁.token = t at stops
    have free : ∀ m, t = .mark m → compounds.lookup m = none := fun m same =>
      (same ▸ stops).not_compound
    have checked : (require (cover || !hasDefault x)) p₁ = some ((), p₁) := by
      simp [require_run, plain]
    simp only [read, Option.bind_some, token]
    cases stops <;> simp [free, bind_run, pure_run, checked]

theorem gives_expression (part : Gives (assignment c false) p x p₁)
    (ends : p₁.token ≠ .mark ",") : Gives (expression c) p x p₁
  | 0 => .inl rfl
  | 1 => .inl rfl
  | fuel + 2 => by
    rw [expression, bind_run]
    rcases part (fuel + 1) with fails | read
    · simp [fails]
    · simp [read, expressionRest, bind_run, takeMark_run, ends, pure_run]

/-- A single argument. -/
theorem gives_argument (first : p.token ≠ .mark ")") (spread : p.token ≠ .mark "...")
    (part : Gives (assignment c false) p x p₁) (closes : p₁.token = .mark ")") :
    Gives (arguments c) p [x] p₁.next := by
  refine .of_succ rfl fun fuel => ?_
  rw [arguments, bind_run, takeMark_run, if_neg first]
  rcases part fuel with fails | read
  · simp [bind_run, takeMark_run, spread, fails]
  · simp [bind_run, takeMark_run, spread, read, closes, pure_run]

/-- A construction with arguments, behind its keyword. -/
theorem gives_construction {args : List Expr} (free : n ∉ reserved)
    (token : p.token = .name n false) (opens : p.next.token = .mark "(")
    (list : Gives (arguments c.inside) p.next.next args p₁) :
    Gives (construction c) p (.construct (.ident n) args) p₁
  | 0 => .inl rfl
  | 1 => .inl (by
      have other : n ≠ "new" := fun same => free (same ▸ by decide)
      simp [construction, bind_run, takeMark_run, takeWord_run, token, other, primary, malformed])
  | fuel + 2 => by
    have other : n ≠ "new" := fun same => free (same ▸ by decide)
    have callee : accessRest c false false (fuel + 1) (.ident n) p.next
        = some (.ident n, p.next) := by
      rw [accessRest, bind_run, peek_run, Option.bind_some, opens]
      rfl
    rw [construction]
    simp only [bind_run, takeMark_run, takeWord_run, token, reduceCtorEq, if_false,
      Option.bind_some,
      Token.name.injEq, other, false_and, primary_name free token, callee, opens, if_true]
    rcases list (fuel + 1) with fails | read
    · simp [fails]
    · simp [read, pure_run]

theorem gives_new (word : p.token = .name "new" false)
    (made : Gives (construction c) p.next x p₁)
    (rest : Gives (fun fuel => accessRest c true false fuel x) p₁ y p₂) :
    Gives (access c) p y p₂ := by
  refine .of_succ rfl fun fuel => ?_
  rw [access, bind_run, takeWord_run, if_pos word, Option.bind_some]
  rcases made fuel with fails | read
  · simp [bind_run, fails]
  · simpa [bind_run, read] using rest fuel

/-! ## Statements -/

theorem gives_throw (word : p.token = .name "throw" false) (sameLine : p.next.afterBreak = false)
    (more : p.next.token ≠ .end) (part : Gives (expression c) p.next x p₁)
    (closes : p₁.token = .mark "\x7d") : Gives (statement c) p [.throw x] p₁ := by
  refine .of_succ rfl fun fuel => ?_
  rw [statement, bind_run, get_run, Option.bind_some]
  simp only [word, bind_run, advance_run, Option.bind_some, onNewLine_run, sameLine, more]
  rcases part fuel with fails | read
  · simp [require_run, fails]
  · simp [require_run, read, endStatement, bind_run, takeMark_run, onNewLine_run, atMark_run,
      closes, pure_run]

/-- A block of one statement that declares nothing. -/
theorem gives_block {s : Stmt} (opens : p.token = .mark "\x7b")
    (starts : p.next.token ≠ .mark "\x7d") (part : Gives (statement c) p.next [s] p₁)
    (plain : Plain s) (closes : p₁.token = .mark "\x7d") :
    Gives (statement c) p [.block [s]] p₁.next := by
  have well : isWellScoped [] [s] false = true :=
    isWellScoped_plain (List.forall_mem_singleton.2 plain) [] false
  have body : Gives (fun fuel => blockRest c fuel []) p.next ([s], p₁.stop) p₁.next
    | 0 => .inl rfl
    | 1 => .inl (by simp [blockRest, bind_run, atMark_run, starts, statement, malformed])
    | fuel + 2 => by
      rcases part (fuel + 1) with fails | read
      · simp [blockRest, bind_run, atMark_run, starts, fails]
      · simp [blockRest, bind_run, map_run, atMark_run, get_run, advance_run, starts, read, closes]
  have inner : Gives (block c) p.next (.block [s]) p₁.next := by
    refine .of_succ rfl fun fuel => ?_
    rcases body fuel with fails | read
    · simp [block, bind_run, fails]
    · simp [block, bind_run, read, map_run, require_run, well]
  refine .of_succ rfl fun fuel => ?_
  rw [statement, bind_run, get_run, Option.bind_some]
  simp only [opens, bind_run, advance_run, Option.bind_some]
  rcases inner fuel with fails | read
  · simp [fails]
  · simp [read, pure_run]

theorem gives_single {s : Stmt} (part : Gives (statement c) p [.block [s]] p₁) :
    Gives (single c) p (.block [s]) p₁ := by
  refine .of_succ rfl fun fuel => ?_
  rcases part fuel with fails | read
  · simp [single, bind_run, fails]
  · exact .inr (by rw [single, bind_run, read]; rfl)

theorem gives_condition (opens : p.token = .mark "(") (part : Gives (expression c) p.next x p₁)
    (closes : p₁.token = .mark ")") : Gives (condition c) p x p₁.next := by
  refine .of_succ rfl fun fuel => ?_
  rcases part fuel with fails | read
  · simp [condition, bind_run, expect_run, opens, fails]
  · simp [condition, bind_run, map_run, expect_run, opens, read, closes]

/-- What stands behind the branch of a conditional is its other branch, if there is one. -/
theorem statement_if {s : Stmt} {fuel : Nat} {r : List Stmt × Place}
    (word : p.token = .name "if" false) (test : Gives (condition c) p.next x p₁)
    (branch : Gives (single c) p₁ s p₂) (read : statement c fuel p = some r) :
    ∃ no, r.1 = [.if x s no] := by
  cases fuel with
  | zero => cases read
  | succ fuel =>
    rw [statement, bind_run, get_run, Option.bind_some] at read
    simp only [word, bind_run, advance_run, Option.bind_some] at read
    rcases test fuel with fails | cond_read
    · simp [fails] at read
    rcases branch fuel with fails | branch_read
    · simp [cond_read, fails] at read
    simp only [cond_read, branch_read, Option.bind_some, takeWord_run] at read
    by_cases other : p₂.token = .name "else" false
    · simp only [other, if_true, Option.bind_some, bind_run, Option.bind_eq_some_iff] at read
      obtain ⟨⟨no, _⟩, -, done⟩ := read
      exact ⟨no, by cases done; rfl⟩
    · simp only [other, if_false, Option.bind_some] at read
      exact ⟨.empty, by cases read; rfl⟩

/-- The statements that a block has read stay where they are. -/
theorem blockRest_keeps {fuel : Nat} {done body : List Stmt} {stop : Nat}
    (read : blockRest c fuel done p = some ((body, stop), p')) :
    ∃ rest, body = done.reverse ++ rest := by
  induction fuel generalizing done p with
  | zero => cases read
  | succ fuel ih =>
    rw [blockRest, bind_run, atMark_run, Option.bind_some] at read
    by_cases closes : p.token = .mark "\x7d"
    · simp [closes, bind_run, map_run, get_run, advance_run] at read
      exact ⟨[], by simp [read.1.1]⟩
    · simp only [closes, decide_false, Bool.false_eq_true, if_false, bind_run,
        Option.bind_eq_some_iff] at read
      obtain ⟨⟨more, p₁⟩, -, left⟩ := read
      obtain ⟨rest, rfl⟩ := ih left
      exact ⟨more ++ rest, by simp⟩

end EggLang.Script.Parser
