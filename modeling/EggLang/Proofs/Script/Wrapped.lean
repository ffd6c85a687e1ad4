import EggLang.Proofs.Script.Failing

/-!
# Scripts that call a function around their lines

An executor runs the lines of a program as the body of a function that is called where it stands.
What such a script is read as is told by what its lines are read as.
-/

namespace EggLang.Script.Parser

variable {c : Surround} {p p' : Place} {n fuel : Nat} {x : Expr} {ls rest : List Lexeme}

/-! ## Single expressions -/

theorem Opening.expression_fails (h : Opening ls) (at_p : Place.At ls p)
    (fails : access c n p = none) : expression c (n + 7) p = none :=
  Parser.expression_fails (h.arrowHead at_p _)
    (conditional_fails (binary_fails (power_fails (at_p.token ▸ h.begins) fails)))

/-- An operand is an expression where one ends. -/
theorem Opening.expression_gives (h : Opening ls) (at_p : Place.At ls p)
    (read : access c n p = some (x, p')) (plain : hasDefault x = false) (stops : Stops p'.token)
    (last : p'.token ≠ .mark ",") : expression c (n + 7) p = some (x, p') := by
  have ends : operator? c p'.token = none := stops.operator?
  have powered : power c (n + 2) p = some (x, p') :=
    power_of_access (at_p.token ▸ h.begins) read (.stops stops)
  have binary_read : binary c 3 (n + 3) p = some (x, p') := by
    rw [binary_eq, powered]
    exact binaryRest_ends ends
  have assigned : assignment c false (n + 6) p = some (x, p') := by
    rw [assignment_gives (h.arrowHead at_p _)
      (conditional_of_binary binary_read (.stops stops) ends) (.stops stops), plain]
    rfl
  exact (expression_passes p).forth assigned last

/-! ## The function -/

/-- The written tokens that call the function that ends before them. -/
def calledLexemes : List Lexeme := [markLexeme ")", markLexeme "(", markLexeme ")"]

/-- The written tokens of the call of a function around the given ones. -/
def callLexemes (ls : List Lexeme) : List Lexeme :=
  markLexeme "(" :: wordLexeme "function" :: markLexeme "(" :: markLexeme ")"
    :: (markLexeme "\x7b").after [' '] :: (ls ++ (markLexeme "\x7d").after ['\n'] :: calledLexemes)

/-- The function around statements that stands in a script from a place on. -/
def wrapper (start : Place) (extent : Nat) (body : List Stmt) : Function :=
  makeFunction .normal none start extent [] body

theorem functionRest_nullary (opens : p.token = .mark "(") (closes : p.next.token = .mark ")")
    (starts : p.next.next.token = .mark "\x7b") (start : Place) :
    functionRest start none (fuel + 2) p
      = (blockRest .function (fuel + 1) [] p.next.next.next).bind fun r =>
        (checkFunction .normal [] r.1.1 r.2).bind fun e =>
          some (wrapper start (r.1.2 - start.start) r.1.1, e.2) := by
  have params : parameters (fuel + 1) p.next = some ([], p.next.next) :=
    lists_parameters.empty closes
  rw [functionRest, bind_run, expect_run, if_pos opens, Option.bind_some, bind_run, params,
    Option.bind_some, bind_run, expect_run, if_pos starts, Option.bind_some, bind_run]
  rfl

theorem checkFunction_plain {body : List Stmt} (plain : ∀ s ∈ body, Plain s) :
    checkFunction .normal [] body p = some ((), p) := by
  simp [checkFunction, bind_run, require_run, isWellScoped_plain plain]

/-- The script that calls a function. -/
def callOf (f : Function) : List Stmt := [.expression (.call false (.function f) [])]

theorem length_le_sources {tail : List Char} (lexed : LexedBefore tail ls) :
    ls.length ≤ (sources ls).length := by
  induction ls with
  | nil => simp
  | cons l ls ih =>
    obtain ⟨⟨-, c, rest, text, -⟩, others⟩ := lexed
    have := ih others
    simp [Lexeme.source, text]
    omega

/-- The place at which a script begins that is one expression. -/
theorem program_expression (leads : Leads p.token) :
    (expression {} (fuel + 1) p = none → program (fuel + 3) [] p = none)
      ∧ ∀ x q, expression {} (fuel + 1) p = some (x, q) → Place.At [] q →
        program (fuel + 3) [] p = some ([.expression x], q) := by
  have begins : p.token ≠ .end := by
    intro same
    rw [same] at leads
    cases leads
  refine ⟨fun fails => ?_, fun x q read at_end => ?_⟩
  all_goals rw [program, bind_run, peek_run, Option.bind_some, if_neg begins, bind_run]
  · rw [statement_leads leads, fails]
    rfl
  · have well : isWellScoped [] [.expression x] true = true :=
      isWellScoped_plain (List.forall_mem_singleton.2 ⟨rfl, fun _ => rfl⟩) [] true
    rw [statement_expression leads read at_end .nothing, Option.bind_some]
    change program (fuel + 2) [.expression x] q = _
    rw [program, bind_run, peek_run, Option.bind_some,
      if_pos (show q.token = .end from at_end.token)]
    simp [bind_run, require_run, well, pure_run]

/-- What the call of a function is read as is told by what the lines in it are read as. -/
theorem parse_call (lexed : LexedBefore [] (callLexemes ls)) :
    ∃ fuel start p, 16 * ls.length + 8 ≤ fuel
      ∧ Place.At (ls ++ (markLexeme "\x7d").after ['\n'] :: calledLexemes) p
      ∧ (blockRest .function fuel [] p = none → parse? (sources (callLexemes ls)) = none)
      ∧ ∀ body stop q, blockRest .function fuel [] p = some ((body, stop), q) →
        (∀ s ∈ body, Plain s) → Place.At calledLexemes q →
        parse? (sources (callLexemes ls))
          = some (callOf (wrapper start (stop - start.start) body)) := by
  have short := length_le_sources lexed
  have longer : ls.length ≤ (callLexemes ls).length := by
    simp only [callLexemes, List.length_cons, List.length_append]
    omega
  obtain ⟨fuel, enough⟩ : ∃ f, fuelFor (sources (callLexemes ls)).length = f + 22 :=
    ⟨32 * (sources (callLexemes ls)).length + 42, by simp [fuelFor]; omega⟩
  have at_p := Place.At.first lexed
  rw [parse?, enough]
  change ∃ n start p, _ ∧ _
    ∧ (_ → (program (fuel + 22) [] (Place.first (sources (callLexemes ls)))).map (·.1) = none)
    ∧ ∀ body stop q, _ → _ → _ →
      (program (fuel + 22) [] (Place.first (sources (callLexemes ls)))).map (·.1) = _
  generalize Place.first (sources (callLexemes ls)) = p at at_p
  have first : p.token = .mark "(" := at_p.token
  have word : p.next.token = .name "function" false := at_p.next.token
  have opens : p.next.next.token = .mark "(" := at_p.next.next.token
  have outer : Opening (callLexemes ls) := .round rfl rfl
  have inner : Opening (callLexemes ls).tail := .name "function" rfl (by decide)
    (by simp [markLexeme])
  have at_inner : Place.At (callLexemes ls).tail p.next := at_p.next
  have function_eq : primary {} (fuel + 3) p.next = _ := primary_function word opens
  rw [functionRest_nullary opens at_p.next.next.next.token at_p.next.next.next.next.token]
    at function_eq
  have access_eq : ∀ {p : Place} (n : Nat), p.token ≠ .name "new" false →
      access {} (n + 1) p = (primary {} n p).bind fun r => accessRest {} true false n r.1 r.2 :=
    fun n plain => Parser.access_eq plain
  refine ⟨fuel + 1, p.next, _, ?_, at_p.next.next.next.next.next, fun fails => ?_,
    fun body stop q read plain at_q => ?_⟩
  · simp only [fuelFor] at enough
    omega
  · have literal : expression {} (fuel + 11) p.next = none := by
      refine inner.expression_fails at_inner ?_
      rw [access_eq _ (by simp [word]), function_eq, fails]
      rfl
    have call : expression {} (fuel + 20) p = none := by
      refine outer.expression_fails at_p ?_
      rw [access_eq _ (by simp [first]), primary_parenthesis first,
        show expression (Surround.inside {}) (fuel + 11) p.next = none from literal]
      rfl
    rw [(program_expression (first ▸ .round)).1 call]
    rfl
  · have closes : q.token = .mark ")" := at_q.token
    have stops : Stops q.token := closes ▸ .round
    have literal : expression {} (fuel + 11) p.next
        = some (.function (wrapper p.next (stop - p.next.start) body), q) := by
      refine inner.expression_gives at_inner ?_ rfl stops (by simp [closes])
      rw [access_eq _ (by simp [word]), function_eq, read, Option.bind_some,
        checkFunction_plain plain]
      exact (Halts.stops stops).accessRest true (fuel + 2) _
    let f := wrapper p.next (stop - p.next.start) body
    let r : Place := { q.next with reached := q.reached }
    have callee : primary {} (fuel + 12) p = some (.function f, r) := by
      rw [primary_parenthesis first,
        show expression (Surround.inside {}) (fuel + 11) p.next = _ from literal, Option.bind_some,
        if_pos closes]
    have at_call : Place.At calledLexemes.tail r := at_q.next.setReached q.reached
    have at_end : Place.At [] r.next.next := at_call.next.next
    have stops : Stops r.next.next.token := at_end.token ▸ .end
    have called : access {} (fuel + 13) p = some (.call false (.function f) [], r.next.next) := by
      rw [access_eq _ (by simp [first]), callee, Option.bind_some,
        accessRest_call at_call.token, (lists_arguments _).empty at_call.next.token,
        Option.bind_some]
      exact (Halts.stops stops).accessRest true (fuel + 10) _
    have whole := outer.expression_gives at_p called rfl stops (by simp [at_end.token])
    rw [(program_expression (first ▸ .round)).2 _ _ whole at_end]
    rfl

/-- A script is malformed that calls a function around lines that fail. -/
theorem Dead.parse_call (h : Dead ls) (lexed : LexedBefore [] (callLexemes ls)) :
    parse? (sources (callLexemes ls)) = none := by
  obtain ⟨fuel, start, p, enough, at_p, fails, -⟩ := Parser.parse_call lexed
  exact fails (h.fails .function fuel [] _ p rfl enough at_p)

/-- A script that calls a function around statements. -/
theorem Body.parse_call (h : Body ls) (lexed : LexedBefore [] (callLexemes ls)) :
    ∃ f, parse? (sources (callLexemes ls)) = some (callOf f) := by
  obtain ⟨fuel, start, p, enough, at_p, -, gives⟩ := Parser.parse_call lexed
  obtain ⟨body, q, stop, read, plain, at_q⟩ :=
    h.reads .function fuel [] _ _ p rfl enough rfl at_p
  exact ⟨_, gives body stop q read plain at_q⟩

end EggLang.Script.Parser
