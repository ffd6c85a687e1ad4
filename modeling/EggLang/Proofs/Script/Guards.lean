import EggLang.Proofs.Script.Extension
import EggLang.Proofs.Script.Rows

/-!
# Conditions compared with `false`

A condition is tested by the comparison with `false` that is written behind it. Operators of its
level group to the left, and all other operators of the condition bind more tightly, so its first
operand is the whole condition, however the operands in it group.
-/

namespace EggLang.Script

/-- The test that an expression is other than the boolean `false`. -/
def Expr.guard (e : Expr) : Expr := .binary .strictUnequal e (.bool false)

namespace Parser

open Script.Place (Facing Both Lost ahead)

variable {text rest : List Char} {c : Surround} {p q : Place} {e : Expr} {fuel o : Nat}

/-- What stands behind a condition. -/
def guardText : List Char := " !== false".toList

/-- The text is read as the expression, to its end. -/
def Parses (c : Surround) (fuel : Nat) (text : List Char) (e : Expr) : Prop :=
  ∃ q, Parser.expression c fuel (Place.first text) = some (e, q) ∧ q.token = .end

theorem ahead_nil : ahead [] = .end := by
  rw [ahead, Place.find]

theorem meets_end_closes : Meets Closes [] :=
  { meets_end with ahead := ⟨meets_end.ahead, by simp [ahead_nil]⟩ }

/-- An expression that is all of a text is read by the reader of operations. -/
theorem Formula.whole (h : Formula text) (parsed : Parses c fuel text e) :
    ∃ n q, fuel = n + 4 ∧ Parser.binary c 3 n (Place.first text) = some (e, q)
      ∧ q.token = .end := by
  obtain ⟨q, read, ends⟩ := parsed
  have at_text : Facing 0 (text ++ []) (Place.first text) :=
    (List.append_nil text).symm ▸ Place.facing_first text
  have start := h.starts meets_end.halts at_text
  obtain ⟨n₁, r₁, rfl, assignment_read, same₁⟩ := (expression_passes _).back read
  obtain ⟨n₂, r₂, rfl, conditional_read, same₂⟩ := assignment_back start.arrow assignment_read
  obtain ⟨n₃, r₃, rfl, circuit_read, same₃⟩ := (conditional_passes _).back conditional_read
  obtain ⟨n₄, r₄, rfl, binary_read, same₄⟩ := (shortCircuit_passes _).back circuit_read
  -- what the innermost of these readers gives ends at no token or at the end of the text
  have last : r₄.2.token = .illegal ∨ r₄.2.token = .end := by
    rcases h.binary c c meets_end meets_end ⟨at_text, at_text⟩ binary_read with
      lost | ⟨_, _, -, -, after⟩
    · exact .inl lost.token
    · exact .inr (after.first.token.trans ahead_nil)
  have quiet : Quiet r₄.2.token := by
    rcases last with illegal | ended
    · exact illegal ▸ .illegal
    · exact ended ▸ .stops .end
  have no_comma : r₄.2.token ≠ .mark "," := by rcases last with same | same <;> simp [same]
  obtain rfl := same₄ quiet
  obtain rfl := same₃ quiet
  obtain ⟨rfl, -⟩ := same₂ quiet
  obtain rfl := same₁ no_comma
  exact ⟨n₄, q, rfl, binary_read, ends⟩

/-- The word `false` as an operand. -/
theorem reads_false (stops : Meets Stops rest) (at_p : Facing o ("false".toList ++ rest) p) :
    Reaches (binary c 7) 5 p (.bool false) p.next ∧ Facing (o + 5) rest p.next := by
  have word := at_p.lexeme (l := wordLexeme "false") (lexes_word (by decide) stops.calm.endsName)
  have token : p.token = .name "false" false := word.token
  have ends : Stops p.next.token := word.next.token ▸ stops.ahead
  refine ⟨fun m enough => ?_, word.next⟩
  obtain ⟨n, rfl⟩ : ∃ n, m = n + 5 := ⟨m - 5, by omega⟩
  have value : primary c (n + 1) p = some (.bool false, p.next) := by
    rw [primary, bind_run, get_run, Option.bind_some]
    simp only [token]
    rfl
  have accessed : access c (n + 2) p = some (.bool false, p.next) := by
    rw [access_of_primary (by simp [token]) value, (Halts.stops ends).accessRest]
  have powered : power c (n + 4) p = some (.bool false, p.next) :=
    power_of_access (token ▸ .name "false" (by decide)) accessed (.stops ends)
  rw [binary_eq, powered, Option.bind_some, binaryRest_stuck (stuck_of_stops ends)]

/-- What is read as operations is the whole expression where one ends. -/
theorem Reaches.expression {n : Nat} (arrow : ∀ fuel, arrowHead fuel p = none)
    (part : Reaches (Parser.binary c 3) n p e q) (ends : Closes q.token)
    (plain : hasDefault e = false) : Reaches (Parser.expression c) (n + 4) p e q := by
  have quiet : Quiet q.token := .stops ends.1
  have circuit : Reaches (shortCircuit c) (n + 1) p e q :=
    part.then fun m done => (shortCircuit_passes p).forth done quiet
  have conditional : Reaches (Parser.conditional c) (n + 2) p e q :=
    circuit.then fun m done => (conditional_passes p).forth done quiet
  have assigned : Reaches (Parser.assignment c false) (n + 3) p e q :=
    conditional.assignment arrow quiet (by rw [plain]; rfl)
  exact assigned.then fun m done => (expression_passes p).forth done ends.2

/-- The comparison behind an operand. -/
theorem reads_guard (closes : Meets Closes rest) (at_p : Facing o (guardText ++ rest) p)
    (left : Nat) : ∃ q, Reaches (fun n => binaryRest c 3 n e) (left + 7) p e.guard q
      ∧ Facing (o + guardText.length) rest q := by
  have spaced : "!==" ∈ spacedMarks := infix_spaced (by decide)
  have token : p.token = .mark "!==" :=
    at_p.token.trans (ahead_operator spaced ("false".toList ++ rest))
  have level : operator? c p.token = some (6, .strict .strictUnequal) := by
    rw [token]
    rfl
  have at_false := (Both.operator spaced ⟨at_p, at_p⟩).first
  obtain ⟨false_reaches, at_rest⟩ := reads_false (c := c) closes.stops at_false
  have stops : Stops p.next.next.token := at_rest.token ▸ closes.stops.ahead
  refine ⟨p.next.next, fun m enough => ?_, ?_⟩
  · obtain ⟨k, rfl⟩ : ∃ k, m = k + 2 := ⟨m - 2, by omega⟩
    beta_reduce
    rw [binaryRest_operation level (by decide)]
    rw [show nextLevel 6 = 7 from rfl, false_reaches (k + 1) (by omega), Option.bind_some,
      binaryRest_stuck (stuck_of_stops stops)]
    rfl
  · have length : "!==".toList.length = 3 ∧ guardText.length = 10 := ⟨rfl, rfl⟩
    convert at_rest using 1
    omega

/-- Where an expression is all of a text, the text with the comparison behind it is read as the test
of the whole expression. -/
theorem Formula.guarded (h : Formula text) (c' : Surround) (parsed : Parses c fuel text e)
    (closes : Meets Closes rest) (at_p : Facing o (text ++ (guardText ++ rest)) p) :
    ∃ e' q, e.Alike e' ∧ Reaches (Parser.expression c') (fuel + 6) p e'.guard q
      ∧ Facing (o + text.length + guardText.length) rest q := by
  obtain ⟨n, q₁, rfl, binary_read, ends⟩ := h.whole parsed
  have unequal : "!==" ∈ infixes := by decide
  have start := h.starts (meets_operator unequal ("false".toList ++ rest)) at_p
  have loose : Loose c' (guardText ++ rest) := by
    refine ⟨meets_operator unequal ("false".toList ++ rest), fun level op found => ?_⟩
    have token : ahead (guardText ++ rest) = .mark "!==" :=
      ahead_operator (infix_spaced unequal) ("false".toList ++ rest)
    rw [token] at found
    cases found
    decide
  have both : Both 0 o (text ++ []) (text ++ (guardText ++ rest)) (Place.first text) p :=
    ⟨(List.append_nil text).symm ▸ Place.facing_first text, at_p⟩
  rcases h.climbs meets_end.loose loose both binary_read with
    lost | ⟨x, y, left, r₁, r₂, alike, after, done, onward⟩
  · cases lost.token.symm.trans ends
  have stuck : Stuck c 3 r₁.token := by
    rw [after.first.token]
    exact stuck_of_stops meets_end.ahead
  obtain ⟨same, left, rfl⟩ := binaryRest_back stuck done
  cases same
  obtain ⟨q, compared, at_rest⟩ := reads_guard (c := c') (e := y) closes after.second left
  have further : Onward (Parser.binary c' 3) (n + 6) p (fun m => binaryRest c' 3 m y)
      (left + 7) r₂ := fun k => by
    rw [Nat.add_assoc, show left + 7 + k = left + 1 + (6 + k) by omega]
    exact onward (6 + k)
  exact ⟨y, q, alike, Reaches.expression start.arrow (further.reaches compared)
    (at_rest.token ▸ closes.ahead) rfl, at_rest⟩

/-! ## Tests of statements -/

/-- A word with a test behind it, as conditionals and loops begin. -/
def testText (w : String) (text : List Char) : List Char :=
  w.toList ++ ' ' :: '(' :: (text ++ (guardText ++ [')']))

theorem Formula.test {w : String} (h : Formula text) (c' : Surround) (name : IsName w.toList)
    (parsed : Parses c fuel text e) (at_p : Facing o (testText w text ++ rest) p) :
    p.token = .name w false
      ∧ ∃ e' q, e.Alike e' ∧ Reaches (Parser.condition c') (fuel + 7) p.next e'.guard q := by
  have text_eq : testText w text ++ rest
      = w.toList ++ (' ' :: '(' :: (text ++ (guardText ++ (')' :: rest)))) := by
    simp [testText]
  rw [text_eq] at at_p
  have word := at_p.lexeme (l := wordLexeme w) (lexes_word name (calm_cons _ (by decide)).endsName)
  have spaced := word.next.space
  obtain ⟨opens, -, at_text⟩ := Both.bracket (m := "(") (by decide) ⟨spaced, spaced⟩
  have closes : Meets Closes (')' :: rest) :=
    meets_closing (m := ")") (by decide) rfl (by decide) ⟨.round, by decide⟩ rest
  obtain ⟨e', q, alike, reaches, at_close⟩ :=
    h.guarded c' parsed closes at_text.first
  obtain ⟨closed, -, -⟩ := Both.bracket (m := ")") (by decide) ⟨at_close, at_close⟩
  refine ⟨word.token, e', q.next, alike, reaches.then fun n done => ?_⟩
  rw [condition_eq opens, done, Option.bind_some, if_pos closed]

/-- A conditional with such a test is read with the whole condition in it. -/
theorem Formula.if_test (h : Formula text) (c' : Surround) (parsed : Parses c fuel text e)
    (at_p : Facing o (testText "if" text ++ rest) p) {n : Nat} (enough : fuel + 8 ≤ n)
    {ss : List Stmt} (done : statement c' n p = some (ss, q)) :
    ∃ e' yes no, e.Alike e' ∧ ss = [.if e'.guard yes no] := by
  obtain ⟨m, rfl⟩ : ∃ m, n = m + 1 := ⟨n - 1, by omega⟩
  obtain ⟨word, e', r, alike, reaches⟩ := h.test c' (by decide) parsed at_p
  rw [statement_if_eq word, reaches m (by omega), Option.bind_some,
    Option.bind_eq_some_iff] at done
  obtain ⟨⟨yes, r₁⟩, -, done⟩ := done
  split at done
  · obtain ⟨⟨no, r₂⟩, -, same⟩ := Option.bind_eq_some_iff.1 done
    cases same
    exact ⟨e', yes, no, alike, rfl⟩
  · cases done
    exact ⟨e', yes, .empty, alike, rfl⟩

/-- A loop with such a test is read with the whole condition in it. -/
theorem Formula.while_test (h : Formula text) (c' : Surround) (parsed : Parses c fuel text e)
    (at_p : Facing o (testText "while" text ++ rest) p) {n : Nat} (enough : fuel + 8 ≤ n)
    {ss : List Stmt} (done : statement c' n p = some (ss, q)) :
    ∃ e' body, e.Alike e' ∧ ss = [.while e'.guard body] := by
  obtain ⟨m, rfl⟩ : ∃ m, n = m + 1 := ⟨n - 1, by omega⟩
  obtain ⟨word, e', r, alike, reaches⟩ := h.test c' (by decide) parsed at_p
  rw [statement_while_eq word, reaches m (by omega), Option.bind_some,
    Option.bind_eq_some_iff] at done
  obtain ⟨⟨body, r₁⟩, -, same⟩ := done
  cases same
  exact ⟨e', body, alike, rfl⟩

end Parser

namespace Action

/-! ## What the test gives -/

theorem binary_unequal_false (v : Value) :
    binary .strictUnequal v (.bool false) = pure (.bool (decide (v ≠ .bool false))) := by
  cases v <;> simp [binary, Value.strictEquals]

theorem eval_guard (ctx : Context) (e : Expr) : eval ctx e.guard
    = eval ctx e >>= fun v => pure (.bool (decide (v ≠ .bool false))) := by
  have parts : eval ctx e.guard = eval ctx e >>= fun v => eval ctx (.bool false) >>= fun w =>
      binary .strictUnequal v w := rfl
  have word : eval ctx (.bool false) = pure (.bool false) := rfl
  funext k h s
  rw [parts, word, bind_run, bind_run]
  congr 1
  funext v t
  exact congrFun (congrFun (congrFun (binary_unequal_false v) k) h) t

/-- Only the boolean `false` takes the other branch. -/
theorem exec_guard (ctx : Context) (labels : List String) (e : Expr) (yes no : Stmt) :
    exec ctx labels (.if e.guard yes no)
      = eval ctx e >>= fun v => exec ctx [] (if v = .bool false then no else yes) := by
  have parts : exec ctx labels (.if e.guard yes no) = eval ctx e.guard >>= fun v =>
      if v.isTruthy then exec ctx [] yes else exec ctx [] no := rfl
  funext k h s
  rw [parts, eval_guard]
  simp only [bind_run]
  congr 1
  funext v t
  by_cases same : v = .bool false <;> simp [same, pure_run, Value.isTruthy]

/-- Only the boolean `false` ends a loop before a round. -/
theorem round_guard (labels : List String) (scope : Nat) (e : Expr) (body : Stmt) :
    round (.steps labels scope [] e.guard .hole body true)
      = eval (.within scope) e >>= fun v => if v = .bool false then pure (.normal none)
        else round (.steps labels scope [] e.guard .hole body false) := by
  funext k h s
  simp only [round, stepsRound, bind_run, eval_guard]
  simp only [if_true, bind_run]
  congr 1
  funext v t
  by_cases same : v = .bool false <;> simp [same, pure_run, bind_run, Value.isTruthy]

end Action

end EggLang.Script
