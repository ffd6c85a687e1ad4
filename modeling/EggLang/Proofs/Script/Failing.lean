import EggLang.Proofs.Script.Clauses
import EggLang.Proofs.Script.Equations

/-!
# Lines that fail

A line that begins with an array without elements goes on the line before, unless a brace closes
that one: its brackets are read as an access, and nothing stands between them that says what is
accessed. No statement is read there, and no block around it.
-/

namespace EggLang.Script.Parser

variable {c : Surround} {p : Place} {n least fuel : Nat} {x : Expr} {ls ms rest : List Lexeme}

/-! ## Expressions that fail -/

variable {quiet : Token → Prop} {f g : Nat → Parse Expr}

theorem Passes.fails (h : Passes quiet f g p) (fails : g n p = none) : f (n + 1) p = none := by
  cases read : f (n + 1) p with
  | none => rfl
  | some z =>
    obtain ⟨m, r, same, found, -⟩ := h.back read
    cases same
    cases fails.symm.trans found

theorem Passes.never (h : Passes quiet f g p) (fails : ∀ n, g n p = none) (n : Nat) :
    f n p = none := by
  cases read : f n p with
  | none => rfl
  | some z =>
    obtain ⟨m, r, -, found, -⟩ := h.back read
    cases (fails m).symm.trans found

theorem power_fails (begins : Begins p.token) (fails : access c n p = none) :
    power c (n + 2) p = none :=
  (power_passes p).fails
    ((unary_passes begins.unary? begins.update? begins.not_delete).fails fails)

theorem binary_fails (fails : power c n p = none) : binary c least (n + 1) p = none := by
  rw [binary_eq, fails, Option.bind_none]

theorem conditional_fails (fails : binary c 3 n p = none) : conditional c (n + 2) p = none :=
  (conditional_passes p).fails ((shortCircuit_passes p).fails fails)

theorem expression_fails (arrow : arrowHead n p = none) (fails : conditional c n p = none) :
    expression c (n + 2) p = none :=
  (expression_passes p).fails (assignment_fails arrow fails)

/-- No expression begins with a closing bracket. -/
theorem expression_closes (closes : p.token = .mark "]") : ∀ n, expression c n p = none := by
  have primary_none : ∀ n, primary c n p = none
    | 0 => rfl
    | n + 1 => by simp [primary, bind_run, get_run, require_run, closes]
  have access_none : ∀ n, access c n p = none
    | 0 => rfl
    | n + 1 => by rw [access_eq (by simp [closes]), primary_none, Option.bind_none]
  have power_none := (power_passes p).never
    ((unary_passes (by simp [closes, unary?]) (by simp [closes, update?])
      (by simp [closes])).never access_none)
  have binary_none : ∀ n, binary c 3 n p = none
    | 0 => rfl
    | n + 1 => binary_fails (power_none n)
  have conditional_none := (conditional_passes p).never ((shortCircuit_passes p).never binary_none)
  have arrow_none : ∀ n, arrowHead n p = none
    | 0 => rfl
    | n + 1 => by
      simp [arrowHead, bind_run, get_run, takeMark_run, identifier_run, nameOf?, closes]
  have assignment_none : ∀ n, assignment c false n p = none
    | 0 => rfl
    | n + 1 => assignment_fails (arrow_none n) (conditional_none n)
  exact (expression_passes p).never assignment_none

/-! ## Brackets with nothing between them -/

theorem Hollow.accessRest (h : Hollow rest) (at_p : Place.At rest p) :
    ∀ n, accessRest c true false n x p = none
  | 0 => rfl
  | n + 1 => by
    cases h with
    | brackets opens closes =>
      rw [accessRest_index (at_p.token.trans opens),
        expression_closes (at_p.next.token.trans closes), Option.bind_none]

/-- An operand fails on which empty brackets go. -/
theorem Operand.hollow (h : Operand ls) (hollow : Hollow rest) (enough : 16 * ls.length ≤ fuel + 8)
    (at_p : Place.At (ls ++ rest) p) : Parser.power c fuel p = none := by
  have pos := h.opening.length_pos
  obtain ⟨fuel, rfl⟩ : ∃ f, fuel = f + 2 := ⟨fuel - 2, by omega⟩
  obtain ⟨x, p', left, read, -, at_rest, -⟩ :=
    h.reads [] c fuel rest p (by omega) (by rwa [lead_no_gap])
  refine power_fails ?_ (read.trans (hollow.accessRest at_rest left))
  rw [at_p.token, h.opening.headToken_append]
  exact h.opening.begins

theorem Parts.halts_of_filled {ps : List Lexeme} (parts : Parts ps) (filled : ps ≠ []) :
    Halts (headToken (ps ++ rest)) := by
  cases parts with
  | nil => exact absurd rfl filled
  | cons m token mem =>
    rw [List.cons_append, headToken_cons, token]
    exact .operator m mem

/-- Operators and operands on which empty brackets go are read up to an operator that does not bind
tightly enough, if at all: the last operand fails. -/
theorem Parts.hollow (n : Nat) {ps : List Lexeme} (parts : Parts ps) (short : ps.length ≤ n)
    (filled : ps ≠ []) (hollow : Hollow rest) (enough : 16 * ps.length ≤ fuel)
    (at_p : Place.At (ps ++ rest) p) {z : Expr × Place}
    (read : binaryRest c least (fuel + 1) x p = some z) :
    6 < least ∧ ∃ qs, Parts qs ∧ qs ≠ [] ∧ qs.length ≤ ps.length ∧ Place.At (qs ++ rest) z.2 := by
  induction n generalizing ps least fuel x p z with
  | zero => exact absurd (List.length_eq_zero_iff.1 (Nat.le_zero.1 short)) filled
  | succ n ih =>
    cases parts with
    | nil => exact absurd rfl filled
    | @cons l ls ms m token mem operand parts =>
      obtain ⟨level, op, found, tight⟩ := operator_of_mem mem c
      have here : operator? c p.token = some (level, .strict op) :=
        (congrArg (operator? c) (at_p.token.trans token)).trans found
      by_cases loose : level < least
      · have stuck : Stuck c least p.token := fun other _ same => by
          cases here.symm.trans same
          exact loose
        cases (binaryRest_stuck stuck).symm.trans read
        exact ⟨by omega, l :: (ls ++ ms), .cons m token mem operand parts, by simp, Nat.le_refl _,
          at_p⟩
      · simp only [List.length_cons, List.length_append] at enough short ⊢
        have at_ls : Place.At (ls ++ (ms ++ rest)) p.next := by
          rw [← List.append_assoc]
          exact at_p.next
        obtain ⟨fuel, rfl⟩ : ∃ f, fuel = f + 2 := ⟨fuel - 2, by omega⟩
        rw [binaryRest_operation here (Nat.not_lt.1 loose), binary_eq] at read
        by_cases last : ms = []
        · subst last
          have fails : Parser.power c (fuel + 1) p.next = none :=
            operand.hollow hollow (by omega) at_ls
          rw [fails] at read
          cases read
        · obtain ⟨y, p₁, operand_read, -, at_ms⟩ :=
            operand.power (c := c) (fuel + 1) (by omega) at_ls (parts.halts_of_filled last)
          rw [operand_read, Option.bind_some] at read
          obtain ⟨⟨right, p₂⟩, right_read, read⟩ := Option.bind_eq_some_iff.1 read
          obtain ⟨-, qs, qs_parts, qs_filled, qs_short, at_qs⟩ :=
            ih parts (by omega) last (by omega) at_ms right_read
          obtain ⟨low, rs, rs_parts, rs_filled, rs_short, at_rs⟩ :=
            ih qs_parts (by omega) qs_filled (by omega) at_qs read
          exact ⟨low, rs, rs_parts, rs_filled, by omega, at_rs⟩

/-- An expression fails on which empty brackets go. -/
theorem Chain.hollow (h : Chain ls) (hollow : Hollow rest) (enough : 16 * ls.length ≤ fuel)
    (at_p : Place.At (ls ++ rest) p) : Parser.assignment c false fuel p = none := by
  have arrow : Opening (ls ++ rest) := by
    refine h.opening.append ?_
    cases hollow with
    | brackets opens => simp [opens]
  obtain ⟨os, ps, rfl, operand, parts⟩ := h
  have pos := operand.opening.length_pos
  rw [List.length_append] at enough
  obtain ⟨fuel, rfl⟩ : ∃ f, fuel = f + 5 := ⟨fuel - 5, by omega⟩
  refine assignment_fails (arrow.arrowHead at_p _) (conditional_fails ?_)
  rw [List.append_assoc] at at_p
  by_cases alone : ps = []
  · subst alone
    exact binary_fails (operand.hollow hollow (by simp at enough; omega) at_p)
  · obtain ⟨y, p₁, first, -, at_ps⟩ :=
      operand.power (c := c) (fuel + 1) (by omega) at_p (parts.halts_of_filled alone)
    rw [binary_eq, first, Option.bind_some]
    cases read : binaryRest c 3 (fuel + 1) y p₁ with
    | none => rfl
    | some z =>
      obtain ⟨low, -⟩ :=
        parts.hollow ps.length (Nat.le_refl _) alone hollow (by omega) at_ps read
      exact absurd low (by decide)

/-! ## Statements and blocks that fail -/

/-- A statement fails on which empty brackets go. -/
theorem Sentence.hollow (h : Sentence ls) (hollow : Hollow rest)
    (enough : 16 * ls.length + 4 ≤ fuel)
    (at_p : Place.At (ls ++ rest) p) : Parser.statement c fuel p = none := by
  cases h with
  | evaluated chain leads =>
    obtain ⟨fuel, rfl⟩ : ∃ f, fuel = f + 2 := ⟨fuel - 2, by omega⟩
    have leads_p : Leads p.token := by
      rw [at_p.token, chain.opening.headToken_append]
      exact leads
    rw [statement_leads leads_p, (expression_passes p).fails (chain.hollow hollow (by omega) at_p),
      Option.bind_none]
  | assigned n named free word equals chain =>
    simp only [List.length_cons] at enough
    obtain ⟨fuel, rfl⟩ : ∃ f, fuel = f + 10 := ⟨fuel - 10, by omega⟩
    have leads_p : Leads p.token := (at_p.token.trans named) ▸ .name n word
    have fails : assignment c false (fuel + 8) p = none := by
      rw [assignment_equals named free equals at_p,
        chain.hollow hollow (by omega) at_p.next.next, Option.bind_none]
    rw [statement_leads leads_p, (expression_passes p).fails fails, Option.bind_none]
  | declared n word named free equals chain =>
    simp only [List.length_cons] at enough
    obtain ⟨fuel, rfl⟩ : ∃ f, fuel = f + 3 := ⟨fuel - 3, by omega⟩
    rw [statement_var (at_p.token.trans word), declarations_equals (at_p.next.token.trans named)
      free (at_p.next.next.token.trans equals),
      chain.hollow hollow (by omega) at_p.next.next.next, Option.bind_none, Option.bind_none]

/-- Written tokens at which no reading of a block comes to the closing brace. -/
structure Dead (ls : List Lexeme) : Prop where
  nonempty : ls ≠ []
  fails : ∀ (c : Surround) (fuel : Nat) (done : List Stmt) (rest : List Lexeme) (p : Place),
    c.inFunction = true → 16 * ls.length + 8 ≤ fuel → Place.At (ls ++ rest) p →
    blockRest c fuel done p = none

theorem Ends.append_of_filled (h : Ends ls) (filled : ls ≠ []) (rest : List Lexeme) :
    Ends (ls ++ rest) := by
  cases h with
  | nothing => exact absurd rfl filled
  | brace closes => exact .brace closes
  | line broken fresh => exact .line broken fresh

theorem Dead.cons {isClosed : Bool} (h : Statement isClosed ls) (ends : isClosed = false → Ends ms)
    (starts : headToken ls ≠ .mark "\x7d") (g : Dead ms) : Dead (ls ++ ms) where
  nonempty := by simp [h.nonempty]
  fails c fuel done rest p around enough at_p := by
    rw [List.length_append] at enough
    rw [List.append_assoc] at at_p
    have pos := List.length_pos_iff.2 h.nonempty
    obtain ⟨fuel, rfl⟩ : ∃ f, fuel = f + 1 := ⟨fuel - 1, by omega⟩
    have not_brace : p.token ≠ .mark "\x7d" := by
      rwa [at_p.token, headToken_append h.nonempty]
    obtain ⟨s, p', read, -, at_ms⟩ :=
      h.reads [] c fuel (ms ++ rest) p around (by omega)
        (fun is_open => (ends is_open).append_of_filled g.nonempty rest) (by rwa [lead_no_gap])
    rw [blockRest_more not_brace, read]
    exact g.fails c fuel _ rest p' around (by omega) at_ms

/-- A statement on which the next line goes with empty brackets. -/
theorem Dead.hollow (h : Sentence ls) (hollow : Hollow ms) : Dead (ls ++ ms) where
  nonempty := by simp [h.nonempty]
  fails c fuel done rest p around enough at_p := by
    rw [List.length_append] at enough
    rw [List.append_assoc] at at_p
    obtain ⟨fuel, rfl⟩ : ∃ f, fuel = f + 1 := ⟨fuel - 1, by omega⟩
    have not_brace : p.token ≠ .mark "\x7d" := by
      rw [at_p.token, headToken_append h.nonempty]
      exact h.not_brace
    rw [blockRest_more not_brace, h.hollow (hollow.append rest) (by omega) at_p, Option.bind_none]

/-- What makes a statement fail before it. -/
inductive Sinks : List Lexeme → Prop where
  | hollow {ls : List Lexeme} : Hollow ls → Sinks ls
  | later {ls : List Lexeme} : Ends ls → Dead ls → Sinks ls

theorem Joins.sinks (h : Joins Sinks ms) (first : Sentence ls) : Dead (ls ++ ms) := by
  obtain ⟨os, rest, rfl, extends_, sinks⟩ := h
  have whole : Sentence (ls ++ os) := first.append extends_
  rw [← List.append_assoc]
  cases sinks with
  | hollow hollow => exact .hollow whole hollow
  | later ends dead => exact .cons whole.statement (fun _ => ends) whole.not_brace dead

/-- Lines fail if one with empty brackets follows one that it goes on. -/
theorem Dead.lines (lines : List (LineKind × List Lexeme))
    (each : ∀ line ∈ lines, Line line.1 line.2)
    (order : ¬ (lines.map (·.1)).IsChain fun k m => k.mayPrecede m = true) :
    Dead (lines.flatMap (·.2)) ∧ Joins Sinks (lines.flatMap (·.2)) := by
  induction lines with
  | nil => exact absurd .nil order
  | cons line more ih =>
    obtain ⟨kind, ls⟩ := line
    have line : Line kind ls := each _ List.mem_cons_self
    have others := ih fun l mem => each l (List.mem_cons_of_mem _ mem)
    rw [List.map_cons, List.isChain_cons, not_and_or] at order
    have next : kind ≠ .closed → Joins Sinks (more.flatMap (·.2)) := by
      intro is_open
      rcases order with first | later
      · -- the next line is the one with empty brackets
        cases more with
        | nil => simp at first
        | cons second more =>
          obtain ⟨other, ms⟩ := second
          obtain rfl : other = .hollow := by
            simpa [LineKind.mayPrecede, is_open] using first
          cases each _ (List.mem_cons_of_mem _ List.mem_cons_self) with
          | hollow sentence hollow =>
            rw [List.flatMap_cons]
            exact .of (.hollow (hollow.append _))
      · exact (others later).2
    rw [List.flatMap_cons]
    cases line with
    | @closed l ls statement broken fresh =>
      have later : ¬ (more.map (·.1)).IsChain fun k m => k.mayPrecede m = true := by
        simpa [LineKind.mayPrecede] using order
      have starts : headToken (l :: ls) ≠ .mark "\x7d" := by
        rw [headToken_cons]
        exact fresh.not_brace
      have whole := Dead.cons statement (by simp) starts (others later).1
      exact ⟨whole, .of (.later (.line broken fresh) whole)⟩
    | @fresh l ls sentence broken fresh =>
      have whole := (next (by simp)).sinks sentence
      exact ⟨whole, .of (.later (.line broken fresh) whole)⟩
    | bracketed sentence suffix parts =>
      refine ⟨(next (by simp)).sinks sentence, ?_⟩
      rw [List.append_assoc]
      exact (next (by simp)).suffix suffix parts
    | hollow sentence hollow =>
      exact ⟨(next (by simp)).sinks sentence, .of (.hollow (hollow.append _))⟩

end EggLang.Script.Parser
