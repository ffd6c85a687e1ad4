import EggLang.Proofs.Script.Operands

/-!
# Reading statements

Generated code ends no statement with a semicolon. A conditional and a loop end with their brace;
every other statement ends where the next line cannot continue it, and a line that starts with a
bracket does continue it. `Statement` says of written tokens that they are read as one statement,
and whether that needs such an end.
-/

namespace EggLang.Script.Parser

variable {c : Surround} {p p' : Place} {fuel : Nat} {x : Expr} {ls ms rest : List Lexeme}
  {l l₁ l₂ open_ close : Lexeme}

/-! ## Ends of statements -/

/-- A statement that declares nothing for a block and is no function. -/
structure Plain (s : Stmt) : Prop where
  locals : s.locals = []
  functions : ∀ body, Stmt.functions (s :: body) = Stmt.functions body

theorem flatMap_locals {body : List Stmt} (plain : ∀ s ∈ body, Plain s) :
    body.flatMap (fun s => s.locals.map (·.1)) = [] := by
  rw [List.flatMap_eq_nil_iff]
  intro s mem
  rw [(plain s mem).locals]
  rfl

theorem functions_plain {body : List Stmt} (plain : ∀ s ∈ body, Plain s) :
    Stmt.functions body = [] := by
  induction body with
  | nil => rfl
  | cons s body ih =>
    rw [(plain s List.mem_cons_self).functions, ih fun t mem =>
      plain t (List.mem_cons_of_mem s mem)]

theorem isWellScoped_plain {body : List Stmt} (plain : ∀ s ∈ body, Plain s)
    (taken : List String) (isFunction : Bool) : isWellScoped taken body isFunction = true := by
  cases isFunction <;>
    simp [isWellScoped, flatMap_locals plain, functions_plain plain, areDistinct]

/-- The tokens that continue no line before them. -/
inductive Fresh : Token → Prop where
  | name (n : String) : n ∉ connectives → Fresh (.name n false)
  | number (x : Numeric) : Fresh (.number x)

/-- What may follow a statement that no brace closes. -/
inductive Ends : List Lexeme → Prop where
  | nothing : Ends []
  | brace {l : Lexeme} {ls : List Lexeme} : l.token = .mark "\x7d" → Ends (l :: ls)
  | line {l : Lexeme} {ls : List Lexeme} : l.isBroken = true → Fresh l.token → Ends (l :: ls)

theorem Ends.stops (h : Ends rest) : Stops (headToken rest) := by
  cases h with
  | nothing => exact .end
  | brace closes => rw [headToken_cons, closes]; exact .brace
  | @line l _ _ fresh =>
    rw [headToken_cons]
    generalize l.token = t at fresh
    cases fresh with
    | name n other => exact .name n other
    | number x => exact .number x

theorem Ends.not_comma (h : Ends rest) : headToken rest ≠ .mark "," := by
  cases h with
  | nothing => simp
  | brace closes => simp [closes]
  | @line l _ _ fresh =>
    rw [headToken_cons]
    generalize l.token = t at fresh
    cases fresh <;> simp

theorem Ends.append (h : Ends ms) (closes : close.token = .mark "\x7d") :
    Ends (ms ++ close :: rest) := by
  cases h with
  | nothing => exact .brace closes
  | brace closes => exact .brace closes
  | line broken fresh => exact .line broken fresh

theorem endStatement_run (ends : Ends rest) (at_p : Place.At rest p) :
    endStatement p = some ((), p) := by
  have token := at_p.token
  have no_semicolon : p.token ≠ .mark ";" := by
    rw [token]
    exact ends.stops.not_mark (by decide)
  have separate : (p.afterBreak || decide (p.token = .end) || decide (p.token = .mark "\x7d"))
      = true := by
    cases ends with
    | nothing => simp [token]
    | brace closes => simp [token, closes]
    | line broken _ => simp [at_p.afterBreak, broken]
  rw [endStatement, bind_run, takeMark_run, if_neg no_semicolon, Option.bind_some]
  show require (p.afterBreak || decide (p.token = .end) || decide (p.token = .mark "\x7d")) p = _
  rw [require_run, if_pos separate]

/-! ## Statements -/

/-- Written tokens that are read as one statement, whatever blanks stand before them. One that is
not closed needs something behind it that does not continue it. -/
structure Statement (isClosed : Bool) (ls : List Lexeme) : Prop where
  nonempty : ls ≠ []
  reads : ∀ (gap : List Char) (c : Surround) (fuel : Nat) (rest : List Lexeme) (p : Place),
    c.inFunction = true → 16 * ls.length + 4 ≤ fuel → (isClosed = false → Ends rest) →
    Place.At (lead gap ls ++ rest) p →
    ∃ s p', statement c fuel p = some ([s], p') ∧ Plain s ∧ Place.At rest p'

theorem Statement.lead {isClosed : Bool} (h : Statement isClosed ls) (gap : List Char) :
    Statement isClosed (lead gap ls) where
  nonempty := by
    cases ls with
    | nil => exact h.nonempty
    | cons => simp
  reads more c fuel rest p around enough ends at_p := by
    rw [length_lead] at enough
    rw [lead_lead] at at_p
    exact h.reads (more ++ gap) c fuel rest p around enough ends at_p

/-- The words with which statements begin that are no expressions. -/
def statementWords : List String :=
  ["function", "if", "while", "do", "for", "return", "throw", "break", "continue", "switch", "try",
    "debugger", "var", "const", "let"]

/-- The tokens with which a statement begins that is an expression. -/
inductive Leads : Token → Prop where
  | number (x : Numeric) : Leads (.number x)
  | name (n : String) : n ∉ statementWords → Leads (.name n false)
  | square : Leads (.mark "[")
  | round : Leads (.mark "(")

theorem Leads.not_word {t : Token} (h : Leads t) {w : String} (mem : w ∈ statementWords) :
    t ≠ .name w false := by
  rintro rfl
  cases h with
  | name _ free => exact free mem

theorem Leads.not_mark {t : Token} (h : Leads t) {m : String} (other : m ∉ ["[", "("]) :
    t ≠ .mark m := by
  intro same
  cases h <;> simp_all

theorem declarationAt_leads (leads : Leads p.token) : declarationAt p = some (none, p) := by
  have not_var := leads.not_word (w := "var") (by decide)
  have not_const := leads.not_word (w := "const") (by decide)
  have not_let := leads.not_word (w := "let") (by decide)
  simp [declarationAt, bind_run, pure_run, takeWord_run, atWord_run, not_var, not_const, not_let]

/-- What is done about a statement that is an expression. -/
theorem statement_leads (leads : Leads p.token) :
    statement c (fuel + 1) p = (expression c fuel p).bind fun (x, p') =>
      (match x with
        | .ident label => do
          if ← takeMark ":" then
            require (c.labels.lookup label).isNone
            let isLoop := statement.startsLoop (← get)
            let body ← single { c with labels := (label, isLoop) :: c.labels } fuel
            return [.labelled label body]
          else
            endStatement
            return [.expression x]
        | x => do
          endStatement
          return [.expression x] : Parse (List Stmt)) p' := by
  have no_declaration := declarationAt_leads leads
  rw [statement, bind_run, get_run, Option.bind_some]
  generalize token : p.token = t at leads
  cases leads with
  | number | square | round =>
    all_goals
      change (declarationAt p).bind _ = _
      rw [no_declaration]
      rfl
  | name n free =>
    have other : ∀ w ∈ statementWords, n ≠ w := fun w mem same => free (same ▸ mem)
    simp only [Token.name.injEq, and_true, false_imp_iff, other "function" (by decide),
      other "if" (by decide), other "while" (by decide), other "do" (by decide),
      other "for" (by decide), other "return" (by decide), other "throw" (by decide),
      other "break" (by decide), other "continue" (by decide), other "switch" (by decide),
      other "try" (by decide), other "debugger" (by decide)]
    change (declarationAt p).bind _ = _
    rw [no_declaration]
    rfl

/-- A statement that is an expression. -/
theorem statement_expression (leads : Leads p.token)
    (read : expression c fuel p = some (x, p')) (at_rest : Place.At rest p') (ends : Ends rest) :
    statement c (fuel + 1) p = some ([.expression x], p') := by
  have no_label : p'.token ≠ .mark ":" := by
    rw [at_rest.token]
    exact ends.stops.not_mark (by decide)
  have ended := endStatement_run ends at_rest
  rw [statement_leads leads, read, Option.bind_some]
  cases x <;> simp [bind_run, map_run, pure_run, takeMark_run, no_label, ended]

theorem Chain.evaluated (h : Chain ls) (leads : Leads (headToken ls)) : Statement false ls where
  nonempty := h.opening.nonempty
  reads gap c fuel rest p _ enough ends at_p := by
    obtain ⟨fuel, rfl⟩ : ∃ f, fuel = f + 1 := ⟨fuel - 1, by omega⟩
    obtain ⟨x, p', read, -, at_rest⟩ :=
      (h.lead gap).items.expression (c := c) fuel (by rw [length_lead]; omega) at_p
        (ends rfl).stops (ends rfl).not_comma
    have leads_p : Leads p.token := by
      rw [at_p.token, (h.opening.lead gap).headToken_append, headToken_lead]
      exact leads
    exact ⟨.expression x, p', statement_expression leads_p read at_rest (ends rfl),
      ⟨rfl, fun _ => rfl⟩, at_rest⟩

theorem bindingTarget_name {n : String} (free : n ∉ reserved) (token : p.token = .name n false) :
    bindingTarget (fuel + 1) p = some (.ident n, p.next) := by
  simp [bindingTarget, bind_run, map_run, takeMark_run, identifier_run, nameOf?, token, free]

/-- What is assigned to a name. -/
theorem assignment_equals {n : String} (named : l₁.token = .name n false) (free : n ∉ reserved)
    (equals : l₂.token = .mark "=") (at_p : Place.At (l₁ :: l₂ :: ls) p) :
    assignment c false (fuel + 8) p
      = (assignment c false (fuel + 7) p.next.next).bind fun r =>
        some (.assign (.ident n) r.1, r.2) := by
  have not_operator : n ∉ operatorWords := not_operator_of_free free
  have not_new : n ≠ "new" := fun same => free (same ▸ by decide)
  have opening : Opening (l₁ :: l₂ :: ls) := .name n named not_operator (by simp [equals])
  have token : p.token = .name n false := at_p.token.trans named
  have next : p.next.token = .mark "=" := at_p.next.token.trans equals
  have halts : Halts p.next.token := next ▸ .equals
  have ends : operator? c p.next.token = none := by rw [next]; rfl
  have accessed : access c (fuel + 2) p = some (.ident n, p.next) := by
    rw [access_of_primary (by simp [token, not_new]) (primary_name free token),
      halts.accessRest]
  have powered := power_of_access (token ▸ .name n not_operator) accessed halts
  have left : conditional c (fuel + 7) p = some (.ident n, p.next) := by
    refine conditional_of_binary ?_ halts ends
    rw [binary, bind_run, powered]
    exact binaryRest_ends ends
  rw [assignment, bind_run, attempt_run _ _ (opening.arrowHead at_p _), Option.bind_some]
  simp only [bind_run, atMark_run, Option.bind_some, left, peek_run, next]
  simp only [Expr.isReference]
  rfl

/-- An assignment to a name. -/
theorem assignment_name {n : String} (named : l₁.token = .name n false) (free : n ∉ reserved)
    (equals : l₂.token = .mark "=") (h : Chain ls) (fuel : Nat)
    (enough : 16 * ls.length + 16 ≤ fuel)
    (at_p : Place.At (l₁ :: l₂ :: (ls ++ rest)) p) (stops : Stops (headToken rest)) :
    ∃ v p', assignment c false fuel p = some (.assign (.ident n) v, p') ∧ Place.At rest p' := by
  obtain ⟨fuel, rfl⟩ : ∃ f, fuel = f + 8 := ⟨fuel - 8, by omega⟩
  obtain ⟨v, p', read, -, at_rest⟩ :=
    h.assignment (c := c) false (fuel + 7) (by omega) at_p.next.next stops
  refine ⟨v, p', ?_, at_rest⟩
  rw [assignment_equals named free equals at_p, read]
  rfl

theorem Chain.assigned {n : String} (h : Chain ls) (named : l₁.token = .name n false)
    (free : n ∉ reserved) (word : n ∉ statementWords) (equals : l₂.token = .mark "=") :
    Statement false (l₁ :: l₂ :: ls) where
  nonempty := by simp
  reads gap c fuel rest p _ enough ends at_p := by
    simp only [List.length_cons] at enough
    obtain ⟨fuel, rfl⟩ : ∃ f, fuel = f + 3 := ⟨fuel - 3, by omega⟩
    obtain ⟨v, p', read, at_rest⟩ :=
      assignment_name (c := c) (show (l₁.after gap).token = .name n false from named) free equals h
        (fuel + 1) (by omega) at_p (ends rfl).stops
    have no_comma : p'.token ≠ .mark "," := by
      rw [at_rest.token]
      exact (ends rfl).not_comma
    have whole : expression c (fuel + 2) p = some (.assign (.ident n) v, p') := by
      rw [expression, bind_run, read, Option.bind_some, expressionRest, bind_run, takeMark_run,
        if_neg no_comma]
      rfl
    have token : p.token = .name n false := at_p.token.trans named
    have leads : Leads p.token := token ▸ .name n word
    exact ⟨_, p', statement_expression leads whole at_rest (ends rfl), ⟨rfl, fun _ => rfl⟩, at_rest⟩

/-- A declaration of a name with a value. -/
theorem declarations_equals {n : String} {kind : Declaration} (named : p.token = .name n false)
    (free : n ∉ reserved) (equals : p.next.token = .mark "=") :
    declarations c kind false (fuel + 2) p
      = (assignment c false (fuel + 1) p.next.next).bind fun r =>
        if r.2.token = .mark "," then
          (declarations c kind false (fuel + 1) r.2.next).bind fun ds =>
            some (.declare kind (.ident n) r.1 :: ds.1, ds.2)
        else some ([.declare kind (.ident n) r.1], r.2) := by
  rw [declarations, bind_run, bindingTarget_name free named, Option.bind_some, bind_run,
    takeMark_run, if_pos equals]
  simp only [Option.bind_some, if_true, bind_run]
  congr 1
  funext r
  rw [takeMark_run]
  split <;> rfl

theorem statement_var (word : p.token = .name "var" false) :
    statement c (fuel + 1) p = (declarations c .var false fuel p.next).bind fun r =>
      (endStatement r.2).bind fun e => some (r.1, e.2) := by
  have at_declaration : declarationAt p = some (some .var, p.next) := by
    simp [declarationAt, bind_run, pure_run, takeWord_run, word]
  rw [statement, bind_run, get_run, Option.bind_some]
  simp only [word]
  change (declarationAt p).bind _ = _
  rw [at_declaration]
  rfl

theorem Chain.declared {n : String} (h : Chain ls) (word : l.token = .name "var" false)
    (named : l₁.token = .name n false) (free : n ∉ reserved) (equals : l₂.token = .mark "=") :
    Statement false (l :: l₁ :: l₂ :: ls) where
  nonempty := by simp
  reads gap c fuel rest p _ enough ends at_p := by
    simp only [List.length_cons] at enough
    obtain ⟨fuel, rfl⟩ : ∃ f, fuel = f + 3 := ⟨fuel - 3, by omega⟩
    obtain ⟨v, p', read, -, at_rest⟩ :=
      h.assignment (c := c) false (fuel + 1) (by omega) at_p.next.next.next (ends rfl).stops
    have no_comma : p'.token ≠ .mark "," := by
      rw [at_rest.token]
      exact (ends rfl).not_comma
    refine ⟨.declare .var (.ident n) v, p', ?_, ⟨rfl, fun _ => rfl⟩, at_rest⟩
    rw [statement_var (at_p.token.trans word),
      declarations_equals (at_p.next.token.trans named) free (at_p.next.next.token.trans equals),
      read, Option.bind_some, if_neg no_comma, Option.bind_some,
      endStatement_run (ends rfl) at_rest]
    rfl

theorem onNewLine_run (p : Place) :
    onNewLine p = some (p.afterBreak || decide (p.token = .end), p) := rfl

theorem Opening.onSameLine (h : Opening ls) (tight : isApart ls = false)
    (at_p : Place.At (ls ++ rest) p) : (p.afterBreak || decide (p.token = .end)) = false := by
  have begins := h.begins
  cases ls with
  | nil => simp [isApart] at tight
  | cons l ls =>
    rw [headToken_cons] at begins
    have solid : l.token ≠ .end := by
      intro same
      rw [same] at begins
      cases begins
    have token : p.token = l.token := at_p.token
    have broken : p.afterBreak = false := at_p.afterBreak.trans tight
    simp [token, broken, solid]

theorem Chain.returned (h : Chain ls) (word : l.token = .name "return" false)
    (tight : isApart ls = false) : Statement false (l :: ls) where
  nonempty := by simp
  reads gap c fuel rest p around enough ends at_p := by
    simp only [List.length_cons] at enough
    obtain ⟨fuel, rfl⟩ : ∃ f, fuel = f + 1 := ⟨fuel - 1, by omega⟩
    have token : p.token = .name "return" false := at_p.token.trans word
    have at_ls : Place.At (ls ++ rest) p.next := at_p.next
    obtain ⟨x, p', read, -, at_rest⟩ :=
      h.items.expression (c := c) fuel (by omega) at_ls (ends rfl).stops
        (ends rfl).not_comma
    have no_semicolon : p.next.token ≠ .mark ";" := h.opening.not_mark at_ls (by decide)
    have no_brace : p.next.token ≠ .mark "\x7d" := h.opening.not_mark at_ls (by decide)
    have goes_on : (p.next.afterBreak || decide (p.next.token = .end)
        || decide (p.next.token = .mark ";") || decide (p.next.token = .mark "\x7d")) = false := by
      rw [h.opening.onSameLine tight at_ls]
      simp [no_semicolon, no_brace]
    refine ⟨.return x, p', ?_, ⟨rfl, fun _ => rfl⟩, at_rest⟩
    rw [statement, bind_run, get_run, Option.bind_some]
    simp only [token]
    change (require c.inFunction p).bind _ = _
    rw [require_run, if_pos around, Option.bind_some]
    change (if (p.next.afterBreak || decide (p.next.token = .end)
        || decide (p.next.token = .mark ";") || decide (p.next.token = .mark "\x7d")) = true
      then _ else _ : Parse (List Stmt)) p.next = _
    rw [goes_on, if_neg Bool.false_ne_true, bind_run, read, Option.bind_some, bind_run,
      endStatement_run (ends rfl) at_rest]
    rfl

theorem Chain.thrown (h : Chain ls) (word : l.token = .name "throw" false)
    (tight : isApart ls = false) : Statement false (l :: ls) where
  nonempty := by simp
  reads gap c fuel rest p around enough ends at_p := by
    simp only [List.length_cons] at enough
    obtain ⟨fuel, rfl⟩ : ∃ f, fuel = f + 1 := ⟨fuel - 1, by omega⟩
    have token : p.token = .name "throw" false := at_p.token.trans word
    have at_ls : Place.At (ls ++ rest) p.next := at_p.next
    obtain ⟨x, p', read, -, at_rest⟩ :=
      h.items.expression (c := c) fuel (by omega) at_ls (ends rfl).stops
        (ends rfl).not_comma
    have goes_on := h.opening.onSameLine tight at_ls
    refine ⟨.throw x, p', ?_, ⟨rfl, fun _ => rfl⟩, at_rest⟩
    rw [statement, bind_run, get_run, Option.bind_some]
    simp only [token]
    rw [bind_run, advance_run, Option.bind_some, bind_run, onNewLine_run, goes_on,
      Option.bind_some]
    change (expression c fuel p.next).bind _ = _
    rw [read, Option.bind_some]
    change (endStatement p').bind _ = _
    rw [endStatement_run (ends rfl) at_rest]
    rfl

/-! ## Blocks, conditionals and loops -/

/-- Written tokens that are read as the statements of a block up to its closing brace. -/
structure Body (ls : List Lexeme) : Prop where
  reads : ∀ (c : Surround) (fuel : Nat) (done : List Stmt) (rest : List Lexeme) (close : Lexeme)
    (p : Place), c.inFunction = true → 16 * ls.length + 8 ≤ fuel → close.token = .mark "\x7d" →
    Place.At (ls ++ close :: rest) p →
    ∃ body p' stop, blockRest c fuel done p = some ((done.reverse ++ body, stop), p')
      ∧ (∀ s ∈ body, Plain s) ∧ Place.At rest p'

theorem Body.nil : Body [] where
  reads c fuel done rest close p _ enough closes at_p := by
    obtain ⟨fuel, rfl⟩ : ∃ f, fuel = f + 1 := ⟨fuel - 1, by omega⟩
    have token : p.token = .mark "\x7d" := at_p.token.trans closes
    refine ⟨[], p.next, p.stop, ?_, by simp, at_p.next⟩
    simp [blockRest, bind_run, map_run, get_run, atMark_run, advance_run, token]

theorem Body.cons {isClosed : Bool} (h : Statement isClosed ls)
    (ends : isClosed = false → Ends ms) (starts : headToken ls ≠ .mark "\x7d") (g : Body ms) :
    Body (ls ++ ms) where
  reads c fuel done rest close p around enough closes at_p := by
    rw [List.length_append] at enough
    obtain ⟨fuel, rfl⟩ : ∃ f, fuel = f + 1 := ⟨fuel - 1, by omega⟩
    have at_ls : Place.At (lead [] ls ++ (ms ++ close :: rest)) p := by
      rw [lead_no_gap, ← List.append_assoc]
      exact at_p
    have pos := List.length_pos_iff.2 h.nonempty
    obtain ⟨s, p₁, read, plain, at_ms⟩ :=
      h.reads [] c fuel (ms ++ close :: rest) p around (by omega)
        (fun is_open => (ends is_open).append closes) at_ls
    obtain ⟨body, p', stop, more, plain', at_rest⟩ :=
      g.reads c fuel (s :: done) rest close p₁ around (by omega) closes at_ms
    have not_brace : p.token ≠ .mark "\x7d" := by
      rw [at_p.token]
      cases ls with
      | nil => exact absurd rfl h.nonempty
      | cons => exact starts
    refine ⟨s :: body, p', stop, ?_, by simpa using ⟨plain, plain'⟩, at_rest⟩
    rw [blockRest, bind_run, atMark_run, decide_eq_false not_brace]
    simpa [bind_run, read] using more

theorem Body.braced (h : Body ls) (opens : open_.token = .mark "\x7b")
    (closes : close.token = .mark "\x7d") : Statement true (open_ :: (ls ++ [close])) where
  nonempty := by simp
  reads gap c fuel rest p around enough _ at_p := by
    simp only [List.length_cons, List.length_append, List.length_nil] at enough
    obtain ⟨fuel, rfl⟩ : ∃ f, fuel = f + 2 := ⟨fuel - 2, by omega⟩
    have token : p.token = .mark "\x7b" := at_p.token.trans opens
    have at_ls : Place.At (ls ++ close :: rest) p.next := by simpa using at_p.next
    obtain ⟨body, p', stop, read, plain, at_rest⟩ :=
      h.reads c fuel [] rest close p.next around (by omega) closes at_ls
    refine ⟨.block body, p', ?_, ⟨rfl, fun _ => rfl⟩, at_rest⟩
    rw [statement, bind_run, get_run, Option.bind_some]
    simp only [token]
    have block_read : block c (fuel + 1) p.next = some (.block body, p') := by
      rw [block, bind_run, read, Option.bind_some]
      simp [bind_run, pure_run, require_run, isWellScoped_plain plain]
    rw [bind_run, advance_run, Option.bind_some, bind_run, block_read]
    rfl

theorem Statement.single {isClosed : Bool} (h : Statement isClosed ls)
    (around : c.inFunction = true) (fuel : Nat) (enough : 16 * ls.length + 5 ≤ fuel)
    (ends : isClosed = false → Ends rest) (at_p : Place.At (ls ++ rest) p) :
    ∃ s p', Parser.single c fuel p = some (s, p') ∧ Place.At rest p' := by
  obtain ⟨fuel, rfl⟩ : ∃ f, fuel = f + 1 := ⟨fuel - 1, by omega⟩
  obtain ⟨s, p', read, plain, at_rest⟩ :=
    h.reads [] c fuel rest p around (by omega) ends (by rwa [lead_no_gap])
  have alone : ∃ t, Parser.single c (fuel + 1) p = some (t, p') := by
    rw [Parser.single, bind_run, read, Option.bind_some]
    simp only [bind_run, require_run, plain.locals]
    exact ⟨_, rfl⟩
  obtain ⟨t, read⟩ := alone
  exact ⟨t, p', read, at_rest⟩

theorem Items.condition (h : Items ls) (opens : open_.token = .mark "(")
    (closes : close.token = .mark ")") (fuel : Nat) (enough : 16 * ls.length + 2 ≤ fuel)
    (at_p : Place.At (open_ :: (ls ++ close :: rest)) p) :
    ∃ x p', condition c fuel p = some (x, p') ∧ Place.At rest p' := by
  obtain ⟨fuel, rfl⟩ : ∃ f, fuel = f + 1 := ⟨fuel - 1, by omega⟩
  have token : p.token = .mark "(" := at_p.token.trans opens
  obtain ⟨x, p₁, read, -, at_close⟩ :=
    h.expression (c := c) fuel (by omega) at_p.next
      (by rw [headToken_cons, closes]; exact .round) (by simp [closes])
  refine ⟨x, p₁.next, ?_, at_close.next⟩
  simp [Parser.condition, bind_run, map_run, expect_run, token, read, at_close.token, closes]

variable {cond yes no body : List Lexeme} {word : Lexeme}

theorem Statement.ifElse (test : Items cond) (first : Statement true yes)
    (second : Statement true no)
    (starts : l.token = .name "if" false) (opens : open_.token = .mark "(")
    (closes : close.token = .mark ")") (other : word.token = .name "else" false) :
    Statement true (l :: open_ :: (cond ++ close :: (yes ++ word :: no))) where
  nonempty := by simp
  reads gap c fuel rest p around enough _ at_p := by
    simp only [List.length_cons, List.length_append] at enough
    obtain ⟨fuel, rfl⟩ : ∃ f, fuel = f + 1 := ⟨fuel - 1, by omega⟩
    have token : p.token = .name "if" false := at_p.token.trans starts
    have at_cond : Place.At (open_ :: (cond ++ close :: (yes ++ word :: (no ++ rest)))) p.next := by
      simpa using at_p.next
    obtain ⟨x, p₁, cond_read, at_yes⟩ :=
      test.condition (c := c) opens closes fuel (by omega) at_cond
    obtain ⟨s, p₂, yes_read, at_word⟩ :=
      first.single around fuel (by omega) (by simp) at_yes
    obtain ⟨t, p', no_read, at_rest⟩ :=
      second.single around fuel (by omega) (by simp) at_word.next
    have word_token : p₂.token = .name "else" false := at_word.token.trans other
    refine ⟨.if x s t, p', ?_, ⟨rfl, fun _ => rfl⟩, at_rest⟩
    rw [statement, bind_run, get_run, Option.bind_some]
    simp only [token]
    simp only [bind_run, advance_run, Option.bind_some, cond_read, yes_read, takeWord_run,
      if_pos word_token, if_true, no_read]
    rfl

theorem Statement.if (test : Items cond) (first : Statement true yes)
    (starts : l.token = .name "if" false) (opens : open_.token = .mark "(")
    (closes : close.token = .mark ")") :
    Statement false (l :: open_ :: (cond ++ close :: yes)) where
  nonempty := by simp
  reads gap c fuel rest p around enough ends at_p := by
    simp only [List.length_cons, List.length_append] at enough
    obtain ⟨fuel, rfl⟩ : ∃ f, fuel = f + 1 := ⟨fuel - 1, by omega⟩
    have token : p.token = .name "if" false := at_p.token.trans starts
    have at_cond : Place.At (open_ :: (cond ++ close :: (yes ++ rest))) p.next := by
      simpa using at_p.next
    obtain ⟨x, p₁, cond_read, at_yes⟩ :=
      test.condition (c := c) opens closes fuel (by omega) at_cond
    obtain ⟨s, p', yes_read, at_rest⟩ :=
      first.single around fuel (by omega) (by simp) at_yes
    have no_else : p'.token ≠ .name "else" false := by
      rw [at_rest.token]
      intro same
      have stops := (ends rfl).stops
      rw [same] at stops
      cases stops with
      | name _ other => exact other (by decide)
    refine ⟨.if x s .empty, p', ?_, ⟨rfl, fun _ => rfl⟩, at_rest⟩
    rw [statement, bind_run, get_run, Option.bind_some]
    simp only [token]
    simp only [bind_run, advance_run, Option.bind_some, cond_read, yes_read, takeWord_run,
      if_neg no_else]
    rfl

theorem Statement.while (test : Items cond) (h : Statement true body)
    (starts : l.token = .name "while" false) (opens : open_.token = .mark "(")
    (closes : close.token = .mark ")") :
    Statement true (l :: open_ :: (cond ++ close :: body)) where
  nonempty := by simp
  reads gap c fuel rest p around enough _ at_p := by
    simp only [List.length_cons, List.length_append] at enough
    obtain ⟨fuel, rfl⟩ : ∃ f, fuel = f + 1 := ⟨fuel - 1, by omega⟩
    have token : p.token = .name "while" false := at_p.token.trans starts
    have at_cond : Place.At (open_ :: (cond ++ close :: (body ++ rest))) p.next := by
      simpa using at_p.next
    obtain ⟨x, p₁, cond_read, at_body⟩ :=
      test.condition (c := c) opens closes fuel (by omega) at_cond
    obtain ⟨s, p', body_read, at_rest⟩ :=
      h.single (c := c.loop) around fuel (by omega) (by simp) at_body
    refine ⟨.while x s, p', ?_, ⟨rfl, fun _ => rfl⟩, at_rest⟩
    rw [statement, bind_run, get_run, Option.bind_some]
    simp only [token]
    simp only [bind_run, advance_run, Option.bind_some, cond_read, body_read]
    rfl

/-! ## Functions -/

/-- The names of parameters with commas between them, and the closing parenthesis. -/
inductive Params : List Lexeme → Prop where
  | none {close : Lexeme} : close.token = .mark ")" → Params [close]
  | last {l close : Lexeme} (n : String) : l.token = .name n false → n ∉ reserved →
      close.token = .mark ")" → Params [l, close]
  | more {l comma : Lexeme} {ls : List Lexeme} (n : String) : l.token = .name n false →
      n ∉ reserved → comma.token = .mark "," → Params ls → Params (l :: comma :: ls)

theorem bindingElement_name {n : String} (fuel : Nat) (free : n ∉ reserved)
    (token : p.token = .name n false) (ends : p.next.token ≠ .mark "=") :
    bindingElement (fuel + 2) p = some (.ident n, p.next) := by
  rw [bindingElement, bind_run, bindingTarget_name free token, Option.bind_some, bind_run,
    takeMark_run, if_neg ends]
  rfl

theorem Params.parameters (h : Params ls) (fuel : Nat) (enough : 16 * ls.length ≤ fuel)
    (at_p : Place.At (ls ++ rest) p) :
    ∃ ps p', parameters fuel p = some (ps, p') ∧ ps.all isName = true ∧ Place.At rest p' := by
  induction h generalizing fuel p with
  | none closes =>
    obtain ⟨fuel, rfl⟩ : ∃ f, fuel = f + 1 := ⟨fuel - 1, by simp at enough; omega⟩
    have token : p.token = .mark ")" := at_p.token.trans closes
    refine ⟨[], p.next, ?_, rfl, at_p.next⟩
    simp [Parser.parameters, bind_run, pure_run, takeMark_run, token]
  | last n named free closes =>
    obtain ⟨fuel, rfl⟩ : ∃ f, fuel = f + 3 := ⟨fuel - 3, by simp at enough; omega⟩
    have token : p.token = .name n false := at_p.token.trans named
    have next : p.next.token = .mark ")" := at_p.next.token.trans closes
    have element := bindingElement_name fuel free token (by simp [next])
    refine ⟨[.ident n], p.next.next, ?_, rfl, at_p.next.next⟩
    simp [Parser.parameters, bind_run, pure_run, takeMark_run, token, element, next]
  | more n named free comma _ ih =>
    simp only [List.length_cons] at enough
    obtain ⟨fuel, rfl⟩ : ∃ f, fuel = f + 3 := ⟨fuel - 3, by omega⟩
    have token : p.token = .name n false := at_p.token.trans named
    have next : p.next.token = .mark "," := at_p.next.token.trans comma
    have element := bindingElement_name fuel free token (by simp [next])
    obtain ⟨ps, p', read, names, at_rest⟩ := ih (fuel + 2) (by omega) at_p.next.next
    refine ⟨.ident n :: ps, p', ?_, by simp [isName, names], at_rest⟩
    rw [Parser.parameters]
    simp [bind_run, map_run, takeMark_run, expect_run, token, element, next, read]

variable {ps : List Lexeme} {brace : Lexeme}

theorem functionRest_reads (params : Params ps) (h : Body body) (opens : open_.token = .mark "(")
    (starts : brace.token = .mark "\x7b") (closes : close.token = .mark "\x7d")
    (start : Place) (fuel : Nat) (enough : 16 * (ps.length + body.length) + 9 ≤ fuel)
    (at_p : Place.At (open_ :: (ps ++ brace :: (body ++ close :: rest))) p) :
    ∃ f p', functionRest start none fuel p = some (f, p') ∧ Place.At rest p' := by
  obtain ⟨fuel, rfl⟩ : ∃ f, fuel = f + 1 := ⟨fuel - 1, by omega⟩
  have token : p.token = .mark "(" := at_p.token.trans opens
  obtain ⟨names, p₁, params_read, all_names, at_brace⟩ :=
    params.parameters fuel (by omega) at_p.next
  obtain ⟨statements, p', stop, body_read, plain, at_rest⟩ :=
    h.reads .function fuel [] rest close p₁.next rfl (by omega) closes at_brace.next
  have checked : checkFunction .normal names statements p' = some ((), p') := by
    simp [checkFunction, bind_run, require_run, all_names, isWellScoped_plain plain]
  refine ⟨makeFunction .normal none start (stop - start.start) names statements, p', ?_, at_rest⟩
  rw [functionRest, bind_run, expect_run, if_pos token, Option.bind_some, bind_run, params_read,
    Option.bind_some, bind_run, expect_run, if_pos (at_brace.token.trans starts),
    Option.bind_some, bind_run, body_read, Option.bind_some]
  change (checkFunction .normal names statements p').bind _ = _
  rw [checked]
  rfl

theorem Operand.function (params : Params ps) (h : Body body)
    (word_token : word.token = .name "function" false) (opens : open_.token = .mark "(")
    (starts : brace.token = .mark "\x7b") (closes : close.token = .mark "\x7d") :
    Operand (word :: open_ :: (ps ++ brace :: (body ++ [close]))) := by
  have opening : Opening (word :: open_ :: (ps ++ brace :: (body ++ [close]))) :=
    .name "function" word_token (by decide) (by simp [opens])
  refine .of_primary opening (by simp [word_token]) fun gap c fuel rest p enough at_p => ?_
  simp only [List.length_cons, List.length_append, List.length_nil] at enough
  obtain ⟨fuel, rfl⟩ : ∃ f, fuel = f + 1 := ⟨fuel - 1, by omega⟩
  have token : p.token = .name "function" false := at_p.token.trans word_token
  have next : p.next.token = .mark "(" := at_p.next.token.trans opens
  have at_open : Place.At (open_ :: (ps ++ brace :: (body ++ close :: rest))) p.next := by
    simpa using at_p.next
  obtain ⟨f, p', read, at_rest⟩ :=
    functionRest_reads params h opens starts closes p fuel (by omega) at_open
  refine ⟨.function f, p', ?_, rfl, at_rest⟩
  rw [primary, bind_run, get_run, Option.bind_some]
  simp only [token]
  simp [bind_run, map_run, advance_run, atMark_run, next, read]

end EggLang.Script.Parser
