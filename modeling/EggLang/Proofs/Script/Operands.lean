import EggLang.Proofs.Script.Steps

/-!
# Reading expressions

An operand of generated code is a number, a name, an array literal or a function literal in
parentheses, with calls and member accesses after it. It has no parentheses around its operators,
so what an operation is read as is decided by how tightly its operators bind. What a reading needs
is fuel in proportion to the number of written tokens.
-/

namespace EggLang.Script.Parser

variable {c : Surround} {p p' : Place} {fuel : Nat} {x : Expr}

/-! ## Openings -/

/-- Written tokens with which an expression of generated code begins. They are not the parameters
of a function with an arrow. -/
inductive Opening : List Lexeme → Prop where
  | number {l : Lexeme} {ls : List Lexeme} (x : Numeric) : l.token = .number x → Opening (l :: ls)
  | string {l : Lexeme} {ls : List Lexeme} (u : Units) : l.token = .string u → Opening (l :: ls)
  | square {l : Lexeme} {ls : List Lexeme} : l.token = .mark "[" → Opening (l :: ls)
  | name {l : Lexeme} {ls : List Lexeme} (n : String) : l.token = .name n false →
      n ∉ operatorWords → headToken ls ≠ .mark "=>" → Opening (l :: ls)
  | round {l m : Lexeme} {ls : List Lexeme} : l.token = .mark "(" →
      m.token = .name "function" false → Opening (l :: m :: ls)

variable {ls ms rest : List Lexeme}

theorem Opening.nonempty (h : Opening ls) : ls ≠ [] := by
  rintro rfl
  cases h

theorem Opening.begins (h : Opening ls) : Begins (headToken ls) := by
  cases h with
  | number x token => rw [headToken_cons, token]; exact .number x
  | string u token => rw [headToken_cons, token]; exact .string u
  | square token => rw [headToken_cons, token]; exact .square
  | name n token other _ => rw [headToken_cons, token]; exact .name n other
  | round token _ => rw [headToken_cons, token]; exact .round

theorem Opening.lead (h : Opening ls) (gap : List Char) : Opening (lead gap ls) := by
  cases h with
  | number x token => exact .number x token
  | string u token => exact .string u token
  | square token => exact .square token
  | name n token other next => exact .name n token other next
  | round token next => exact .round token next

theorem Opening.append (h : Opening ls) (other : headToken ms ≠ .mark "=>") :
    Opening (ls ++ ms) := by
  cases h with
  | number x token => exact .number x token
  | string u token => exact .string u token
  | square token => exact .square token
  | @name _ ls n token free next =>
    refine .name n token free ?_
    cases ls with
    | nil => exact other
    | cons => exact next
  | round token next => exact .round token next

theorem Opening.headToken_append (h : Opening ls) (ms : List Lexeme) :
    headToken (ls ++ ms) = headToken ls := by
  cases h <;> rfl

theorem Begins.not_mark {t : Token} (h : Begins t) {m : String} (other : m ∉ ["[", "("]) :
    t ≠ .mark m := by
  rintro rfl
  cases h <;> simp at other

theorem identifier_run (p : Place) :
    identifier p = (nameOf? p.token).map fun n => (n, p.next) := by
  rw [identifier, bind_run, peek_run, Option.bind_some]
  cases nameOf? p.token <;> rfl

/-- A reserved word is no parameter. -/
theorem parameters_reserved {n : String} (token : p.token = .name n false)
    (known : n ∈ reserved) : ∀ fuel, parameters fuel p = none
  | 0 => rfl
  | fuel + 1 => by
    have target : ∀ fuel, bindingTarget fuel p = none
      | 0 => rfl
      | fuel + 1 => by
        simp [bindingTarget, bind_run, map_run, takeMark_run, token, identifier_run, nameOf?, known]
    have element : ∀ fuel, bindingElement fuel p = none
      | 0 => rfl
      | fuel + 1 => by
        rw [bindingElement, bind_run, target]
        rfl
    simp [parameters, bind_run, takeMark_run, token, element]

/-- An expression of generated code is no function with an arrow. -/
theorem Opening.arrowHead (whole : Opening ls) (at_ls : Place.At ls p) :
    ∀ fuel, arrowHead fuel p = none
  | 0 => rfl
  | fuel + 1 => by
    have token := at_ls.token
    rw [Parser.arrowHead, bind_run, get_run, Option.bind_some, bind_run, takeMark_run]
    cases whole with
    | number x first =>
      rw [headToken_cons, first] at token
      simp [token, bind_run, identifier_run, nameOf?]
    | string u first =>
      rw [headToken_cons, first] at token
      simp [token, bind_run, identifier_run, nameOf?]
    | square first =>
      rw [headToken_cons, first] at token
      simp [token, bind_run, identifier_run, nameOf?]
    | name n first free next =>
      rw [headToken_cons, first] at token
      have after := at_ls.next.token
      by_cases known : n ∈ reserved
      · simp [token, bind_run, identifier_run, nameOf?, known]
      · by_cases broken : p.next.afterBreak = true <;>
          simp [token, bind_run, map_run, identifier_run, nameOf?, known, get_run, require_run,
            expect_run, after, next, broken]
    | round first second =>
      rw [headToken_cons, first] at token
      have after := at_ls.next.token
      rw [headToken_cons, second] at after
      simp [token, bind_run, parameters_reserved after (by decide)]

/-! ## Operands -/

/-- Written tokens that are read as an operand, whatever blanks stand before them. What is left to
read are the calls and the accesses that follow. -/
structure Operand (ls : List Lexeme) : Prop where
  opening : Opening ls
  reads : ∀ (gap : List Char) (c : Surround) (fuel : Nat) (rest : List Lexeme) (p : Place),
    16 * ls.length ≤ fuel + 10 → Place.At (lead gap ls ++ rest) p →
    ∃ x p' left, access c fuel p = accessRest c true false left x p' ∧ hasDefault x = false
      ∧ Place.At rest p' ∧ fuel + 15 ≤ left + 16 * ls.length

/-- Written tokens that are read as calls and accesses after an operand, whatever blanks stand
before them. -/
structure Suffix (ls : List Lexeme) : Prop where
  nonempty : ls ≠ []
  no_arrow : headToken ls ≠ .mark "=>"
  reads : ∀ (gap : List Char) (c : Surround) (left : Nat) (x : Expr) (rest : List Lexeme)
    (p : Place), 16 * ls.length ≤ left → Place.At (lead gap ls ++ rest) p →
    ∃ x' p' left', accessRest c true false left x p = accessRest c true false left' x' p'
      ∧ hasDefault x' = false ∧ Place.At rest p' ∧ left + 15 ≤ left' + 16 * ls.length

theorem Opening.length_pos (h : Opening ls) : 0 < ls.length :=
  List.length_pos_iff.2 h.nonempty

theorem Operand.append (h : Operand ls) (g : Suffix ms) : Operand (ls ++ ms) where
  opening := h.opening.append g.no_arrow
  reads gap c fuel rest p enough at_p := by
    rw [List.length_append] at enough ⊢
    rw [lead_append gap h.opening.nonempty, List.append_assoc] at at_p
    obtain ⟨x, p₁, left, read, plain, at_ms, rich⟩ :=
      h.reads gap c fuel (ms ++ rest) p (by omega) at_p
    rw [← lead_no_gap ms] at at_ms
    obtain ⟨x', p', left', more, plain', at_rest, rich'⟩ :=
      g.reads [] c left x rest p₁ (by omega) at_ms
    exact ⟨x', p', left', read.trans more, plain', at_rest, by omega⟩

theorem Suffix.append (h : Suffix ls) (g : Suffix ms) : Suffix (ls ++ ms) where
  nonempty := by simp [h.nonempty]
  no_arrow := by
    cases ls with
    | nil => exact absurd rfl h.nonempty
    | cons => exact h.no_arrow
  reads gap c left x rest p enough at_p := by
    rw [List.length_append] at enough ⊢
    rw [lead_append gap h.nonempty, List.append_assoc] at at_p
    obtain ⟨x₁, p₁, left₁, read, -, at_ms, rich⟩ :=
      h.reads gap c left x (ms ++ rest) p (by omega) at_p
    rw [← lead_no_gap ms] at at_ms
    obtain ⟨x', p', left', more, plain, at_rest, rich'⟩ :=
      g.reads [] c left₁ x₁ rest p₁ (by omega) at_ms
    exact ⟨x', p', left', read.trans more, plain, at_rest, by omega⟩

theorem Operand.lead (h : Operand ls) (gap : List Char) : Operand (lead gap ls) where
  opening := h.opening.lead gap
  reads more c fuel rest p enough at_p := by
    rw [length_lead] at enough ⊢
    rw [lead_lead] at at_p
    exact h.reads (more ++ gap) c fuel rest p enough at_p

theorem Suffix.lead (h : Suffix ls) (gap : List Char) : Suffix (lead gap ls) where
  nonempty := by
    cases ls with
    | nil => exact h.nonempty
    | cons => simp
  no_arrow := by
    rw [headToken_lead]
    exact h.no_arrow
  reads more c left x rest p enough at_p := by
    rw [length_lead] at enough ⊢
    rw [lead_lead] at at_p
    exact h.reads (more ++ gap) c left x rest p enough at_p

/-- A primary expression is an operand. -/
theorem Operand.of_primary (opening : Opening ls) (first : headToken ls ≠ .name "new" false)
    (read : ∀ (gap : List Char) (c : Surround) (fuel : Nat) (rest : List Lexeme) (p : Place),
      16 * ls.length ≤ fuel + 11 → Place.At (EggLang.Script.lead gap ls ++ rest) p →
      ∃ x p', primary c fuel p = some (x, p') ∧ hasDefault x = false ∧ Place.At rest p') :
    Operand ls where
  opening := opening
  reads gap c fuel rest p enough at_p := by
    have pos := opening.length_pos
    obtain ⟨fuel, rfl⟩ : ∃ f, fuel = f + 1 := ⟨fuel - 1, by omega⟩
    obtain ⟨x, p', found, plain, at_rest⟩ := read gap c fuel rest p (by omega) at_p
    refine ⟨x, p', fuel, access_of_primary ?_ found, plain, at_rest, by omega⟩
    rwa [at_p.token, (opening.lead gap).headToken_append, headToken_lead]

theorem Operand.number {l : Lexeme} {n : Numeric} (token : l.token = .number n) : Operand [l] := by
  refine .of_primary (.number n token) (by simp [token]) fun gap c fuel rest p enough at_p => ?_
  obtain ⟨fuel, rfl⟩ : ∃ f, fuel = f + 1 := ⟨fuel - 1, by simp at enough; omega⟩
  have same : p.token = .number n := at_p.token.trans token
  refine ⟨.number n, p.next, ?_, rfl, at_p.next⟩
  rw [primary, bind_run, get_run, Option.bind_some]
  simp only [same]
  rfl

theorem Operand.string {l : Lexeme} {u : Units} (token : l.token = .string u) : Operand [l] := by
  refine .of_primary (.string u token) (by simp [token]) fun gap c fuel rest p enough at_p => ?_
  obtain ⟨fuel, rfl⟩ : ∃ f, fuel = f + 1 := ⟨fuel - 1, by simp at enough; omega⟩
  have same : p.token = .string u := at_p.token.trans token
  refine ⟨.string u, p.next, ?_, rfl, at_p.next⟩
  rw [primary, bind_run, get_run, Option.bind_some]
  simp only [same]
  rfl

theorem primary_name {n : String} (free : n ∉ reserved) (token : p.token = .name n false) :
    primary c (fuel + 1) p = some (.ident n, p.next) := by
  have other : ∀ w ∈ reserved, n ≠ w := fun w mem same => free (same ▸ mem)
  have not_true := other "true" (by decide)
  have not_false := other "false" (by decide)
  have not_null := other "null" (by decide)
  have not_this := other "this" (by decide)
  have not_function := other "function" (by decide)
  rw [primary, bind_run, get_run, Option.bind_some]
  simp [token, not_true, not_false, not_null, not_this, not_function, bind_run, map_run,
    require_run, free, advance_run]

theorem not_operator_of_free {n : String} (free : n ∉ reserved) : n ∉ operatorWords := by
  intro mem
  simp only [operatorWords, List.mem_cons, List.not_mem_nil, or_false] at mem
  rcases mem with rfl | rfl | rfl <;> exact free (by decide)

theorem Operand.name {l : Lexeme} {n : String} (free : n ∉ reserved)
    (token : l.token = .name n false) : Operand [l] := by
  have not_new : n ≠ "new" := fun same => free (same ▸ by decide)
  refine .of_primary (.name n token (not_operator_of_free free) (by simp))
    (by simp [token, not_new]) fun gap c fuel rest p enough at_p => ?_
  obtain ⟨fuel, rfl⟩ : ∃ f, fuel = f + 1 := ⟨fuel - 1, by simp at enough; omega⟩
  exact ⟨.ident n, p.next, primary_name free (at_p.token.trans token), rfl, at_p.next⟩

theorem Operand.truth {l : Lexeme} (b : Bool) (token : l.token = .name (toString b) false) :
    Operand [l] := by
  have plain : toString b ∉ operatorWords := by cases b <;> decide
  have not_new : toString b ≠ "new" := by cases b <;> decide
  refine .of_primary (.name _ token plain (by simp)) (by simp [token, not_new])
    fun gap c fuel rest p enough at_p => ?_
  obtain ⟨fuel, rfl⟩ : ∃ f, fuel = f + 1 := ⟨fuel - 1, by simp at enough; omega⟩
  have same : p.token = .name (toString b) false := at_p.token.trans token
  refine ⟨.bool b, p.next, ?_, rfl, at_p.next⟩
  rw [primary, bind_run, get_run, Option.bind_some]
  simp only [same]
  cases b <;> rfl

/-! ## Operations -/

/-- Operators with their second operands. -/
inductive Parts : List Lexeme → Prop where
  | nil : Parts []
  | cons {l : Lexeme} {ls ms : List Lexeme} (m : String) : l.token = .mark m → m ∈ infixes →
      Operand ls → Parts ms → Parts (l :: (ls ++ ms))

theorem Operand.power (h : Operand ls) (fuel : Nat) (enough : 16 * ls.length ≤ fuel + 8)
    (at_p : Place.At (ls ++ rest) p) (halts : Halts (headToken rest)) :
    ∃ x p', power c fuel p = some (x, p') ∧ hasDefault x = false ∧ Place.At rest p' := by
  have pos := h.opening.length_pos
  obtain ⟨fuel, rfl⟩ : ∃ f, fuel = f + 2 := ⟨fuel - 2, by omega⟩
  obtain ⟨x, p', left, read, plain, at_rest, rich⟩ :=
    h.reads [] c fuel rest p (by omega) (by rwa [lead_no_gap])
  rw [← at_rest.token] at halts
  obtain ⟨left, rfl⟩ : ∃ f, left = f + 1 := ⟨left - 1, by omega⟩
  rw [halts.accessRest] at read
  refine ⟨x, p', power_of_access ?_ read halts, plain, at_rest⟩
  rw [at_p.token, h.opening.headToken_append]
  exact h.opening.begins

theorem operator_of_mem {m : String} (mem : m ∈ infixes) (c : Surround) :
    ∃ level op, operator? c (.mark m) = some (level, .strict op) ∧ 6 ≤ level := by
  simp only [infixes, List.mem_cons, List.not_mem_nil, or_false] at mem
  rcases mem with rfl | rfl | rfl | rfl | rfl | rfl | rfl | rfl | rfl <;>
    exact ⟨_, _, rfl, by decide⟩

theorem Parts.halts {ps : List Lexeme} (parts : Parts ps) (halts : Halts (headToken rest)) :
    Halts (headToken (ps ++ rest)) := by
  cases parts with
  | nil => exact halts
  | cons m token mem => 
    rw [List.cons_append, headToken_cons, token]
    exact .operator m mem

theorem binaryRest_ends {least : Nat} (ends : operator? c p.token = none) :
    binaryRest c least (fuel + 1) x p = some (x, p) := by
  rw [binaryRest, bind_run, peek_run, Option.bind_some, ends]
  rfl

/-- Operators and operands are read up to an operator that does not bind tightly enough. -/
theorem Parts.climb (n : Nat) {ps : List Lexeme} (parts : Parts ps) (short : ps.length ≤ n)
    (least fuel : Nat) (enough : 16 * ps.length ≤ fuel) (plain : hasDefault x = false)
    (at_p : Place.At (ps ++ rest) p) (halts : Halts (headToken rest))
    (ends : operator? c (headToken rest) = none) :
    ∃ x' p' qs, Parts qs ∧ qs.length ≤ ps.length
      ∧ binaryRest c least (fuel + 1) x p = some (x', p') ∧ hasDefault x' = false
      ∧ Place.At (qs ++ rest) p' ∧ (least ≤ 6 → qs = []) := by
  induction n generalizing ps least fuel x p with
  | zero =>
    obtain rfl := List.length_eq_zero_iff.1 (Nat.le_zero.1 short)
    refine ⟨x, p, [], .nil, by simp, binaryRest_ends ?_, plain, at_p, fun _ => rfl⟩
    rwa [at_p.token]
  | succ n ih =>
    cases parts with
    | nil =>
      refine ⟨x, p, [], .nil, by simp, binaryRest_ends ?_, plain, at_p, fun _ => rfl⟩
      rwa [at_p.token]
    | @cons l ls ms m token mem operand parts =>
      obtain ⟨level, op, found, tight⟩ := operator_of_mem mem c
      have head : p.token = .mark m := at_p.token.trans token
      rw [binaryRest, bind_run, peek_run, Option.bind_some, head, found]
      by_cases loose : level < least
      · refine ⟨x, p, l :: (ls ++ ms), .cons m token mem operand parts, Nat.le_refl _, ?_, plain,
          at_p, fun low => by omega⟩
        simp only [if_pos loose]
        rfl
      · simp only [List.length_cons, List.length_append] at enough short
        have at_ls : Place.At (ls ++ (ms ++ rest)) p.next := by
          rw [← List.append_assoc]
          exact at_p.next
        obtain ⟨fuel, rfl⟩ : ∃ f, fuel = f + 2 := ⟨fuel - 2, by omega⟩
        obtain ⟨y, p₁, operand_read, y_plain, at_ms⟩ :=
          operand.power (fuel + 1) (by omega) at_ls (parts.halts halts)
        obtain ⟨right, p₂, qs, qs_parts, qs_short, right_read, right_plain, at_qs, -⟩ :=
          ih parts (by omega) (if level = comparisonLevel then level else level + 1) fuel
            (by omega) y_plain at_ms
        obtain ⟨x', p', rs, rs_parts, rs_short, whole_read, x'_plain, at_rs, low⟩ :=
          ih (x := .binary op x right) qs_parts (by omega) least (fuel + 1) (by omega) rfl at_qs
        refine ⟨x', p', rs, rs_parts, by simp only [List.length_cons, List.length_append]; omega,
          ?_, x'_plain, at_rs, low⟩
        have binary_read : binary c (if level = comparisonLevel then level else level + 1)
            (fuel + 2) p.next = some (right, p₂) := by
          rw [binary, bind_run, operand_read]
          exact right_read
        simp only [if_neg loose]
        rw [bind_run, advance_run, Option.bind_some, bind_run, binary_read]
        exact whole_read

/-! ## Expressions -/

/-- An operand with operators and further operands. -/
structure Chain (ls : List Lexeme) : Prop where
  split : ∃ ms ps, ls = ms ++ ps ∧ Operand ms ∧ Parts ps

theorem Operand.chain (h : Operand ls) : Chain ls := ⟨ls, [], by simp, h, .nil⟩

theorem Chain.opening (h : Chain ls) : Opening ls := by
  obtain ⟨ms, ps, rfl, operand, parts⟩ := h
  refine operand.opening.append ?_
  cases parts with
  | nil => simp
  | cons m token mem =>
    rw [headToken_cons, token]
    intro same
    cases same
    simp [infixes] at mem

theorem Chain.lead (h : Chain ls) (gap : List Char) : Chain (lead gap ls) := by
  obtain ⟨ms, ps, rfl, operand, parts⟩ := h
  exact ⟨EggLang.Script.lead gap ms, ps, lead_append gap operand.opening.nonempty ps,
    operand.lead gap, parts⟩

theorem Parts.append (h : Parts ls) (g : Parts ms) : Parts (ls ++ ms) := by
  induction h with
  | nil => exact g
  | cons m token mem operand _ ih =>
    rw [List.cons_append, List.append_assoc]
    exact .cons m token mem operand ih

theorem Parts.suffix (h : Parts ls) (some : ls ≠ []) (g : Suffix ms) : Parts (ls ++ ms) := by
  induction h with
  | nil => exact absurd rfl some
  | @cons l ls ps m token mem operand parts ih =>
    rw [List.cons_append, List.append_assoc]
    cases parts with
    | nil =>
      rw [List.nil_append, ← List.append_nil (ls ++ ms)]
      exact .cons m token mem (operand.append g) .nil
    | cons => exact .cons m token mem operand (ih (by simp))

theorem Chain.parts (h : Chain ls) (g : Parts ms) : Chain (ls ++ ms) := by
  obtain ⟨os, ps, rfl, operand, parts⟩ := h
  exact ⟨os, ps ++ ms, by simp, operand, parts.append g⟩

/-- Calls and accesses after an expression belong to its last operand. -/
theorem Chain.suffix (h : Chain ls) (g : Suffix ms) : Chain (ls ++ ms) := by
  obtain ⟨os, ps, rfl, operand, parts⟩ := h
  by_cases none : ps = []
  · subst none
    rw [List.append_nil]
    exact (operand.append g).chain
  · exact ⟨os, ps ++ ms, by simp, operand, parts.suffix none g⟩

theorem conditional_of_binary (read : binary c 3 fuel p = some (x, p'))
    (halts : Halts p'.token) (ends : operator? c p'.token = none) :
    conditional c (fuel + 2) p = some (x, p') := by
  obtain ⟨fuel, rfl⟩ : ∃ f, fuel = f + 1 := by
    cases fuel with
    | zero => cases read
    | succ f => exact ⟨f, rfl⟩
  have circuit_read : shortCircuit c (fuel + 2) p = some (x, p') := by
    rw [shortCircuit, bind_run, read, Option.bind_some, bind_run, atMark_run,
      decide_eq_false (halts.not_mark (by decide))]
    exact binaryRest_ends ends
  rw [conditional, bind_run, circuit_read, Option.bind_some, bind_run, takeMark_run,
    if_neg (halts.not_mark (by decide))]
  rfl

theorem Chain.conditional (h : Chain ls) (enough : 16 * ls.length ≤ fuel + 1)
    (at_p : Place.At (ls ++ rest) p) (halts : Halts (headToken rest))
    (ends : operator? c (headToken rest) = none) :
    ∃ x p', conditional c fuel p = some (x, p') ∧ hasDefault x = false ∧ Place.At rest p' := by
  obtain ⟨ms, ps, rfl, operand, parts⟩ := h
  have pos := operand.opening.length_pos
  rw [List.length_append] at enough
  obtain ⟨fuel, rfl⟩ : ∃ f, fuel = f + 4 := ⟨fuel - 4, by omega⟩
  rw [List.append_assoc] at at_p
  obtain ⟨x, p₁, first, plain, at_ps⟩ :=
    operand.power (fuel + 1) (by omega) at_p (parts.halts halts)
  obtain ⟨x', p', qs, -, -, read, plain', at_rest, all⟩ :=
    parts.climb ps.length (Nat.le_refl _) 3 fuel (by omega) plain at_ps halts ends
  obtain rfl := all (by decide)
  have token := at_rest.token
  rw [List.nil_append] at token at_rest
  rw [← token] at ends halts
  refine ⟨x', p', conditional_of_binary ?_ halts ends, plain', at_rest⟩
  rw [binary, bind_run, first]
  exact read

theorem Stops.operator? {t : Token} (h : Stops t) : operator? c t = none := by
  cases h with
  | name n other =>
    have not_in : n ≠ "in" := fun same => other (same ▸ by decide)
    have not_instanceof : n ≠ "instanceof" := fun same => other (same ▸ by decide)
    simp [Parser.operator?, not_in, not_instanceof]
  | round | square | brace | comma | number | «end» => rfl

theorem Stops.not_compound {m : String} (h : Stops (.mark m)) : compounds.lookup m = none := by
  generalize same : Token.mark m = t at h
  cases h <;> simp_all [compounds]

theorem Chain.assignment (h : Chain ls) (cover : Bool) (fuel : Nat) (enough : 16 * ls.length ≤ fuel)
    (at_p : Place.At (ls ++ rest) p) (stops : Stops (headToken rest)) :
    ∃ x p', assignment c cover fuel p = some (x, p') ∧ hasDefault x = false
      ∧ Place.At rest p' := by
  have pos := h.opening.length_pos
  obtain ⟨fuel, rfl⟩ : ∃ f, fuel = f + 1 := ⟨fuel - 1, by omega⟩
  obtain ⟨x, p', read, plain, at_rest⟩ :=
    h.conditional enough at_p (.stops stops) (stops.operator? (c := c))
  have whole : Opening (ls ++ rest) := h.opening.append (stops.not_mark (by decide))
  refine ⟨x, p', ?_, plain, at_rest⟩
  rw [Parser.assignment, bind_run, attempt_run _ _ (whole.arrowHead at_p fuel), Option.bind_some]
  simp only [bind_run, atMark_run, Option.bind_some, read, peek_run]
  rw [← at_rest.token] at stops
  generalize token : p'.token = t at stops
  have free : ∀ m, t = .mark m → compounds.lookup m = none := fun m same =>
    (same ▸ stops).not_compound
  have checked : (require (cover || !hasDefault x)) p' = some ((), p') := by
    simp [require_run, plain]
  cases stops <;> simp [free, bind_run, pure_run, checked]

/-! ## Lists of expressions -/

/-- Further expressions, each behind a comma. -/
inductive Tail : List Lexeme → Prop where
  | nil : Tail []
  | cons {l : Lexeme} {ls ms : List Lexeme} : l.token = .mark "," → Chain ls → Tail ms →
      Tail (l :: (ls ++ ms))

/-- Expressions with commas between them, at least one. -/
structure Items (ls : List Lexeme) : Prop where
  split : ∃ ms ts, ls = ms ++ ts ∧ Chain ms ∧ Tail ts

theorem Chain.items (h : Chain ls) : Items ls := ⟨ls, [], by simp, h, .nil⟩

theorem Items.cons (h : Chain ls) {l : Lexeme} (comma : l.token = .mark ",") (g : Items ms) :
    Items (ls ++ l :: ms) := by
  obtain ⟨os, ts, rfl, first, more⟩ := g
  exact ⟨ls, l :: (os ++ ts), rfl, h, .cons comma first more⟩

theorem Tail.stops {ts : List Lexeme} (tail : Tail ts) (stops : Stops (headToken rest)) :
    Stops (headToken (ts ++ rest)) := by
  cases tail with
  | nil => exact stops
  | cons comma =>
    rw [List.cons_append, headToken_cons, comma]
    exact .comma

theorem Tail.expressionRest {ts : List Lexeme} (tail : Tail ts) (fuel : Nat)
    (enough : 16 * ts.length < fuel) (plain : hasDefault x = false) (at_p : Place.At (ts ++ rest) p)
    (stops : Stops (headToken rest)) (last : headToken rest ≠ .mark ",") :
    ∃ x' p', expressionRest c fuel x p = some (x', p') ∧ hasDefault x' = false
      ∧ Place.At rest p' := by
  induction tail generalizing fuel x p with
  | nil =>
    obtain ⟨fuel, rfl⟩ : ∃ f, fuel = f + 1 := ⟨fuel - 1, by omega⟩
    refine ⟨x, p, ?_, plain, at_p⟩
    rw [Parser.expressionRest, bind_run, takeMark_run, if_neg]
    · rfl
    · rw [at_p.token]
      exact last
  | @cons l ls ms comma chain tail ih =>
    simp only [List.length_cons, List.length_append] at enough
    obtain ⟨fuel, rfl⟩ : ∃ f, fuel = f + 1 := ⟨fuel - 1, by omega⟩
    have token : p.token = .mark "," := at_p.token.trans comma
    have at_ls : Place.At (ls ++ (ms ++ rest)) p.next := by
      rw [← List.append_assoc]
      exact at_p.next
    obtain ⟨y, p₁, read, -, at_ms⟩ :=
      chain.assignment (c := c) false fuel (by omega) at_ls (tail.stops stops)
    obtain ⟨x', p', more, plain', at_rest⟩ :=
      ih (x := .sequence x y) fuel (by omega) rfl at_ms
    refine ⟨x', p', ?_, plain', at_rest⟩
    rw [Parser.expressionRest, bind_run, takeMark_run, if_pos token, Option.bind_some]
    simp only [if_true, bind_run, read]
    exact more

theorem Items.expression (h : Items ls) (fuel : Nat) (enough : 16 * ls.length < fuel)
    (at_p : Place.At (ls ++ rest) p) (stops : Stops (headToken rest))
    (last : headToken rest ≠ .mark ",") :
    ∃ x p', expression c fuel p = some (x, p') ∧ hasDefault x = false ∧ Place.At rest p' := by
  obtain ⟨ms, ts, rfl, first, tail⟩ := h
  have pos := first.opening.length_pos
  rw [List.length_append] at enough
  obtain ⟨fuel, rfl⟩ : ∃ f, fuel = f + 1 := ⟨fuel - 1, by omega⟩
  rw [List.append_assoc] at at_p
  obtain ⟨x, p₁, read, plain, at_ts⟩ :=
    first.assignment (c := c) false fuel (by omega) at_p (tail.stops stops)
  obtain ⟨x', p', more, plain', at_rest⟩ :=
    tail.expressionRest (c := c) fuel (by omega) plain at_ts stops last
  refine ⟨x', p', ?_, plain', at_rest⟩
  rw [Parser.expression, bind_run, read]
  exact more

theorem Items.opening (h : Items ls) : Opening ls := by
  obtain ⟨ms, ts, rfl, first, tail⟩ := h
  refine first.opening.append ?_
  cases tail with
  | nil => simp
  | cons comma => simp [comma]

theorem Items.lead (h : Items ls) (gap : List Char) : Items (lead gap ls) := by
  obtain ⟨ms, ts, rfl, first, tail⟩ := h
  exact ⟨EggLang.Script.lead gap ms, ts, lead_append gap first.opening.nonempty ts,
    first.lead gap, tail⟩

variable {close : Lexeme}

/-- What stands first among items is no closing bracket and nothing left out. -/
theorem Opening.not_mark (h : Opening ls) (at_p : Place.At (ls ++ rest) p) {m : String}
    (other : m ∉ ["[", "("]) : p.token ≠ .mark m := by
  rw [at_p.token, h.headToken_append]
  exact h.begins.not_mark other

theorem Items.elements (h : Items ls) (fuel : Nat) (enough : 16 * ls.length < fuel)
    (closes : close.token = .mark "]") (at_p : Place.At (ls ++ close :: rest) p) :
    ∃ es p', elements c fuel p = some (es, p') ∧ hasDefaultAny es = false
      ∧ Place.At rest p' := by
  obtain ⟨ms, ts, rfl, first, tail⟩ := h
  have stops : Stops (headToken (close :: rest)) := by
    rw [headToken_cons, closes]
    exact .square
  induction tail generalizing ms fuel p with
  | nil =>
    rw [List.append_nil] at enough at_p
    obtain ⟨fuel, rfl⟩ : ∃ f, fuel = f + 1 := ⟨fuel - 1, by omega⟩
    obtain ⟨x, p₁, read, plain, at_close⟩ :=
      first.assignment (c := c) true fuel (by omega) at_p stops
    refine ⟨[x], p₁.next, ?_, by simp [hasDefaultAny, plain], at_close.next⟩
    simp [Parser.elements, bind_run, takeMark_run, first.opening.not_mark at_p, read,
      at_close.token, closes, pure_run]
  | @cons l ls ts comma chain tail ih =>
    simp only [List.length_cons, List.length_append] at enough
    have pos := first.opening.length_pos
    obtain ⟨fuel, rfl⟩ : ∃ f, fuel = f + 1 := ⟨fuel - 1, by omega⟩
    rw [List.append_assoc] at at_p
    obtain ⟨x, p₁, read, plain, at_comma⟩ :=
      first.assignment (c := c) true fuel (by omega) at_p
        (by rw [List.cons_append, headToken_cons, comma]; exact .comma)
    obtain ⟨es, p', more, es_plain, at_rest⟩ :=
      ih fuel ls (by rw [List.length_append]; omega) at_comma.next chain
    refine ⟨x :: es, p', ?_, by simp [hasDefaultAny, plain, es_plain], at_rest⟩
    simp [Parser.elements, bind_run, map_run, takeMark_run, expect_run,
      first.opening.not_mark at_p, read, at_comma.token, comma, more]

theorem Items.arguments (h : Items ls) (fuel : Nat) (enough : 16 * ls.length < fuel)
    (closes : close.token = .mark ")") (at_p : Place.At (ls ++ close :: rest) p) :
    ∃ es p', arguments c fuel p = some (es, p') ∧ Place.At rest p' := by
  obtain ⟨ms, ts, rfl, first, tail⟩ := h
  have stops : Stops (headToken (close :: rest)) := by
    rw [headToken_cons, closes]
    exact .round
  induction tail generalizing ms fuel p with
  | nil =>
    rw [List.append_nil] at enough at_p
    obtain ⟨fuel, rfl⟩ : ∃ f, fuel = f + 1 := ⟨fuel - 1, by omega⟩
    obtain ⟨x, p₁, read, -, at_close⟩ :=
      first.assignment (c := c) false fuel (by omega) at_p stops
    refine ⟨[x], p₁.next, ?_, at_close.next⟩
    simp [Parser.arguments, bind_run, takeMark_run, first.opening.not_mark at_p, read,
      at_close.token, closes, pure_run]
  | @cons l ls ts comma chain tail ih =>
    simp only [List.length_cons, List.length_append] at enough
    have pos := first.opening.length_pos
    obtain ⟨fuel, rfl⟩ : ∃ f, fuel = f + 1 := ⟨fuel - 1, by omega⟩
    rw [List.append_assoc] at at_p
    obtain ⟨x, p₁, read, -, at_comma⟩ :=
      first.assignment (c := c) false fuel (by omega) at_p
        (by rw [List.cons_append, headToken_cons, comma]; exact .comma)
    obtain ⟨es, p', more, at_rest⟩ :=
      ih fuel ls (by rw [List.length_append]; omega) at_comma.next chain
    refine ⟨x :: es, p', ?_, at_rest⟩
    simp [Parser.arguments, bind_run, map_run, takeMark_run, expect_run,
      first.opening.not_mark at_p, read, at_comma.token, comma, more]

/-! ## Literals, accesses and calls -/

variable {l l₁ l₂ : Lexeme}

theorem Operand.array (h : Items ls) (opens : l.token = .mark "[")
    (closes : close.token = .mark "]") : Operand (l :: (ls ++ [close])) := by
  refine .of_primary (.square opens) (by simp [opens]) fun gap c fuel rest p enough at_p => ?_
  simp only [List.length_cons, List.length_append, List.length_nil] at enough
  obtain ⟨fuel, rfl⟩ : ∃ f, fuel = f + 1 := ⟨fuel - 1, by omega⟩
  have token : p.token = .mark "[" := at_p.token.trans opens
  have at_ls : Place.At (ls ++ close :: rest) p.next := by simpa using at_p.next
  obtain ⟨es, p', read, plain, at_rest⟩ :=
    h.elements (c := c.inside) fuel (by omega) closes at_ls
  refine ⟨.array es, p', ?_, plain, at_rest⟩
  simp [primary, bind_run, map_run, get_run, advance_run, token, read]

theorem Operand.noElements (opens : l.token = .mark "[") (closes : close.token = .mark "]") :
    Operand [l, close] := by
  refine .of_primary (.square opens) (by simp [opens]) fun gap c fuel rest p enough at_p => ?_
  simp only [List.length_cons, List.length_nil] at enough
  obtain ⟨fuel, rfl⟩ : ∃ f, fuel = f + 2 := ⟨fuel - 2, by omega⟩
  have token : p.token = .mark "[" := at_p.token.trans opens
  have next : p.next.token = .mark "]" := at_p.next.token.trans closes
  refine ⟨.array [], p.next.next, ?_, rfl, at_p.next.next⟩
  simp [primary, Parser.elements, bind_run, map_run, pure_run, get_run, advance_run, takeMark_run,
    token, next]

theorem Suffix.member {n : String} (dot : l₁.token = .mark ".")
    (named : l₂.token = .name n false) : Suffix [l₁, l₂] where
  nonempty := by simp
  no_arrow := by simp [dot]
  reads gap c left x rest p enough at_p := by
    simp only [List.length_cons, List.length_nil] at enough ⊢
    obtain ⟨left, rfl⟩ : ∃ f, left = f + 1 := ⟨left - 1, by omega⟩
    have token : p.token = .mark "." := at_p.token.trans dot
    have next : p.next.token = .name n false := at_p.next.token.trans named
    refine ⟨.member false x (Units.ofString n), p.next.next, left, ?_, rfl, at_p.next.next,
      by omega⟩
    simp [accessRest, accessRest.memberName, bind_run, map_run, peek_run, advance_run, token, next]

theorem Suffix.index (h : Items ls) (opens : l.token = .mark "[")
    (closes : close.token = .mark "]") : Suffix (l :: (ls ++ [close])) where
  nonempty := by simp
  no_arrow := by simp [opens]
  reads gap c left x rest p enough at_p := by
    simp only [List.length_cons, List.length_append, List.length_nil] at enough ⊢
    obtain ⟨left, rfl⟩ : ∃ f, left = f + 1 := ⟨left - 1, by omega⟩
    have token : p.token = .mark "[" := at_p.token.trans opens
    have at_ls : Place.At (ls ++ close :: rest) p.next := by simpa using at_p.next
    obtain ⟨i, p₁, read, -, at_close⟩ :=
      h.expression (c := c.inside) left (by omega) at_ls
        (by rw [headToken_cons, closes]; exact .square) (by simp [closes])
    refine ⟨.index false x i, p₁.next, left, ?_, rfl, at_close.next, by omega⟩
    simp [accessRest, bind_run, peek_run, advance_run, expect_run, token, read, at_close.token,
      closes]

theorem Suffix.call (h : Items ls) (opens : l.token = .mark "(")
    (closes : close.token = .mark ")") : Suffix (l :: (ls ++ [close])) where
  nonempty := by simp
  no_arrow := by simp [opens]
  reads gap c left x rest p enough at_p := by
    simp only [List.length_cons, List.length_append, List.length_nil] at enough ⊢
    obtain ⟨left, rfl⟩ : ∃ f, left = f + 1 := ⟨left - 1, by omega⟩
    have token : p.token = .mark "(" := at_p.token.trans opens
    have at_ls : Place.At (ls ++ close :: rest) p.next := by simpa using at_p.next
    obtain ⟨args, p', read, at_rest⟩ :=
      h.arguments (c := c.inside) left (by omega) closes at_ls
    refine ⟨.call false x args, p', left, ?_, rfl, at_rest, by omega⟩
    simp [accessRest, bind_run, peek_run, advance_run, token, read]

/-- An object made by calling a name. -/
theorem Operand.construction {n : String} {made word : Lexeme} (h : Items ls)
    (word_token : word.token = .name "new" false) (named : made.token = .name n false)
    (free : n ∉ reserved) (opens : l.token = .mark "(") (closes : close.token = .mark ")") :
    Operand (word :: made :: l :: (ls ++ [close])) where
  opening := .name "new" word_token (by decide) (by simp [named])
  reads gap c fuel rest p enough at_p := by
    simp only [List.length_cons, List.length_append, List.length_nil] at enough ⊢
    obtain ⟨fuel, rfl⟩ : ∃ f, fuel = f + 3 := ⟨fuel - 3, by omega⟩
    have token : p.token = .name "new" false := at_p.token.trans word_token
    have second : p.next.token = .name n false := at_p.next.token.trans named
    have third : p.next.next.token = .mark "(" := at_p.next.next.token.trans opens
    have other : n ≠ "new" := fun same => free (same ▸ by decide)
    have at_ls : Place.At (ls ++ close :: rest) p.next.next.next := by
      simpa using at_p.next.next.next
    obtain ⟨args, p', read, at_rest⟩ :=
      h.arguments (c := c.inside) (fuel + 1) (by omega) closes at_ls
    have callee : accessRest c false false (fuel + 1) (.ident n) p.next.next
        = some (.ident n, p.next.next) := by
      rw [accessRest, bind_run, peek_run, Option.bind_some, third]
      rfl
    have made : Parser.construction c (fuel + 2) p.next
        = some (.construct (.ident n) args, p') := by
      simp [Parser.construction, bind_run, map_run, takeMark_run, takeWord_run, second, other,
        primary_name free second, callee, third, read]
    refine ⟨.construct (.ident n) args, p', fuel + 2, ?_, rfl, at_rest, by omega⟩
    rw [access, bind_run, takeWord_run, if_pos token, Option.bind_some]
    simp [bind_run, made]

/-- A function in parentheses is an operand. -/
theorem Operand.parenthesised (h : Items ls) (opens : l.token = .mark "(")
    (starts : headToken ls = .name "function" false) (closes : close.token = .mark ")") :
    Operand (l :: (ls ++ [close])) := by
  have opening : Opening (l :: (ls ++ [close])) := by
    cases ls with
    | nil => exact absurd rfl h.opening.nonempty
    | cons => exact .round opens starts
  refine .of_primary opening (by simp [opens]) fun gap c fuel rest p enough at_p => ?_
  simp only [List.length_cons, List.length_append, List.length_nil] at enough
  obtain ⟨fuel, rfl⟩ : ∃ f, fuel = f + 1 := ⟨fuel - 1, by omega⟩
  have token : p.token = .mark "(" := at_p.token.trans opens
  have at_ls : Place.At (ls ++ close :: rest) p.next := by simpa using at_p.next
  obtain ⟨x, p₁, read, plain, at_close⟩ :=
    h.expression (c := c.inside) fuel (by omega) at_ls
      (by rw [headToken_cons, closes]; exact .round) (by simp [closes])
  refine ⟨x, _, ?_, plain, at_close.next.setReached p₁.reached⟩
  simp [primary, bind_run, map_run, get_run, advance_run, expect_run, modify_run, token, read,
    at_close.token, closes]

end EggLang.Script.Parser
