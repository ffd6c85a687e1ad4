import EggLang.Proofs.Script.Statements

/-!
# Readers step by step

What a reader does at a token, as one equation each: with one unit of fuel more than the parts that
it reads next.
-/

namespace EggLang.Script.Parser

variable {c : Surround} {p q : Place} {n least : Nat} {x : Expr} {cover : Bool}

/-! ## Accesses and primary expressions -/

theorem access_eq (plain : p.token ≠ .name "new" false) :
    access c (n + 1) p = (primary c n p).bind fun r => accessRest c true false n r.1 r.2 := by
  rw [access, bind_run, takeWord_run, if_neg plain]
  simp [bind_run]

theorem access_new (word : p.token = .name "new" false) :
    access c (n + 1) p = (construction c n p.next).bind fun r =>
      accessRest c true false n r.1 r.2 := by
  rw [access, bind_run, takeWord_run, if_pos word]
  simp [bind_run]

theorem accessRest_member {name : String} {isEscaped : Bool} (dot : p.token = .mark ".")
    (named : p.next.token = .name name isEscaped) :
    accessRest c true false (n + 1) x p
      = accessRest c true false n (.member false x (Units.ofString name)) p.next.next := by
  simp [accessRest, accessRest.memberName, bind_run, map_run, peek_run, advance_run, dot, named]

theorem accessRest_index (opens : p.token = .mark "[") :
    accessRest c true false (n + 1) x p = (expression c.inside n p.next).bind fun r =>
      if r.2.token = .mark "]" then accessRest c true false n (.index false x r.1) r.2.next
      else none := by
  simp only [accessRest, bind_run, peek_run, advance_run, expect_run, opens, Option.bind_some]
  congr 1
  funext r
  split <;> rfl

theorem accessRest_call (opens : p.token = .mark "(") :
    accessRest c true false (n + 1) x p = (arguments c.inside n p.next).bind fun r =>
      accessRest c true false n (.call false x r.1) r.2 := by
  simp [accessRest, bind_run, peek_run, advance_run, opens]

theorem primary_array (opens : p.token = .mark "[") :
    primary c (n + 1) p = (elements c.inside n p.next).bind fun r => some (.array r.1, r.2) := by
  simp only [primary, bind_run, get_run, advance_run, opens, Option.bind_some]
  cases elements c.inside n p.next <;> rfl

theorem primary_parenthesis (opens : p.token = .mark "(") :
    primary c (n + 1) p = (expression c.inside n p.next).bind fun r =>
      if r.2.token = .mark ")" then some (r.1, { r.2.next with reached := r.2.reached })
      else none := by
  simp only [primary, bind_run, get_run, advance_run, expect_run, opens, Option.bind_some]
  congr 1
  funext r
  split <;> rfl

theorem primary_function (word : p.token = .name "function" false)
    (opens : p.next.token = .mark "(") :
    primary c (n + 1) p = (functionRest p none n p.next).bind fun r =>
      some (.function r.1, r.2) := by
  rw [primary, bind_run, get_run, Option.bind_some]
  simp only [word, bind_run, advance_run, atMark_run, opens, Option.bind_some, decide_true, if_true,
    pure_run]

theorem construction_eq {name : String} (free : name ∉ reserved)
    (named : p.token = .name name false) (opens : p.next.token = .mark "(") :
    construction c (n + 2) p = (arguments c.inside (n + 1) p.next.next).bind fun r =>
      some (.construct (.ident name) r.1, r.2) := by
  have other : name ≠ "new" := fun same => free (same ▸ by decide)
  have callee : accessRest c false false (n + 1) (.ident name) p.next
      = some (.ident name, p.next) := by
    rw [accessRest, bind_run, peek_run, Option.bind_some, opens]
    rfl
  simp only [construction, bind_run, takeMark_run, takeWord_run, named, Token.name.injEq,
    other, reduceCtorEq, if_false, false_and, Option.bind_some, primary_name free named, callee,
    opens, if_true, Bool.false_eq_true]
  cases arguments c.inside (n + 1) p.next.next <;> rfl

/-! ## Operations -/

theorem unary_negate (mark : p.token = .mark "-") :
    unary c (n + 1) p = (unary c n p.next).bind fun r => some (.unary .negate r.1, r.2) := by
  rw [unary, bind_run, peek_run, Option.bind_some, mark]
  simp only [unary?, bind_run, advance_run, Option.bind_some]
  cases unary c n p.next <;> rfl

/-- Unless something that it goes on with stands behind what another reading gives, a reading gives
the same. -/
structure Passes (quiet : Token → Prop) (f g : Nat → Parse Expr) (p : Place) : Prop where
  back : ∀ {fuel : Nat} {z : Expr × Place}, f fuel p = some z →
    ∃ n r, fuel = n + 1 ∧ g n p = some r ∧ (quiet r.2.token → z = r)
  forth : ∀ {n : Nat} {r : Expr × Place}, g n p = some r → quiet r.2.token → f (n + 1) p = some r

theorem Passes.of {quiet : Token → Prop} {f g : Nat → Parse Expr} (zero : f 0 p = none)
    (fails : ∀ n, g n p = none → f (n + 1) p = none)
    (gives : ∀ n r, g n p = some r → quiet r.2.token → f (n + 1) p = some r) :
    Passes quiet f g p where
  back {fuel z} read := by
    cases fuel with
    | zero => cases zero.symm.trans read
    | succ n =>
      cases found : g n p with
      | none => cases (fails n found).symm.trans read
      | some r =>
        refine ⟨n, r, rfl, found, fun quiet => ?_⟩
        exact Option.some.inj (read.symm.trans (gives n r found quiet))
  forth found quiet := gives _ _ found quiet

theorem unary_passes (first : unary? p.token = none) (second : update? p.token = none)
    (plain : p.token ≠ .name "delete" false) :
    Passes (fun t => update? t = none) (unary c) (access c) p := by
  refine .of rfl (fun n fails => ?_) fun n r read quiet => ?_
  all_goals
    rw [unary, bind_run, peek_run, Option.bind_some, first]
    simp only [second]
    rw [bind_run, takeWord_run, if_neg plain]
    simp only [Option.bind_some, Bool.false_eq_true, if_false, bind_run]
  · rw [fails, Option.bind_none]
  · simp [read, peek_run, quiet, pure_run]

theorem power_passes (p : Place) : Passes (· ≠ .mark "**") (power c) (unary c) p := by
  refine .of rfl (fun n fails => ?_) fun n r read quiet => ?_
  all_goals rw [power, bind_run, atMark_run, Option.bind_some, bind_run]
  · rw [fails, Option.bind_none]
  · simp [read, bind_run, takeMark_run, quiet, pure_run]

theorem binary_eq : binary c least (n + 1) p
    = (power c n p).bind fun r => binaryRest c least n r.1 r.2 := by
  rw [binary, bind_run]

/-- A token behind which no operation goes on that binds tightly enough. -/
def Stuck (c : Surround) (least : Nat) (t : Token) : Prop :=
  ∀ level op, operator? c t = some (level, op) → level < least

theorem binaryRest_stuck (stuck : Stuck c least p.token) :
    binaryRest c least (n + 1) x p = some (x, p) := by
  rw [binaryRest, bind_run, peek_run, Option.bind_some]
  cases found : operator? c p.token with
  | none => rfl
  | some op =>
    obtain ⟨level, op⟩ := op
    simp only [if_pos (stuck level op found)]
    rfl

/-- How tightly the operators behind an operator have to bind. -/
def nextLevel (level : Nat) : Nat := if level = comparisonLevel then level else level + 1

theorem binaryRest_operation {level : Nat} {op : BinaryOp}
    (found : operator? c p.token = some (level, .strict op)) (tight : least ≤ level) :
    binaryRest c least (n + 1) x p = (binary c (nextLevel level) n p.next).bind fun r =>
      binaryRest c least n (.binary op x r.1) r.2 := by
  rw [binaryRest, bind_run, peek_run, Option.bind_some, found]
  simp only [if_neg (Nat.not_lt.2 tight), bind_run, advance_run, Option.bind_some]
  rfl

/-! ## Whole expressions -/

/-- The tokens at which an expression is whole. -/
inductive Quiet : Token → Prop where
  | stops {t : Token} : Stops t → Quiet t
  | illegal : Quiet .illegal

theorem Quiet.operator? {t : Token} (h : Quiet t) : operator? c t = none := by
  cases h with
  | stops h => exact h.operator?
  | illegal => rfl

theorem Quiet.not_mark {t : Token} (h : Quiet t) {m : String}
    (other : m ∉ [")", "]", "\x7d", ","]) : t ≠ .mark m := by
  cases h with
  | stops h => exact h.not_mark other
  | illegal => simp

theorem Quiet.not_compound {m : String} (h : Quiet (.mark m)) : compounds.lookup m = none := by
  cases h with
  | stops h => exact h.not_compound

theorem shortCircuit_passes (p : Place) : Passes Quiet (shortCircuit c) (binary c 3) p := by
  refine .of rfl (fun n fails => ?_) fun n r read quiet => ?_
  all_goals rw [shortCircuit, bind_run]
  · rw [fails, Option.bind_none]
  · obtain ⟨n, rfl⟩ : ∃ m, n = m + 1 := by
      cases n with
      | zero => cases read
      | succ m => exact ⟨m, rfl⟩
    have stuck : Stuck c 1 r.2.token := fun level op found => by
      rw [quiet.operator?] at found
      cases found
    simp [read, bind_run, atMark_run, quiet.not_mark, binaryRest_stuck stuck]

theorem conditional_passes (p : Place) : Passes Quiet (conditional c) (shortCircuit c) p := by
  refine .of rfl (fun n fails => ?_) fun n r read quiet => ?_
  all_goals rw [conditional, bind_run]
  · rw [fails, Option.bind_none]
  · simp [read, bind_run, takeMark_run, quiet.not_mark, pure_run]

/-- An assignment where no function with an arrow begins. -/
theorem assignment_gives {r : Expr × Place} (arrow : arrowHead n p = none)
    (read : conditional c n p = some r) (quiet : Quiet r.2.token) :
    assignment c cover (n + 1) p = if cover || !hasDefault r.1 then some r else none := by
  rw [assignment, bind_run, attempt_run _ _ arrow, Option.bind_some]
  simp only [bind_run, atMark_run, Option.bind_some, read, peek_run]
  generalize token : r.2.token = t at quiet
  have free : ∀ m, t = .mark m → compounds.lookup m = none := fun m same =>
    (same ▸ quiet).not_compound
  have other := quiet.not_mark (m := "=") (by decide)
  cases t with
  | mark m =>
    have free := free m rfl
    have other : m ≠ "=" := fun same => other (same ▸ rfl)
    simp only [free, bind_run, require_run, pure_run]
    split <;> rfl
  | _ =>
    simp only [bind_run, require_run, pure_run]
    split <;> rfl

theorem assignment_fails (arrow : arrowHead n p = none) (read : conditional c n p = none) :
    assignment c cover (n + 1) p = none := by
  rw [assignment, bind_run, attempt_run _ _ arrow, Option.bind_some]
  simp [bind_run, atMark_run, read]

theorem expression_passes (p : Place) :
    Passes (· ≠ .mark ",") (expression c) (assignment c false) p := by
  refine .of rfl (fun n fails => ?_) fun n r read quiet => ?_
  all_goals rw [expression, bind_run]
  · rw [fails, Option.bind_none]
  · obtain ⟨n, rfl⟩ : ∃ m, n = m + 1 := by
      cases n with
      | zero => cases read
      | succ m => exact ⟨m, rfl⟩
    simp [read, expressionRest, bind_run, takeMark_run, quiet, pure_run]

/-! ## Lists -/

/-- A reader of parts with commas between them, up to a closing mark. -/
structure Lists (f : Nat → Parse (List Expr)) (part : Nat → Parse Expr) (close : String) :
    Prop where
  zero : f 0 = malformed
  empty : ∀ {n p}, p.token = .mark close → f (n + 1) p = some ([], p.next)
  item : ∀ {n p}, (∀ m ∈ [close, ",", "..."], p.token ≠ .mark m) →
    f (n + 1) p = (part n p).bind fun r =>
      if r.2.token = .mark close then some ([r.1], r.2.next)
      else if r.2.token = .mark "," then
        (f n r.2.next).bind fun rest => some (r.1 :: rest.1, rest.2)
      else none

/-- What stands behind a part of a list: the closing mark, or a comma and the other parts. -/
theorem behind_part (f : Parse (List Expr)) (close : String) (x : Expr) (q : Place) :
    ((if q.token = .mark close then some (true, q.next) else some (false, q)).bind fun r =>
      (if r.1 = true then pure [x]
        else do
          expect ","
          let rest ← f
          pure (x :: rest) : Parse (List Expr)) r.2)
      = if q.token = .mark close then some ([x], q.next)
        else if q.token = .mark "," then (f q.next).bind fun rest => some (x :: rest.1, rest.2)
        else none := by
  split
  · rfl
  · simp only [Option.bind_some, Bool.false_eq_true, if_false, bind_run, expect_run]
    split <;> rfl

theorem lists_arguments (c : Surround) : Lists (arguments c) (assignment c false) ")" where
  zero := rfl
  empty closes := by simp [arguments, bind_run, takeMark_run, closes, pure_run]
  item {n p} other := by
    simp only [List.mem_cons, List.not_mem_nil, or_false, forall_eq_or_imp, forall_eq] at other
    simp only [arguments, bind_run, takeMark_run, other, if_false, Option.bind_some,
      Bool.false_eq_true]
    congr 1
    funext r
    exact behind_part (arguments c n) ")" r.1 r.2

theorem lists_elements (c : Surround) : Lists (elements c) (assignment c true) "]" where
  zero := rfl
  empty closes := by simp [elements, bind_run, takeMark_run, closes, pure_run]
  item {n p} other := by
    simp only [List.mem_cons, List.not_mem_nil, or_false, forall_eq_or_imp, forall_eq] at other
    simp only [elements, bind_run, takeMark_run, other, if_false, Option.bind_some,
      Bool.false_eq_true]
    congr 1
    funext r
    exact behind_part (elements c n) "]" r.1 r.2

theorem lists_parameters : Lists parameters bindingElement ")" where
  zero := rfl
  empty closes := by simp [parameters, bind_run, takeMark_run, closes, pure_run]
  item {n p} other := by
    simp only [List.mem_cons, List.not_mem_nil, or_false, forall_eq_or_imp, forall_eq] at other
    simp only [parameters, bind_run, takeMark_run, other, if_false, Option.bind_some,
      Bool.false_eq_true]
    congr 1
    funext r
    exact behind_part (parameters n) ")" r.1 r.2

theorem lists_bindingElements : Lists bindingElements bindingElement "]" where
  zero := rfl
  empty closes := by simp [bindingElements, bind_run, takeMark_run, closes, pure_run]
  item {n p} other := by
    simp only [List.mem_cons, List.not_mem_nil, or_false, forall_eq_or_imp, forall_eq] at other
    simp only [bindingElements, bind_run, takeMark_run, other, if_false, Option.bind_some,
      Bool.false_eq_true]
    congr 1
    funext r
    exact behind_part (bindingElements n) "]" r.1 r.2

/-! ## Statements -/

/-- How an expression begins: it is not one of the other things that may stand in its place. -/
inductive Leading : Token → Prop where
  | number (x : Numeric) : Leading (.number x)
  | string (u : Units) : Leading (.string u)
  | mark (m : String) : m ∈ ["[", "(", "-"] → Leading (.mark m)
  | name (n : String) (isEscaped : Bool) : n ∉ reserved → Leading (.name n isEscaped)
  | word (n : String) : n ∈ ["true", "false", "null", "this", "function", "new"] →
      Leading (.name n false)
  | illegal : Leading .illegal

theorem Leading.not_mark {t : Token} (h : Leading t) {m : String} (other : m ∉ ["[", "(", "-"]) :
    t ≠ .mark m := by
  rintro rfl
  cases h with
  | mark _ mem => exact other mem

theorem Leading.not_word {t : Token} (h : Leading t) {w : String} (mem : w ∈ reserved)
    (other : w ∉ ["true", "false", "null", "this", "function", "new"]) : t ≠ .name w false := by
  rintro rfl
  cases h with
  | name _ _ free => exact free mem
  | word _ known => exact other known

variable {done : List Stmt}

theorem blockRest_closes (closes : p.token = .mark "\x7d") :
    blockRest c (n + 1) done p = some ((done.reverse, p.stop), p.next) := by
  simp [blockRest, bind_run, map_run, atMark_run, get_run, advance_run, closes]

theorem blockRest_more (goes : p.token ≠ .mark "\x7d") :
    blockRest c (n + 1) done p = (statement c n p).bind fun r =>
      blockRest c n (r.1.reverse ++ done) r.2 := by
  simp [blockRest, bind_run, atMark_run, goes]

theorem condition_eq (opens : p.token = .mark "(") :
    condition c (n + 1) p = (expression c n p.next).bind fun r =>
      if r.2.token = .mark ")" then some (r.1, r.2.next) else none := by
  simp only [condition, bind_run, expect_run, opens, if_true, Option.bind_some]
  congr 1
  funext r
  split <;> rfl

/-- A block where one statement is expected. -/
theorem single_braced (opens : p.token = .mark "\x7b") :
    single c (n + 3) p = (blockRest c n [] p.next).bind fun r =>
      if isWellScoped [] r.1.1 false then some (.block r.1.1, r.2) else none := by
  have block_eq : block c (n + 1) p.next = (blockRest c n [] p.next).bind fun r =>
      if isWellScoped [] r.1.1 false then some (.block r.1.1, r.2) else none := by
    rw [block, bind_run]
    congr 1
    funext r
    simp only [bind_run, require_run]
    split <;> rfl
  have statement_eq : statement c (n + 2) p = (block c (n + 1) p.next).bind fun r =>
      some ([r.1], r.2) := by
    rw [statement, bind_run, get_run, Option.bind_some]
    simp only [opens, bind_run, advance_run, Option.bind_some]
    rfl
  rw [single, bind_run, statement_eq, block_eq]
  cases blockRest c n [] p.next with
  | none => rfl
  | some r =>
    simp only [Option.bind_some]
    split <;> rfl

theorem single_short (opens : p.token = .mark "\x7b") (short : n < 3) : single c n p = none := by
  have block_zero : block c 0 p.next = none := rfl
  have statement_one : statement c 1 p = none := by
    rw [statement, bind_run, get_run, Option.bind_some]
    simp only [opens, bind_run, advance_run, Option.bind_some, block_zero]
    rfl
  obtain rfl | rfl | rfl : n = 0 ∨ n = 1 ∨ n = 2 := by omega
  · rfl
  · rfl
  · rw [single, bind_run, statement_one, Option.bind_none]

theorem statement_if_eq (word : p.token = .name "if" false) :
    statement c (n + 1) p = (condition c n p.next).bind fun r =>
      (single c n r.2).bind fun s =>
        if s.2.token = .name "else" false then
          (single c n s.2.next).bind fun t => some ([.if r.1 s.1 t.1], t.2)
        else some ([.if r.1 s.1 .empty], s.2) := by
  rw [statement, bind_run, get_run, Option.bind_some]
  simp only [word, bind_run, advance_run, Option.bind_some]
  congr 1
  funext r
  congr 1
  funext s
  rw [takeWord_run]
  split
  · simp only [Option.bind_some, if_true, bind_run]
    rfl
  · rfl

theorem statement_while_eq (word : p.token = .name "while" false) :
    statement c (n + 1) p = (condition c n p.next).bind fun r =>
      (single c.loop n r.2).bind fun s => some ([.while r.1 s.1], s.2) := by
  rw [statement, bind_run, get_run, Option.bind_some]
  simp only [word, bind_run, advance_run, Option.bind_some]
  rfl

theorem statement_throw (word : p.token = .name "throw" false)
    (sameLine : p.next.afterBreak = false) (more : p.next.token ≠ .end) :
    statement c (n + 1) p = (expression c n p.next).bind fun r =>
      (endStatement r.2).bind fun e => some ([.throw r.1], e.2) := by
  rw [statement, bind_run, get_run, Option.bind_some]
  simp only [word, bind_run, advance_run, Option.bind_some, onNewLine_run, sameLine, more]
  rfl

theorem statement_return (word : p.token = .name "return" false) (around : c.inFunction = true)
    (sameLine : p.next.afterBreak = false) (more : p.next.token ≠ .end)
    (other : p.next.token ≠ .mark ";" ∧ p.next.token ≠ .mark "\x7d") :
    statement c (n + 1) p = (expression c n p.next).bind fun r =>
      (endStatement r.2).bind fun e => some ([.return r.1], e.2) := by
  rw [statement, bind_run, get_run, Option.bind_some]
  simp only [word, bind_run, require_run, around, if_true, advance_run, Option.bind_some,
    onNewLine_run, sameLine, more, atMark_run, other]
  rfl

theorem endStatement_closes (closes : p.token = .mark "\x7d") :
    endStatement p = some ((), p) := by
  simp [endStatement, bind_run, takeMark_run, onNewLine_run, atMark_run, closes, require_run]

theorem endStatement_illegal (illegal : p.token = .illegal) (tight : p.afterBreak = false) :
    endStatement p = none := by
  simp [endStatement, bind_run, takeMark_run, onNewLine_run, atMark_run, illegal, tight,
    require_run]

/-- An expression as a statement, behind which no label ends. -/
theorem statement_expression_eq (leading : Leading p.token)
    (noFunction : p.token ≠ .name "function" false)
    (noDeclaration : declarationAt p = some (none, p)) :
    (expression c n p = none → statement c (n + 1) p = none)
      ∧ ∀ r, expression c n p = some r → r.2.token ≠ .mark ":" →
        statement c (n + 1) p = (endStatement r.2).bind fun e => some ([.expression r.1], e.2) := by
  -- what is read behind the expression differs for a name, which could be a label
  obtain ⟨k, whole, gives⟩ : ∃ k : Expr × Place → Option (List Stmt × Place),
      statement c (n + 1) p = (expression c n p).bind k ∧ ∀ x q, q.token ≠ .mark ":" →
        k (x, q) = (endStatement q).bind fun e => some ([.expression x], e.2) := by
    rw [statement, bind_run, get_run, Option.bind_some]
    generalize token : p.token = t at leading noFunction
    apply Exists.intro
    constructor
    · cases leading with
      | number | string | illegal =>
        all_goals
          change (declarationAt p).bind _ = _
          rw [noDeclaration]
          rfl
      | mark m mem =>
        simp only [List.mem_cons, List.not_mem_nil, or_false] at mem
        rcases mem with rfl | rfl | rfl
        all_goals
          change (declarationAt p).bind _ = _
          rw [noDeclaration]
          rfl
      | word w mem =>
        simp only [List.mem_cons, List.not_mem_nil, or_false] at mem
        rcases mem with rfl | rfl | rfl | rfl | rfl | rfl
        case inr.inr.inr.inr.inl => exact absurd rfl noFunction
        all_goals
          change (declarationAt p).bind _ = _
          rw [noDeclaration]
          rfl
      | name w isEscaped free =>
        have other : ∀ v ∈ reserved, w ≠ v := fun v mem same => free (same ▸ mem)
        simp only [Token.name.injEq, other "if" (by decide),
          other "while" (by decide), other "do" (by decide), other "for" (by decide),
          other "return" (by decide), other "throw" (by decide), other "break" (by decide),
          other "continue" (by decide), other "switch" (by decide), other "try" (by decide),
          other "debugger" (by decide), false_and, false_imp_iff]
        change (declarationAt p).bind _ = _
        rw [noDeclaration]
        rfl
    · intro x q noLabel
      cases x <;> simp [bind_run, map_run, takeMark_run, noLabel] <;> cases endStatement q <;> rfl
  exact ⟨fun fails => by rw [whole, fails, Option.bind_none],
    fun r read noLabel => by rw [whole, read, Option.bind_some, gives r.1 r.2 noLabel]⟩

theorem statement_function_fails (word : p.token = .name "function" false)
    (opens : p.next.token = .mark "(") : statement c n p = none := by
  cases n with
  | zero => rfl
  | succ n =>
    rw [statement, bind_run, get_run, Option.bind_some]
    simp only [word, bind_run, advance_run, Option.bind_some, identifier_run, opens]
    rfl

end EggLang.Script.Parser
