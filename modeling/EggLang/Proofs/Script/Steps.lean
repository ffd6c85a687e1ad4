import EggLang.Proofs.Script.Lexeme
import EggLang.Script.Parser

/-!
# Steps of reading

What the steps of the reader do at a place, and which tokens begin, end and interrupt the
expressions of generated code.
-/

namespace EggLang.Script

namespace Parser

variable {α β : Type}

/-! ## Steps -/

theorem bind_run (m : Parse α) (f : α → Parse β) (p : Place) :
    (m >>= f) p = (m p).bind fun r => f r.1 r.2 := rfl

theorem map_run (f : α → β) (m : Parse α) (p : Place) :
    (f <$> m) p = (m p).map fun r => (f r.1, r.2) := by
  rw [← bind_pure_comp, bind_run]
  cases m p <;> rfl

theorem pure_run (a : α) (p : Place) : (pure a : Parse α) p = some (a, p) := rfl

theorem peek_run (p : Place) : peek p = some (p.token, p) := rfl

theorem get_run (p : Place) : (get : Parse Place) p = some (p, p) := rfl

theorem modify_run (f : Place → Place) (p : Place) : (modify f : Parse Unit) p = some ((), f p) :=
  rfl

theorem advance_run (p : Place) : advance p = some ((), p.next) := rfl

theorem atMark_run (m : String) (p : Place) :
    atMark m p = some (decide (p.token = .mark m), p) := rfl

theorem atWord_run (w : String) (p : Place) :
    atWord w p = some (decide (p.token = .name w false), p) := rfl

theorem takeMark_run (m : String) (p : Place) :
    takeMark m p = if p.token = .mark m then some (true, p.next) else some (false, p) := by
  rw [takeMark, bind_run, atMark_run]
  by_cases h : p.token = .mark m
  · rw [if_pos h, decide_eq_true h]
    rfl
  · rw [if_neg h, decide_eq_false h]
    rfl

theorem takeWord_run (w : String) (p : Place) :
    takeWord w p = if p.token = .name w false then some (true, p.next) else some (false, p) := by
  rw [takeWord, bind_run, atWord_run]
  by_cases h : p.token = .name w false
  · rw [if_pos h, decide_eq_true h]
    rfl
  · rw [if_neg h, decide_eq_false h]
    rfl

theorem require_run (b : Bool) (p : Place) :
    require b p = if b then some ((), p) else none := by
  cases b <;> rfl

theorem expect_run (m : String) (p : Place) :
    expect m p = if p.token = .mark m then some ((), p.next) else none := by
  rw [expect, bind_run, takeMark_run]
  by_cases h : p.token = .mark m <;> simp [h, require_run]

theorem attempt_run (m : Parse α) (p : Place) (fails : m p = none) :
    attempt m p = some (none, p) := by
  rw [attempt, fails]

/-! ## What follows an operand -/

/-- The operators of generated code. -/
def infixes : List String := ["+", "-", "*", "/", "==", "<", ">", "!=", "!=="]

/-- The names that continue an expression or a statement. -/
def connectives : List String := ["in", "instanceof", "else"]

/-- The tokens at which an expression of generated code ends. -/
inductive Stops : Token → Prop where
  | round : Stops (.mark ")")
  | square : Stops (.mark "]")
  | brace : Stops (.mark "\x7d")
  | comma : Stops (.mark ",")
  | name (n : String) : n ∉ connectives → Stops (.name n false)
  | number (x : Numeric) : Stops (.number x)
  | end : Stops .end

/-- The tokens at which an operand of generated code ends. -/
inductive Halts : Token → Prop where
  | stops {t : Token} : Stops t → Halts t
  | operator (m : String) : m ∈ infixes → Halts (.mark m)
  | equals : Halts (.mark "=")

variable {c : Surround} {p : Place}

theorem Halts.accessRest (h : Halts p.token) (calls : Bool) (fuel : Nat) (e : Expr) :
    accessRest c calls false (fuel + 1) e p = some (e, p) := by
  rw [Parser.accessRest, bind_run, peek_run, Option.bind_some]
  generalize p.token = t at h
  cases h with
  | equals => rfl
  | operator m mem =>
    simp only [infixes, List.mem_cons, List.not_mem_nil, or_false] at mem
    rcases mem with rfl | rfl | rfl | rfl | rfl | rfl | rfl | rfl | rfl <;> rfl
  | stops h => cases h <;> rfl

/-- The names that stand for operators. -/
def operatorWords : List String := ["delete", "typeof", "void"]

/-- The tokens with which an operand of generated code begins. -/
inductive Begins : Token → Prop where
  | number (x : Numeric) : Begins (.number x)
  | string (u : Units) : Begins (.string u)
  | name (n : String) : n ∉ operatorWords → Begins (.name n false)
  | square : Begins (.mark "[")
  | round : Begins (.mark "(")

theorem Begins.not_delete {t : Token} (h : Begins t) : t ≠ .name "delete" false := by
  rintro rfl
  cases h with
  | name _ other => exact other (by decide)

theorem Begins.unary? {t : Token} (h : Begins t) : unary? t = none := by
  cases h with
  | name n other =>
    have not_typeof : n ≠ "typeof" := by
      rintro rfl
      exact other (by decide)
    have not_void : n ≠ "void" := by
      rintro rfl
      exact other (by decide)
    simp [Parser.unary?, not_typeof, not_void]
  | number | string | square | round => rfl

theorem Begins.update? {t : Token} (h : Begins t) : update? t = none := by
  cases h <;> rfl

theorem Halts.update? {t : Token} (h : Halts t) : update? t = none := by
  cases h with
  | equals => rfl
  | operator m mem =>
    simp only [infixes, List.mem_cons, List.not_mem_nil, or_false] at mem
    rcases mem with rfl | rfl | rfl | rfl | rfl | rfl | rfl | rfl | rfl <;> rfl
  | stops h => cases h <;> rfl

theorem Stops.not_mark {t : Token} (h : Stops t) {m : String}
    (other : m ∉ [")", "]", "\x7d", ","]) : t ≠ .mark m := by
  intro same
  cases h <;> simp_all

theorem Halts.not_mark {t : Token} (h : Halts t) {m : String}
    (other : m ∉ [")", "]", "\x7d", ",", "="] ++ infixes) : t ≠ .mark m := by
  intro same
  cases h with
  | stops h => exact h.not_mark (fun mem => other (by simp_all)) same
  | operator m mem => simp_all
  | equals => simp_all

variable {fuel left : Nat} {x : Expr} {p' : Place}

theorem access_of_primary (plain : p.token ≠ .name "new" false)
    (read : primary c fuel p = some (x, p')) :
    access c (fuel + 1) p = Parser.accessRest c true false fuel x p' := by
  rw [access, bind_run, takeWord_run, if_neg plain]
  simp only [Option.bind_some, Bool.false_eq_true, if_false, bind_run, read]

theorem power_of_access (begins : Begins p.token) (read : access c fuel p = some (x, p'))
    (halts : Halts p'.token) : power c (fuel + 2) p = some (x, p') := by
  have unary_read : unary c (fuel + 1) p = some (x, p') := by
    rw [unary, bind_run, peek_run, Option.bind_some, begins.unary?]
    simp only [begins.update?]
    rw [bind_run, takeWord_run, if_neg begins.not_delete]
    simp only [Option.bind_some, Bool.false_eq_true, if_false]
    simp only [bind_run, pure_run, read, Option.bind_some, peek_run, halts.update?]
  rw [power, bind_run, atMark_run, Option.bind_some, bind_run, unary_read, Option.bind_some,
    bind_run, takeMark_run, if_neg (halts.not_mark (by decide))]
  rfl

end Parser

end EggLang.Script
