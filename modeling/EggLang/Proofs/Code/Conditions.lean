import EggLang.Proofs.Code.Indentation
import EggLang.Proofs.Script.Guards

/-!
# Conditions of generated code

The text of a condition is a row of operands, whatever it is built of: operands are joined without
parentheses, so an operation that is an operand leaves its own operands in the row, and what is
called or accessed is the last of them.
-/

namespace EggLang.Code

open Script Script.Parser

variable {indent : Bytes} {depth : Nat} {c d : Code} {cs : List Code}

/-- The code of a condition: names, numbers, operations on at least two operands, calls, arrays,
members, accesses by an index and functions. A function has such code as its body, or returns it. -/
inductive Condition : Code → Prop where
  | name {text : List Char} {n : String} {isEscaped : Bool} : IsIdentifier text n isEscaped →
      n ∉ reserved → Condition (ident (Text.ofChars text))
  | word {w : String} {x : Script.Expr} : (w, x) ∈ valueWords → Condition (ident (utf8 w))
  | number (x : Binary64) : Condition (number x)
  | operation {m : String} {cs : List Code} : m ∈ operators → 2 ≤ cs.length →
      (∀ d ∈ cs, Condition d) → Condition (operation (utf8 m) cs)
  | call {f : Code} {args : List Code} : Condition f → (∀ d ∈ args, Condition d) →
      Condition (call f args)
  | array {cs : List Code} : (∀ d ∈ cs, Condition d) → Condition (array cs)
  | member {object : Code} {text : List Char} {n : String} {isEscaped : Bool} : Condition object →
      IsIdentifier text n isEscaped → Condition (member object (Text.ofChars text))
  | index {object i : Code} : Condition object → Condition i → Condition (index object i)
  | function {params : List Bytes} {body : Code} :
      (∀ q ∈ params, ∃ text, q = Text.ofChars text ∧ Script.Parser.IsParameter text) →
      Condition body → Condition (function params body)
  | returning {params : List Bytes} {value : Code} :
      (∀ q ∈ params, ∃ text, q = Text.ofChars text ∧ Script.Parser.IsParameter text) →
      Condition value → Condition (function params (.return value))

/-! ## Texts with separators -/

theorem ofChars_cons (ch : Char) (cs : List Char) :
    Text.ofChars (ch :: cs) = String.utf8EncodeChar ch ++ Text.ofChars cs := List.flatMap_cons

/-- Parts with commas between them, up to what closes them. -/
theorem join_listed {part : List Char → Prop} {ts : List Bytes} (close : String)
    (each : ∀ t ∈ ts, ∃ text, t = Text.ofChars text ∧ part text) :
    ∃ list, Bytes.join (utf8 ", ") ts ++ utf8 close = Text.ofChars list
      ∧ Listed part close list := by
  induction ts with
  | nil => exact ⟨close.toList, rfl, .nil⟩
  | cons t ts ih =>
    obtain ⟨⟨text, rfl, first⟩, others⟩ := List.forall_mem_cons.1 each
    cases ts with
    | nil => exact ⟨text ++ close.toList, by rw [Layout.ofChars_append]; rfl, .last first⟩
    | cons u ts =>
      obtain ⟨list, written, listed⟩ := ih others
      refine ⟨text ++ ',' :: ' ' :: list, ?_, .more first listed⟩
      have joined : Bytes.join (utf8 ", ") (Text.ofChars text :: u :: ts)
          = Text.ofChars text ++ utf8 ", " ++ Bytes.join (utf8 ", ") (u :: ts) := rfl
      rw [joined, Layout.ofChars_append, List.append_assoc, written, List.append_assoc]
      rfl

theorem render_call (f : Code) (args : List Code) : render indent depth (.call f args)
    = asOperand f (render indent depth f)
      ++ (utf8 "(" ++ (Bytes.join (utf8 ", ") (texts indent depth args) ++ utf8 ")")) := by
  simp [render, joined, lines, Bytes.join]

theorem render_member (object : Code) (property : Bytes) :
    render indent depth (.member object property)
      = asOperand object (render indent depth object) ++ (utf8 "." ++ property) := by
  simp [render, joined, lines, Bytes.join]

theorem render_index (object i : Code) : render indent depth (.index object i)
    = asOperand object (render indent depth object)
      ++ (utf8 "[" ++ (render indent depth i ++ utf8 "]")) := by
  simp [render, joined, lines, Bytes.join]

/-- Operands with an operator between them. -/
theorem join_row {m : String} {ts : List Bytes} (mem : m ∈ infixes) (filled : ts ≠ [])
    (each : ∀ t ∈ ts, ∃ text, t = Text.ofChars text ∧ Row text) :
    ∃ row, Bytes.join (utf8 " " ++ utf8 m ++ utf8 " ") ts = Text.ofChars row ∧ Row row := by
  induction ts with
  | nil => exact absurd rfl filled
  | cons t ts ih =>
    obtain ⟨⟨text, rfl, first⟩, others⟩ := List.forall_mem_cons.1 each
    cases ts with
    | nil => exact ⟨text, rfl, first⟩
    | cons u ts =>
      obtain ⟨row, written, rest⟩ := ih (List.cons_ne_nil _ _) others
      refine ⟨text ++ ' ' :: (m.toList ++ ' ' :: row), ?_, first.join mem rest⟩
      have joined : Bytes.join (utf8 " " ++ utf8 m ++ utf8 " ") (Text.ofChars text :: u :: ts)
          = Text.ofChars text ++ (utf8 " " ++ utf8 m ++ utf8 " ")
            ++ Bytes.join (utf8 " " ++ utf8 m ++ utf8 " ") (u :: ts) := rfl
      have spaced : Text.ofChars (' ' :: (m.toList ++ ' ' :: row))
          = utf8 " " ++ (utf8 m ++ (utf8 " " ++ Text.ofChars row)) := by
        have first : Text.ofChars (' ' :: (m.toList ++ ' ' :: row))
            = utf8 " " ++ Text.ofChars (m.toList ++ ' ' :: row) := rfl
        rw [first, Layout.ofChars_append]
        rfl
      rw [joined, written, Layout.ofChars_append, spaced]
      simp only [List.append_assoc]

/-! ## Functions -/

theorem breaks_newLine {text : Bytes} {gap : List Char} (h : NewLine text gap) : Breaks gap :=
  ⟨h.blank.blank, h.starts⟩

/-- A function with one statement is written as a literal that checks the number of its
arguments. -/
theorem function_literal (blank : IsIndent indent) {params : List Bytes} {body : Code}
    {stmt : List Char}
    (each : ∀ q ∈ params, ∃ text, q = Text.ofChars text ∧ Script.Parser.IsParameter text)
    (line : lines indent (depth + 1) body = [Text.ofChars stmt]) (h : Instruction Brace stmt) :
    ∃ ps rest, render indent depth (.function params body) = Text.ofChars (literalText ps rest)
      ∧ Core Adjoins (literalText ps rest) := by
  obtain ⟨ps, params_written, listed⟩ := join_listed ")" each
  obtain ⟨outer, outer_line⟩ := newLine_pad blank depth
  obtain ⟨middle, middle_line⟩ := newLine_pad blank (depth + 1)
  obtain ⟨inner, inner_line⟩ := newLine_pad blank (depth + 1 + 1)
  refine ⟨ps, checkedChars (Nat.toDigits 10 params.length) stmt outer middle inner, ?_,
    core_checked listed (isNumeral_toDigits _) (breaks_newLine outer_line)
      (breaks_newLine middle_line) (breaks_newLine inner_line) h⟩
  rw [render, joined, lines, arityCheck, encode_arityMessage, line, braced_single]
  unfold literalText checkedChars checkChars throwChars
  simp only [Layout.ofChars_append, ofChars_cons, ← params_written, ← Layout.ofNat_eq,
    ← outer_line.blank.written, ← middle_line.blank.written, ← inner_line.blank.written]
  simp [Bytes.join, utf8, Text.ofChars]

/-! ## Conditions -/

/-- The code is written as a row of operands; a function is written as a literal. -/
structure WritesRow (indent : Bytes) (depth : Nat) (c : Code) (text : List Char) : Prop where
  written : render indent depth c = Text.ofChars text
  row : Row text
  literal : c.isFunction = true → ∃ ps body, text = literalText ps body

theorem WritesRow.plain {text : List Char} (plain : c.isFunction = Bool.false)
    (written : render indent depth c = Text.ofChars text) (row : Row text) :
    WritesRow indent depth c text :=
  ⟨written, row, fun isFunction => by simp [plain] at isFunction⟩

theorem WritesRow.operand {text : List Char} (h : WritesRow indent depth c text) :
    ∃ operand, asOperand c (render indent depth c) = Text.ofChars operand ∧ Row operand := by
  rw [asOperand, h.written]
  split
  · next isFunction =>
    obtain ⟨ps, body, rfl⟩ := h.literal isFunction
    refine ⟨'(' :: (literalText ps body ++ [')']), ?_,
      .value (core_parenthesis h.row.formula fun at_p => (literal_word at_p).1)⟩
    rw [ofChars_cons, Layout.ofChars_append]
    rfl
  · exact ⟨text, rfl, h.row⟩

theorem operands_row (each : ∀ d ∈ cs, ∃ text, WritesRow indent depth d text) :
    ∀ t ∈ operandTexts indent depth cs, ∃ text, t = Text.ofChars text ∧ Row text := by
  rw [operandTexts_eq, ← List.map_eq_flatMap]
  refine List.forall_mem_map.2 fun d inside => ?_
  obtain ⟨text, row⟩ := each d inside
  exact row.operand

theorem texts_formula (each : ∀ d ∈ cs, ∃ text, WritesRow indent depth d text) :
    ∀ t ∈ texts indent depth cs, ∃ text, t = Text.ofChars text ∧ Formula text := by
  rw [texts_eq, ← List.map_eq_flatMap]
  refine List.forall_mem_map.2 fun d inside => ?_
  obtain ⟨text, row⟩ := each d inside
  exact ⟨text, row.written, row.row.formula⟩

theorem Condition.single (h : Condition c) (statements : List Code) : c ≠ .block statements := by
  cases h <;> simp [Code.number, ident]

theorem Condition.present (h : Condition c) : c.isAbsent = Bool.false := by
  cases h <;> rfl

theorem row_numeral {text : Bytes} (h : Layout.WritesNumeral text) :
    ∃ cs, text = Text.ofChars cs ∧ Row cs := by
  obtain ⟨cs, rfl, numeral⟩ := h
  exact ⟨cs, rfl, .last (.plain (.number numeral))⟩

theorem row_negative {text : Bytes} (h : Layout.WritesNumeral text) :
    ∃ cs, utf8 "-" ++ text = Text.ofChars cs ∧ Row cs := by
  obtain ⟨cs, rfl, numeral⟩ := h
  refine ⟨'-' :: cs, by rw [ofChars_cons]; rfl, .last (.negative (.number numeral) ?_)⟩
  obtain ⟨c, rest, rfl, digit⟩ := Script.Parser.IsNumeral.first numeral
  refine ⟨c, rest, rfl, ?_, ?_⟩ <;> rintro rfl <;> simp at digit

/-- A number is written as a numeral or by a name, maybe behind a minus sign. -/
theorem number_row (x : Binary64) : ∃ text, numberText x = Text.ofChars text ∧ Row text := by
  have name (n : String) (valid : IsIdentifier n.toList n Bool.false) (free : n ∉ reserved) :
      Row n.toList := .value (core_name valid free)
  cases x with
  | nan => exact ⟨"NaN".toList, rfl, name "NaN" ⟨by decide, by decide⟩ (by decide)⟩
  | infinite isNegative =>
    cases isNegative with
    | false =>
      exact ⟨"Infinity".toList, rfl, name "Infinity" ⟨by decide, by decide⟩ (by decide)⟩
    | true =>
      have valid : IsIdentifier "Inf".toList "Inf" Bool.false := ⟨by decide, by decide⟩
      have core : Core Adjoins "Inf".toList := core_name valid (by decide)
      exact ⟨'-' :: "Inf".toList, rfl,
        .last (.negative (.value core) ⟨_, _, rfl, by decide, by decide⟩)⟩
  | finite isNegative m e =>
    cases isNegative with
    | false => exact row_numeral (Layout.render_finite largeNumber m e)
    | true =>
      have written (l : Layout) :
          ∃ cs, l.render (.finite Bool.true m e) = Text.ofChars cs ∧ Row cs := by
        obtain ⟨text, numeral, unsigned | signed⟩ := Layout.render_negative l m e
        · rw [unsigned]
          exact row_numeral numeral
        · rw [signed]
          exact row_negative numeral
      rw [numberText]
      split
      · exact written plainNumber
      · exact written largeNumber

theorem Condition.writesRow (blank : IsIndent indent) (h : Condition c) (depth : Nat) :
    ∃ text, WritesRow indent depth c text := by
  induction h generalizing depth with
  | @name text n isEscaped name free =>
    exact ⟨text, .plain rfl rfl (.value (core_name name free))⟩
  | @word w x mem => exact ⟨w.toList, .plain rfl rfl (.value (core_word mem))⟩
  | number x =>
    obtain ⟨text, written, row⟩ := number_row x
    exact ⟨text, .plain rfl written row⟩
  | @operation m cs mem two _ ih =>
    have filled : operandTexts indent depth cs ≠ [] := by
      cases cs with
      | nil => simp at two
      | cons => simp [operandTexts]
    obtain ⟨row, written, isRow⟩ := join_row (operator_marks m mem).2 filled
      (operands_row fun d inside => ih d inside depth)
    exact ⟨row, .plain rfl written isRow⟩
  | @call f args _ _ ih_f ih_args =>
    obtain ⟨text, callee⟩ := ih_f depth
    obtain ⟨operand, written, row⟩ := callee.operand
    obtain ⟨list, list_written, listed⟩ :=
      join_listed ")" (texts_formula fun d inside => ih_args d inside depth)
    refine ⟨operand ++ '(' :: list, .plain rfl ?_ (row.append (extends_call listed))⟩
    rw [render_call, written, list_written, Layout.ofChars_append, ofChars_cons]
    rfl
  | @array cs _ ih =>
    obtain ⟨list, written, listed⟩ :=
      join_listed "]" (texts_formula fun d inside => ih d inside depth)
    refine ⟨'[' :: list, .plain rfl ?_ (.value (core_array listed))⟩
    rw [ofChars_cons, ← written, ← List.append_assoc]
    rfl
  | @member object text n isEscaped _ name ih =>
    obtain ⟨_, written⟩ := ih depth
    obtain ⟨operand, written, row⟩ := written.operand
    refine ⟨operand ++ '.' :: text, .plain rfl ?_ (row.append (extends_member name))⟩
    rw [render_member, written, Layout.ofChars_append, ofChars_cons]
    rfl
  | @index object i _ _ ih_object ih_index =>
    obtain ⟨_, accessed⟩ := ih_object depth
    obtain ⟨operand, written, row⟩ := accessed.operand
    obtain ⟨text, position⟩ := ih_index depth
    refine ⟨operand ++ '[' :: (text ++ [']']), .plain rfl ?_
      (row.append (extends_index position.row.formula))⟩
    rw [render_index, written, position.written, Layout.ofChars_append, ofChars_cons,
      Layout.ofChars_append]
    rfl
  | @function params body each condition ih =>
    obtain ⟨stmt, line⟩ := ih (depth + 1)
    obtain ⟨ps, rest, written, core⟩ := function_literal blank each
      (by rw [lines_single condition.single, line.written]) line.row.formula.instruction
    exact ⟨_, written, .value core, fun _ => ⟨ps, rest, rfl⟩⟩
  | @returning params value each condition ih =>
    obtain ⟨text, line⟩ := ih (depth + 1)
    have returned : lines indent (depth + 1) (.return value)
        = [Text.ofChars ("return".toList ++ ' ' :: text)] := by
      rw [lines_return condition.present, line.written, Layout.ofChars_append, ofChars_cons]
      rfl
    obtain ⟨ps, rest, written, core⟩ := function_literal blank each returned
      (instruction_return line.row.formula)
    exact ⟨_, written, .value core, fun _ => ⟨ps, rest, rfl⟩⟩

theorem Condition.formula (blank : IsIndent indent) (h : Condition c) {text : List Char}
    (written : render indent depth c = Text.ofChars text) : Formula text := by
  obtain ⟨others, row⟩ := h.writesRow blank depth
  obtain rfl : text = others := Text.ofChars_injective (written.symm.trans row.written)
  exact row.row.formula

/-! ## Tests -/

section Tests

variable {text : List Char} {yes no body : Code}

theorem test_begins (w : String) (text : List Char) (rest : Bytes) :
    utf8 w ++ (utf8 " (" ++ (Text.ofChars text ++ (utf8 " !== false) \x7b\n" ++ rest)))
      = Text.ofChars (testText w text) ++ (utf8 " \x7b\n" ++ rest) := by
  have opening : Text.ofChars (testText w text)
      = utf8 w ++ (utf8 " (" ++ Text.ofChars (text ++ (guardText ++ [')']))) := by
    rw [testText, Layout.ofChars_append, ofChars_cons, ofChars_cons]
    rfl
  rw [opening, Layout.ofChars_append]
  simp only [List.append_assoc]
  rfl

theorem if_begins (written : render indent depth c = Text.ofChars text) :
    ∃ rest, render indent depth (.if c yes no) = Text.ofChars (testText "if" text) ++ rest := by
  have text_eq := test_begins "if" text (braced indent (depth + 1) (lines indent (depth + 1) yes)
    ++ (pad indent depth ++ (utf8 "\x7d else \x7b\n"
      ++ (braced indent (depth + 1) (lines indent (depth + 1) no)
        ++ (pad indent depth ++ utf8 "\x7d")))))
  rw [← written] at text_eq
  refine ⟨_, Eq.trans ?_ text_eq⟩
  rw [render, joined, lines]
  simp only [List.append_assoc]
  rfl

theorem while_begins (written : render indent depth c = Text.ofChars text) :
    ∃ rest, render indent depth (.while c body) = Text.ofChars (testText "while" text) ++ rest := by
  have text_eq := test_begins "while" text (braced indent (depth + 1)
    (lines indent (depth + 1) body) ++ (pad indent depth ++ utf8 "\x7d"))
  rw [← written] at text_eq
  refine ⟨_, Eq.trans ?_ text_eq⟩
  rw [render, joined, lines]
  simp only [List.append_assoc]
  rfl

/-- The comparison with `false` that conditionals and loops write behind a condition compares the
whole expression that the condition is read as, and only the boolean `false` takes the other branch
or ends the loop. -/
structure TestsWhole (indent : Bytes) (depth : Nat) (c : Code) (text : List Char) (fuel : Nat)
    (e : Script.Expr) : Prop where
  alone : ∀ around, ∃ e', e.Alike e'
    ∧ ∀ n, fuel + 6 ≤ n → Parses around n (text ++ guardText) e'.guard
  if_begins : ∀ yes no, ∃ rest,
    render indent depth (.if c yes no) = Text.ofChars (testText "if" text) ++ rest
  while_begins : ∀ body, ∃ rest,
    render indent depth (.while c body) = Text.ofChars (testText "while" text) ++ rest
  if_test : ∀ around o rest p n ss q, Place.Facing o (testText "if" text ++ rest) p →
    fuel + 8 ≤ n → statement around n p = some (ss, q) →
    ∃ e' yes no, e.Alike e' ∧ ss = [.if e'.guard yes no]
      ∧ ∀ ctx labels, Action.exec ctx labels (.if e'.guard yes no)
        = Action.eval ctx e' >>= fun v =>
          Action.exec ctx [] (if v = .bool Bool.false then no else yes)
  while_test : ∀ around o rest p n ss q, Place.Facing o (testText "while" text ++ rest) p →
    fuel + 8 ≤ n → statement around n p = some (ss, q) →
    ∃ e' body, e.Alike e' ∧ ss = [.while e'.guard body]
      ∧ ∀ labels scope, Action.round (.steps labels scope [] e'.guard .hole body Bool.true)
        = Action.eval (.within scope) e' >>= fun v =>
          if v = .bool Bool.false then pure (.normal none)
          else Action.round (.steps labels scope [] e'.guard .hole body Bool.false)

theorem Condition.tests_whole (blank : IsIndent indent) (h : Condition c)
    (written : render indent depth c = Text.ofChars text) {around : Surround} {fuel : Nat}
    {e : Script.Expr} (parsed : Parses around fuel text e) :
    TestsWhole indent depth c text fuel e := by
  have formula := h.formula blank written
  constructor
  case alone =>
    intro around'
    have at_first : Place.Facing 0 (text ++ (guardText ++ []))
        (Place.first (text ++ guardText)) := by
      rw [List.append_nil]
      exact Place.facing_first _
    obtain ⟨e', q, alike, reaches, at_end⟩ :=
      formula.guarded around' parsed meets_end_closes at_first
    exact ⟨e', alike, fun n enough => ⟨q, reaches n enough, at_end.token.trans ahead_nil⟩⟩
  case if_begins => exact fun yes no => Code.if_begins written
  case while_begins => exact fun body => Code.while_begins written
  case if_test =>
    intro around' o rest p n ss q at_p enough done
    obtain ⟨e', yes, no, alike, same⟩ := formula.if_test around' parsed at_p enough done
    exact ⟨e', yes, no, alike, same, fun ctx labels => Action.exec_guard ctx labels e' yes no⟩
  case while_test =>
    intro around' o rest p n ss q at_p enough done
    obtain ⟨e', body, alike, same⟩ := formula.while_test around' parsed at_p enough done
    exact ⟨e', body, alike, same, fun labels scope => Action.round_guard labels scope e' body⟩

/-- A product of a sum and a comparison, written without parentheses. -/
def mixedChain : Code :=
  operation (utf8 "*") [operation (utf8 "+") [ident (utf8 "a"), ident (utf8 "b")],
    operation (utf8 "==") [ident (utf8 "c"), number (.ofNat 1)]]

theorem condition_mixedChain : Condition mixedChain := by
  have name (n : String) (valid : IsIdentifier n.toList n Bool.false) (free : n ∉ reserved) :
      Condition (ident (utf8 n)) := .name valid free
  have a := name "a" ⟨by decide, by decide⟩ (by decide)
  have b := name "b" ⟨by decide, by decide⟩ (by decide)
  have c := name "c" ⟨by decide, by decide⟩ (by decide)
  have pair {x y : Code} (first : Condition x) (second : Condition y) :
      ∀ d ∈ [x, y], Condition d := by
    simp [first, second]
  have sum := Condition.operation (m := "+") (by decide) (by decide) (pair a b)
  have comparison :=
    Condition.operation (m := "==") (by decide) (by decide) (pair c (.number (.ofNat 1)))
  exact .operation (m := "*") (by decide) (by decide) (pair sum comparison)

/-- A chain that is read with other groups than it was built of is tested as a whole, too. -/
theorem tests_whole_mixedChain :
    IsIndent (utf8 "  ") ∧ Condition mixedChain
      ∧ render (utf8 "  ") 0 mixedChain = Text.ofChars "a + b * c == 1".toList
      ∧ Parses {} 20 "a + b * c == 1".toList (.binary .looseEqual (.binary .add (.ident "a")
        (.binary .multiply (.ident "b") (.ident "c"))) (.number (.ofNat 1)))
      ∧ TestsWhole (utf8 "  ") 0 mixedChain "a + b * c == 1".toList 20 (.binary .looseEqual
        (.binary .add (.ident "a") (.binary .multiply (.ident "b") (.ident "c")))
        (.number (.ofNat 1))) := by
  have blank : IsIndent (utf8 "  ") := ⟨_, isBlank_space.append isBlank_space⟩
  have written : render (utf8 "  ") 0 mixedChain = Text.ofChars "a + b * c == 1".toList := by
    decide +kernel
  have parsed : Parses {} 20 "a + b * c == 1".toList (.binary .looseEqual (.binary .add (.ident "a")
      (.binary .multiply (.ident "b") (.ident "c"))) (.number (.ofNat 1))) := by
    exact ⟨_, by with_unfolding_all rfl, by decide +kernel⟩
  exact ⟨blank, condition_mixedChain, written, parsed,
    condition_mixedChain.tests_whole blank written parsed⟩

end Tests

end EggLang.Code
