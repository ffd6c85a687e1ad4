import EggLang.Proofs.Script.Bodies

/-!
# Rows of operands

Generated code joins operands as plain text, so that a call or an access written after an operation
belongs to its last operand.
-/

namespace EggLang.Script.Parser

open Script.Place (Facing)

variable {text more : List Char}

/-- An operand without a sign. -/
inductive Amount : List Char → Prop where
  | value {text : List Char} : Core Adjoins text → Amount text
  | number {text : List Char} : IsNumeral text → Amount text

/-- A text that a minus sign can stand before. -/
def Signs (text : List Char) : Prop := ∃ c rest, text = c :: rest ∧ c ≠ '-' ∧ c ≠ '='

/-- One operand. -/
inductive Tip : List Char → Prop where
  | plain {text : List Char} : Amount text → Tip text
  | negative {text : List Char} : Amount text → Signs text → Tip ('-' :: text)

/-- Operands with operators between them. -/
inductive Row : List Char → Prop where
  | last {text : List Char} : Tip text → Row text
  | cons {m : String} {text more : List Char} : Tip text → m ∈ infixes → Row more →
      Row (text ++ ' ' :: (m.toList ++ ' ' :: more))

theorem Tip.factor (h : Tip text) : Factor text := by
  have adjoins : ∀ s, Meets Halts s → Adjoins s := fun _ => Meets.adjoins
  have numbers : ∀ cs s, Meets Halts s → EndsNumber cs s := fun cs _ ends => ends.calm.endsNumber cs
  cases h with
  | plain amount =>
    cases amount with
    | value core => exact core.factor adjoins
    | number numeral => exact (core_number numeral).factor (numbers text)
  | @negative text amount signs =>
    cases amount with
    | value core => exact core.negated adjoins signs
    | number numeral => exact (core_number numeral).negated (numbers text) signs

theorem Row.formula (h : Row text) : Formula text := by
  induction h with
  | last tip => exact tip.factor.formula
  | @cons m text more tip mem _ ih =>
    obtain ⟨first, others, rfl, factor, further⟩ := ih
    exact ⟨text, _, rfl, tip.factor, .cons mem factor further⟩

/-- A text that makes another operand of each operand. -/
def Extends (more : List Char) : Prop := ∀ text, Amount text → Amount (text ++ more)

theorem Row.append (h : Row text) (g : Extends more) : Row (text ++ more) := by
  induction h with
  | last tip =>
    cases tip with
    | plain amount => exact .last (.plain (g _ amount))
    | negative amount signs =>
      obtain ⟨c, rest, rfl, other⟩ := signs
      exact .last (.negative (g _ amount) ⟨c, rest ++ more, rfl, other⟩)
  | @cons m text others tip mem _ ih =>
    have whole := Row.cons tip mem ih
    simpa using whole

theorem Row.join {m : String} (h : Row text) (mem : m ∈ infixes) (g : Row more) :
    Row (text ++ ' ' :: (m.toList ++ ' ' :: more)) := by
  induction h with
  | last tip => exact .cons tip mem g
  | @cons n text others tip known _ ih =>
    have whole := Row.cons tip known ih
    simpa using whole

/-! ## Calls and accesses -/

theorem Amount.append (h : Amount text) (g : Access Adjoins more) (first : ∀ s, Calm (more ++ s))
    (adjoins : ∀ s, Adjoins (more ++ s)) : Amount (text ++ more) := by
  cases h with
  | value core => exact .value (core.append g fun s _ => adjoins s)
  | number numeral =>
    exact .value ((core_number numeral).append g fun s _ => (first s).endsNumber text)

theorem adjoins_bracket {c : Char} {m : String} (mem : m ∈ ["(", "["]) (one : m.toList = [c])
    (s : List Char) : Calm (c :: s) ∧ Adjoins (c :: s) := by
  have facts : m ∈ brackets ∧ c ∈ [' ', '\n', '(', ')', '[', ']', ','] ∧ m ≠ "=>" := by
    simp only [List.mem_cons, List.not_mem_nil, or_false] at mem
    rcases mem with rfl | rfl <;> cases one <;> decide
  have token : Place.ahead (c :: s) = .mark m := by
    have read := ahead_bracket facts.1 s
    rwa [one] at read
  refine ⟨calm_cons s facts.2.1, (calm_cons s facts.2.1).endsName, unsigned_cons s facts.2.1, ?_⟩
  simpa [token] using facts.2.2

theorem extends_index (h : Formula text) : Extends ('[' :: (text ++ [']'])) := fun _ amount =>
  amount.append (access_index h) (fun s => (adjoins_bracket (m := "[") (by decide) rfl _).1)
    fun s => (adjoins_bracket (m := "[") (by decide) rfl _).2

theorem extends_call (h : Listed Formula ")" text) : Extends ('(' :: text) := fun _ amount =>
  amount.append (access_call h) (fun s => (adjoins_bracket (m := "(") (by decide) rfl _).1)
    fun s => (adjoins_bracket (m := "(") (by decide) rfl _).2

theorem extends_member {n : String} {isEscaped : Bool} (h : IsIdentifier text n isEscaped) :
    Extends ('.' :: text) := by
  have point (s : List Char) : EndsName ('.' :: (text ++ s)) := by
    intro c mem
    obtain rfl : '.' = c := by simpa using mem
    decide
  rintro cs (core | numeral)
  · refine .value (core.append (access_member h) fun s _ => ⟨point s, ?_, ?_⟩)
    · intro c mem
      obtain rfl : '.' = c := by simpa using mem
      decide
    · have dot : Place.ahead ('.' :: (text ++ s)) = .mark "." :=
        Place.ahead_lexeme (l := markLexeme ".") (h.lexes_point s)
      rw [List.cons_append, dot]
      simp
  · by_cases digits : ∀ c ∈ cs, c.isDigit = true
    · exact .value (core_pointed numeral digits h)
    · exact .value ((core_number numeral).append (access_member h) fun s _ =>
        ⟨point s, fun whole => absurd whole digits⟩)

theorem Row.value (h : Core Adjoins text) : Row text := .last (.plain (.value h))

/-! ## Functions that check their arguments -/

variable {count stmt outer inner line gap : List Char}

/-- What throws the error of a call with the wrong number of arguments. -/
def throwChars : List Char :=
  "throw".toList ++ ' ' :: ("new".toList ++ ' '
    :: ("TypeError".toList ++ '(' :: (arityText ++ [')'])))

/-- The check of the number of arguments, with its two indentations. -/
def checkChars (count line inner : List Char) : List Char :=
  "if".toList ++ ' ' :: (('(' :: (("arguments".toList ++ '.' :: "length".toList
    ++ ' ' :: ("!=".toList ++ ' ' :: count)) ++ [')'])) ++ ' ' :: '\x7b' :: (inner ++ (throwChars
    ++ (line ++ ['\x7d']))))

/-- A new line. -/
structure Breaks (gap : List Char) : Prop where
  blank : ∀ c ∈ gap, Token.isGap c = true
  starts : gap.head? = some '\n'

theorem Breaks.brace (h : Breaks gap) (s : List Char) : Brace ((gap ++ ['\x7d']) ++ s) := by
  have token : Place.ahead ((gap ++ ['\x7d']) ++ s) = .mark "\x7d" := by
    rw [List.append_assoc, Place.ahead_gap h.blank]
    exact ahead_bracket (m := "\x7d") (by decide) s
  obtain ⟨blank, starts⟩ := h
  cases gap with
  | nil => cases starts
  | cons c gap =>
    cases starts
    exact meets_cons (by decide) token

theorem instruction_throwChars : Instruction Brace throwChars := by
  have literal : Core Adjoins arityText := core_string ⟨_, _, rfl, by decide⟩ lexes_arity
  have message : Formula arityText := (Row.value literal).formula
  exact instruction_throw
    (Row.value (core_construction (by decide) (by decide) (.last message))).formula

theorem instruction_check (numeral : IsNumeral count) (line_breaks : Breaks line)
    (inner_breaks : Breaks inner) :
    Instruction (fun s => Place.ahead s ≠ .name "else" false) (checkChars count line inner) := by
  have valid : IsIdentifier "arguments".toList "arguments" false
      ∧ IsIdentifier "length".toList "length" false := by
    constructor <;> exact ⟨by decide, by decide⟩
  have arguments : Row "arguments".toList := .value (core_name valid.1 (by decide))
  have length : Extends ('.' :: "length".toList) := extends_member valid.2
  have test : Row ("arguments".toList ++ '.' :: "length".toList
      ++ ' ' :: ("!=".toList ++ ' ' :: count)) :=
    (arguments.append length).join (by decide) (.last (.plain (.number numeral)))
  exact instruction_if test.formula (.cons inner_breaks.blank instruction_throwChars
    line_breaks.brace (.close line_breaks.blank))

/-- The body of a function that checks the number of its arguments, from its opening brace on. -/
def checkedChars (count stmt outer line inner : List Char) : List Char :=
  line ++ (checkChars count line inner ++ (line ++ (stmt ++ (outer ++ ['\x7d']))))

theorem braced_checked (numeral : IsNumeral count) (outer_breaks : Breaks outer)
    (line_breaks : Breaks line) (inner_breaks : Breaks inner) (h : Instruction Brace stmt) :
    Braced (checkedChars count stmt outer line inner) := by
  refine .cons line_breaks.blank (instruction_check numeral line_breaks inner_breaks) (fun s => ?_)
    (.cons line_breaks.blank h outer_breaks.brace (.close outer_breaks.blank))
  have text_eq : (line ++ (stmt ++ (outer ++ ['\x7d']))) ++ s
      = line ++ (stmt ++ ((outer ++ ['\x7d']) ++ s)) := by simp
  have first := Place.facing_first (stmt ++ ((outer ++ ['\x7d']) ++ s))
  rw [text_eq, Place.ahead_gap line_breaks.blank, ← first.token]
  exact h.noElse (outer_breaks.brace s) first

theorem mentions_checked :
    "arguments".toList <:+: checkedChars count stmt outer line inner := by
  have test : "arguments".toList <:+: checkChars count line inner := by
    refine ⟨"if (".toList, '.' :: ("length != ".toList ++ (count ++ (") \x7b".toList ++ (inner
      ++ (throwChars ++ (line ++ ['\x7d'])))))), ?_⟩
    simp [checkChars]
  refine test.trans ⟨line, line ++ (stmt ++ (outer ++ ['\x7d'])), ?_⟩
  simp [checkedChars]

/-- A function that checks the number of its arguments. -/
theorem core_checked {ps : List Char} (params : Listed IsParameter ")" ps)
    (numeral : IsNumeral count) (outer_breaks : Breaks outer) (line_breaks : Breaks line)
    (inner_breaks : Breaks inner) (h : Instruction Brace stmt) :
    Core Adjoins (literalText ps (checkedChars count stmt outer line inner)) :=
  core_function params (braced_checked numeral outer_breaks line_breaks inner_breaks h)
    mentions_checked

end EggLang.Script.Parser
