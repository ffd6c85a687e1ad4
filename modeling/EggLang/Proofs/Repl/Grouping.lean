import EggLang.Proofs.Text.Pieces
import EggLang.Repl.Basic

/-!
# Lines and expressions

The loop reads a text from as many lines as it takes until there is nothing to continue, and goes
on behind them. So the texts, cut at their line breaks, are the lines of the input, each once and in
order, and each text ends with the first line at which it may end. Only the last one may be cut off,
by the end of the input.
-/

namespace EggLang.Repl

variable {lines front pending rest : List Bytes} {texts : List Bytes} {soFar text line : Bytes}
  {input : List Reply}

/-- The text of some lines. -/
def textOf (lines : List Bytes) : Bytes := Bytes.join (utf8 "\n") lines

/-- Some lines are all that is read: their text, trimmed, is empty, or a command, or it is no
expression that goes on. -/
def Closes (lines : List Bytes) : Prop :=
  Text.trim (textOf lines) = [] ∨ Bytes.startsWith (Text.trim (textOf lines)) (utf8 ":") = true
    ∨ isIncomplete (Text.trim (textOf lines)) = false

theorem isComplete_iff : isComplete (textOf lines) = true ↔ Closes lines := by
  simp [isComplete, Closes, or_assoc]

/-- No lines that these begin with are all that is read. -/
def Open (lines : List Bytes) : Prop := ∀ front, front <+: lines → front ≠ [] → ¬ Closes front

/-- The shortest lines that are all that is read. -/
structure Shortest (lines : List Bytes) : Prop where
  filled : lines ≠ []
  closes : Closes lines
  least : ∀ front, front <+: lines → front ≠ [] → Closes front → front = lines

/-- Texts that lines are grouped to: the shortest lines that are all that is read, one group after
the other, and at the end lines that would go on. -/
inductive Grouped : List Bytes → List Bytes → Prop where
  | done : Grouped [] []
  | cutOff {lines : List Bytes} : lines ≠ [] → Open lines → Grouped lines [textOf lines]
  | whole {lines rest texts : List Bytes} : Shortest lines → Grouped rest texts →
      Grouped (lines ++ rest) (textOf lines :: texts)

theorem open_nil : Open [] := fun _ begins filled => absurd (List.prefix_nil.1 begins) filled

/-- Lines that go on are not empty. -/
theorem Open.text_ne_nil (h : Open lines) (filled : lines ≠ []) : textOf lines ≠ [] := by
  intro empty
  refine h lines (List.prefix_refl _) filled (.inl ?_)
  rw [empty]
  rfl

theorem Open.concat (h : Open pending) (goesOn : ¬ Closes (pending ++ [line])) :
    Open (pending ++ [line]) := by
  intro front begins filled
  rcases List.prefix_concat_iff.1 begins with rfl | begins
  · exact goesOn
  · exact h front begins filled

theorem Open.shortest (h : Open pending) (closes : Closes (pending ++ [line])) :
    Shortest (pending ++ [line]) where
  filled := by simp
  closes := closes
  least front begins filled closed := by
    rcases List.prefix_concat_iff.1 begins with rfl | begins
    · rfl
    · exact absurd closed (h front begins filled)

theorem addLine_textOf (h : Open pending) (line : Bytes) :
    addLine (textOf pending) line = textOf (pending ++ [line]) := by
  unfold addLine
  by_cases none : pending = []
  · subst none
    rfl
  · rw [if_neg (by simpa using h.text_ne_nil none), textOf, textOf, Bytes.join_append_single none]

/-! ## One text -/

/-- What reading one text from lines gives, after some that go on. -/
inductive Reads (pending lines : List Bytes) (reading : Reading) : Prop where
  | text (read rest : List Bytes) : lines = read ++ rest → Shortest (pending ++ read) →
      reading.text = some (textOf (pending ++ read)) → reading.rest = rest.map .line →
      Reads pending lines reading
  | cutOff : pending ++ lines ≠ [] → Open (pending ++ lines) →
      reading.text = some (textOf (pending ++ lines)) → reading.rest = [] →
      Reads pending lines reading
  | ended : pending ++ lines = [] → reading.text = none → reading.rest = [] →
      Reads pending lines reading

theorem readExpression_reads (goesOn : Open pending) (lines : List Bytes) :
    Reads pending lines (readExpression (textOf pending) (lines.map .line)) := by
  induction lines generalizing pending with
  | nil =>
    rw [List.map_nil, readExpression]
    by_cases none : pending = []
    · subst none
      exact .ended rfl rfl rfl
    · have filled : (textOf pending).isEmpty = false := by
        simpa using goesOn.text_ne_nil none
      refine .cutOff (by simpa using none) (by simpa using goesOn) ?_ rfl
      simp [filled]
  | cons line lines ih =>
    rw [List.map_cons, readExpression, addLine_textOf goesOn]
    dsimp only
    split
    · next complete =>
      exact .text [line] lines rfl (goesOn.shortest (isComplete_iff.1 complete)) rfl rfl
    · next more =>
      have further := goesOn.concat fun closes => more (isComplete_iff.2 closes)
      rcases ih further with
        ⟨read, others, rfl, shortest, text, rest⟩ | ⟨-, cut, text, rest⟩ | ⟨none, -, -⟩
      · refine .text (line :: read) others rfl ?_ ?_ rest
        · simpa using shortest
        · simpa using text
      · refine .cutOff ?_ ?_ ?_ rest
        · simp
        · simpa using cut
        · simpa using text
      · simp at none

/-! ## All texts -/

/-- A text takes a part of the input, if there is one. -/
theorem length_rest_lt (read : (readExpression [] input).text = some text) :
    (readExpression [] input).rest.length < input.length := by
  have bound (soFar : Bytes) (input : List Reply) :
      (readExpression soFar input).rest.length ≤ input.length - 1 := by
    induction input generalizing soFar with
    | nil => exact Nat.le_refl _
    | cons reply rest ih =>
      cases reply with
      | line line =>
        rw [readExpression]
        dsimp only
        split
        · exact Nat.le_refl _
        · exact Nat.le_trans (ih _) (Nat.sub_le _ _)
      | aborted | failed => exact Nat.le_refl _
  cases input with
  | nil => cases read
  | cons reply rest => exact Nat.lt_succ_of_le (bound [] (reply :: rest))

/-- The texts that are read one after the other until the input is over. -/
def expressions (input : List Reply) : List Bytes :=
  match _read : (readExpression [] input).text with
  | none => []
  | some text => text :: expressions (readExpression [] input).rest
termination_by input.length
decreasing_by exact length_rest_lt _read

theorem expressions_of_none (read : (readExpression [] input).text = none) :
    expressions input = [] := by
  rw [expressions]
  split
  · rfl
  · next some => cases read.symm.trans some

theorem expressions_of_some (read : (readExpression [] input).text = some text) :
    expressions input = text :: expressions (readExpression [] input).rest := by
  rw [expressions]
  split
  · next none => cases read.symm.trans none
  · next some => rw [Option.some.inj (read.symm.trans some)]

theorem expressions_grouped (lines : List Bytes) :
    Grouped lines (expressions (lines.map .line)) := by
  induction size : lines.length using Nat.strongRecOn generalizing lines with
  | ind n ih =>
    have reads : Reads [] lines (readExpression [] (lines.map .line)) :=
      readExpression_reads open_nil lines
    rcases reads with
      @⟨read, rest, rfl, shortest, text, left⟩ | ⟨filled, cut, text, left⟩ | ⟨none, text, -⟩
    · have shorter : rest.length < n := by
        have := List.length_pos_iff.2 shortest.filled
        simp at this size
        omega
      rw [expressions_of_some text, left]
      exact .whole shortest (ih _ shorter rest rfl)
    · have none_left : expressions [] = [] := expressions_of_none rfl
      rw [expressions_of_some text, left, none_left]
      exact .cutOff filled cut
    · obtain rfl : lines = [] := none
      rw [expressions_of_none text]
      exact .done

/-- Grouped lines come back from the texts. -/
theorem Grouped.splitOn (h : Grouped lines texts) (whole : ∀ line ∈ lines, 10 ∉ line) :
    texts.flatMap (Bytes.splitOn 10) = lines := by
  have back {lines : List Bytes} (filled : lines ≠ []) (whole : ∀ line ∈ lines, 10 ∉ line) :
      Bytes.splitOn 10 (textOf lines) = lines := Bytes.splitOn_join filled whole
  induction h with
  | done => rfl
  | cutOff filled _ => simp [back filled whole]
  | whole shortest _ ih =>
    obtain ⟨here, later⟩ := List.forall_mem_append.1 whole
    rw [List.flatMap_cons, back shortest.filled here, ih later]

/-! ## The loop -/

/-- Whether a text is the command that ends the loop. -/
def quits (text : Bytes) : Bool :=
  Bytes.startsWith text (utf8 ":")
    && ((splitCommand text).1 = utf8 ":quit" || (splitCommand text).1 = utf8 ":q")

theorem ends_obey (screen : Highlight.Screen) (s : Session) (cache : Option Cache) (text : Bytes) :
    (obey screen s cache text).ends = quits text := by
  unfold obey quits
  cases Bytes.startsWith text (utf8 ":") with
  | false =>
    simp only [Bool.false_eq_true, if_false, Bool.false_and, showCode]
    split <;> rfl
  | true =>
    simp only [if_true, Bool.true_and, runCommand, runProgram]
    split
    · next asked => simpa using asked
    · next other =>
      have stays : (decide ((splitCommand text).1 = utf8 ":quit")
          || decide ((splitCommand text).1 = utf8 ":q")) = false := by simpa using other
      rw [stays]
      split
      · rfl
      · split
        · rfl
        · split
          · split <;> rfl
          · rfl

/-- The texts that are carried out: trimmed, and those of which nothing is left passed over, up to
the one that ends the loop. -/
def obeyed : List Bytes → List Bytes
  | [] => []
  | text :: rest =>
    if (Text.trim text).isEmpty then obeyed rest
    else if quits (Text.trim text) then [Text.trim text]
    else Text.trim text :: obeyed rest

theorem history_loop (screen : Highlight.Screen) {fuel : Nat} (s : Session) (cache : Option Cache)
    (enough : input.length < fuel) :
    (loop screen fuel s cache input).history = (obeyed (expressions input)).map historyLine := by
  induction fuel generalizing s cache input with
  | zero => omega
  | succ fuel ih =>
    rw [loop]
    dsimp only
    cases read : (readExpression [] input).text with
    | none =>
      rw [expressions_of_none read]
      rfl
    | some text =>
      have left : (readExpression [] input).rest.length < fuel := by
        have := length_rest_lt read
        omega
      rw [expressions_of_some read, obeyed]
      dsimp only
      by_cases empty : (Text.trim text).isEmpty = true
      · rw [if_pos empty, if_pos empty]
        exact ih s cache left
      · rw [if_neg empty, if_neg empty, ends_obey]
        by_cases asked : quits (Text.trim text) = true
        · rw [if_pos asked, if_pos asked]
          rfl
        · rw [if_neg asked, if_neg asked]
          exact congrArg (historyLine (Text.trim text) :: ·) (ih _ _ left)

/-- Input of lines without line breaks: the texts that are read give back its lines, each text is
the shortest run of lines from where it starts at which reading may stop, but for one at the end
that the end of the input cuts off, and the loop carries out these texts in their order. -/
theorem reads_each_line_once (lines : List Bytes) (whole : ∀ line ∈ lines, 10 ∉ line) :
    let input := lines.map Reply.line
    let texts := expressions input
    texts.flatMap (Bytes.splitOn 10) = lines ∧ Grouped lines texts
      ∧ ∀ screen s cache, (run screen s cache input).history
        = (obeyed texts).map historyLine := by
  intro input texts
  have grouped : Grouped lines texts := expressions_grouped lines
  exact ⟨grouped.splitOn whole, grouped, fun screen s cache =>
    history_loop screen s cache (Nat.lt_succ_self _)⟩

/-- A call that a comment interrupts is closed on a later line, an empty line is a text of its own,
and the end of the input cuts off a call that is not closed. -/
theorem reads_each_line_once_cutOff :
    let lines := [utf8 "print( # all", utf8 "", utf8 "1)", utf8 "", utf8 ":funcs", utf8 "do(2,"]
    (∀ line ∈ lines, 10 ∉ line)
      ∧ expressions (lines.map Reply.line)
        = [utf8 "print( # all\n\n1)", utf8 "", utf8 ":funcs", utf8 "do(2,"]
      ∧ (expressions (lines.map Reply.line)).flatMap (Bytes.splitOn 10) = lines
      ∧ Grouped lines (expressions (lines.map Reply.line)) := by
  intro lines
  have whole : ∀ line ∈ lines, 10 ∉ line := by decide
  obtain ⟨once, grouped, -⟩ := reads_each_line_once lines whole
  refine ⟨whole, ?_, once, grouped⟩
  decide +kernel

end EggLang.Repl
