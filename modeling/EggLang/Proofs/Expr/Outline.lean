import EggLang.Proofs.Expr.Names
import EggLang.Proofs.Number.Distinct
import EggLang.Proofs.Text.Quoted

/-!
# Outlines tell trees apart

The lines of an outline are known from its text, since no line holds a line feed or starts with a
blank. The first line of an expression says what stands there, and what is below it goes on up to
the first line that is no deeper. So the outline of a program is that of another one just where the
trees are alike.
-/

namespace EggLang

namespace Expr

mutual

/-- The same tree, but for the places and for the digits of number literals that stand for one
double. -/
def Alike : Expr → Expr → Prop
  | number _ digits, number _ digits' => numberValue digits = numberValue digits'
  | string _ content, string _ content' => content = content'
  | word _ name, word _ name' => name = name'
  | apply _ operator args, apply _ operator' args' => operator = operator' ∧ AlikeAll args args'
  | closure operator args, closure operator' args' => Alike operator operator' ∧ AlikeAll args args'
  | _, _ => False

/-- As many expressions, each like the other. -/
def AlikeAll : List Expr → List Expr → Prop
  | [], [] => True
  | arg :: rest, arg' :: rest' => Alike arg arg' ∧ AlikeAll rest rest'
  | _, _ => False

end

variable {depth : Nat} {rest rest' : List OutlineLine} {e e' : Expr}

theorem outlineArgs_cons {later : List Expr} (filled : later ≠ []) (arg : Expr) :
    outlineArgs depth (arg :: later) = outlineLines depth arg ++ outlineArgs depth later := by
  cases later with
  | nil => exact absurd rfl filled
  | cons next later => rw [outlineArgs]; simp

/-! ## Alike trees -/

mutual

theorem Alike.outlineLines_eq (e e' : Expr) (h : e.Alike e') (depth : Nat) :
    outlineLines depth e = outlineLines depth e' := by
  match e, e', h with
  | number _ digits, number _ digits', h =>
    have same : numberValue digits = numberValue digits' := h
    rw [outlineLines, outlineLines, same]
  | string _ content, string _ content', h =>
    have same : content = content' := h
    rw [outlineLines, outlineLines, same]
  | word _ name, word _ name', h =>
    have same : name = name' := h
    rw [outlineLines, outlineLines, same]
  | apply _ operator args, apply _ operator' args', h =>
    obtain ⟨same, alike⟩ : operator = operator' ∧ AlikeAll args args' := h
    rw [outlineLines, outlineLines, same, AlikeAll.outlineArgs_eq args args' alike]
  | closure operator args, closure operator' args', h =>
    obtain ⟨same, alike⟩ : Alike operator operator' ∧ AlikeAll args args' := h
    rw [outlineLines, outlineLines, Alike.outlineLines_eq operator operator' same,
      AlikeAll.outlineArgs_eq args args' alike]

theorem AlikeAll.outlineArgs_eq (args args' : List Expr) (h : AlikeAll args args') (depth : Nat) :
    outlineArgs depth args = outlineArgs depth args' := by
  match args, args', h with
  | [], [], _ => rfl
  | [arg], [arg'], h =>
    obtain ⟨same, -⟩ : Alike arg arg' ∧ AlikeAll [] [] := h
    exact Alike.outlineLines_eq arg arg' same depth
  | arg :: next :: later, arg' :: next' :: later', h =>
    obtain ⟨same, alike⟩ : Alike arg arg' ∧ AlikeAll (next :: later) (next' :: later') := h
    rw [outlineArgs_cons (List.cons_ne_nil _ _), outlineArgs_cons (List.cons_ne_nil _ _),
      Alike.outlineLines_eq arg arg' same depth,
      AlikeAll.outlineArgs_eq (next :: later) (next' :: later') alike depth]

end

/-! ## The first line -/

/-- The text of the first line of an expression. -/
def headLine : Expr → Bytes
  | number _ digits => utf8 "Value(number) " ++ outlineNumber.render (numberValue digits)
  | string _ content => utf8 "Value(string) " ++ Text.Quoted.encode content
  | word _ name => utf8 "Word " ++ name
  | apply _ operator _ => utf8 "Apply " ++ operator
  | closure .. => utf8 "Closure"

/-- The lines below the first line of an expression. -/
def lowerLines (depth : Nat) : Expr → List OutlineLine
  | apply _ _ args => outlineArgs (depth + 1) args
  | closure operator args =>
    (depth + 1, utf8 "operator:") :: outlineLines (depth + 2) operator
      ++ outlineArgs (depth + 1) args
  | _ => []

theorem outlineLines_eq (depth : Nat) (e : Expr) :
    outlineLines depth e = (depth, e.headLine) :: e.lowerLines depth := by
  cases e <;> rw [outlineLines] <;> rfl

/-- The part of a first line that says what kind of expression it is. -/
def lineKind (line : Bytes) : Bytes := if line.head? = some 86 then line.take 14 else line.take 1

/-- The first lines of alike expressions. -/
def SameHead : Expr → Expr → Prop
  | number _ digits, number _ digits' => numberValue digits = numberValue digits'
  | string _ content, string _ content' => content = content'
  | word _ name, word _ name' => name = name'
  | apply _ operator _, apply _ operator' _ => operator = operator'
  | closure .., closure .. => True
  | _, _ => False

/-- What the first line of an expression starts with. -/
def kind : Expr → Bytes
  | number .. => utf8 "Value(number) "
  | string .. => utf8 "Value(string) "
  | word .. => utf8 "W"
  | apply .. => utf8 "A"
  | closure .. => utf8 "C"

theorem lineKind_headLine (e : Expr) : lineKind e.headLine = e.kind := by
  cases e <;> rfl

theorem headLine_inj (same : e.headLine = e'.headLine) : SameHead e e' := by
  have kinds := congrArg lineKind same
  rw [lineKind_headLine, lineKind_headLine] at kinds
  cases e <;> cases e' <;> simp only [kind] at kinds
  case number.number =>
    exact (outlineNumber_ofNat_iff _ _).1 (List.append_cancel_left same)
  case string.string => exact Text.Quoted.encode_injective (List.append_cancel_left same)
  case word.word => exact List.append_cancel_left same
  case apply.apply => exact List.append_cancel_left same
  case closure.closure => trivial
  all_goals exact absurd kinds (by decide)

theorem headLine_ne_noArgs (e : Expr) : e.headLine ≠ utf8 "(no args)" := by
  intro same
  have kinds := congrArg lineKind same
  rw [lineKind_headLine] at kinds
  cases e <;> simp only [kind] at kinds <;> exact absurd kinds (by decide)

theorem outlineArgs_head (depth : Nat) (args : List Expr) :
    ∃ text later, outlineArgs depth args = (depth, text) :: later := by
  match args with
  | [] => exact ⟨_, _, rfl⟩
  | [arg] => exact ⟨_, _, outlineLines_eq depth arg⟩
  | arg :: next :: later =>
    rw [outlineArgs_cons (List.cons_ne_nil _ _), outlineLines_eq]
    exact ⟨_, _, rfl⟩

/-! ## Trees from lines -/

/-- Some lines do not go on below a depth. -/
def Shallow (depth : Nat) (lines : List OutlineLine) : Prop := ∀ line ∈ lines.head?, line.1 ≤ depth

theorem shallow_outlineArgs (depth : Nat) (args : List Expr) :
    Shallow depth (outlineArgs depth args ++ rest) := by
  obtain ⟨text, later, lines⟩ := outlineArgs_head depth args
  rw [lines]
  rintro line ⟨⟩
  exact Nat.le_refl _

theorem Shallow.mono {shallower : Nat} (h : Shallow shallower rest) (le : shallower ≤ depth) :
    Shallow depth rest := fun line first => Nat.le_trans (h line first) le

mutual

/-- An expression is known from its lines, whatever shallower lines follow them. -/
theorem alike_of_lines (e e' : Expr) (depth : Nat) {rest rest' : List OutlineLine}
    (shallow : Shallow depth rest) (shallow' : Shallow depth rest')
    (same : outlineLines depth e ++ rest = outlineLines depth e' ++ rest') :
    e.Alike e' ∧ rest = rest' := by
  rw [outlineLines_eq, outlineLines_eq] at same
  obtain ⟨first, lower⟩ := List.cons.inj same
  have head := headLine_inj (congrArg Prod.snd first)
  match e, e', head with
  | number .., number .., head => exact ⟨head, lower⟩
  | string .., string .., head => exact ⟨head, lower⟩
  | word .., word .., head => exact ⟨head, lower⟩
  | apply _ operator args, apply _ operator' args', head =>
    obtain ⟨alike, behind⟩ := alikeAll_of_lines args args' depth shallow shallow' lower
    exact ⟨⟨head, alike⟩, behind⟩
  | closure operator args, closure operator' args', _ =>
    have below : outlineLines (depth + 2) operator ++ (outlineArgs (depth + 1) args ++ rest)
        = outlineLines (depth + 2) operator' ++ (outlineArgs (depth + 1) args' ++ rest') := by
      simpa [lowerLines] using lower
    obtain ⟨alike, behind⟩ := alike_of_lines operator operator' (depth + 2)
      ((shallow_outlineArgs _ _).mono (Nat.le_succ _))
      ((shallow_outlineArgs _ _).mono (Nat.le_succ _)) below
    obtain ⟨alikeAll, behind⟩ := alikeAll_of_lines args args' depth shallow shallow' behind
    exact ⟨⟨alike, alikeAll⟩, behind⟩

/-- Arguments are known from their lines; the lines that follow are those of the call or above. -/
theorem alikeAll_of_lines (args args' : List Expr) (depth : Nat) {rest rest' : List OutlineLine}
    (shallow : Shallow depth rest) (shallow' : Shallow depth rest')
    (same : outlineArgs (depth + 1) args ++ rest = outlineArgs (depth + 1) args' ++ rest') :
    AlikeAll args args' ∧ rest = rest' := by
  -- a line of an argument is deeper than what follows the arguments
  have deeper {rest : List OutlineLine} (shallow : Shallow depth rest) (args : List Expr)
      (later : List OutlineLine) : rest ≠ outlineArgs (depth + 1) args ++ later := by
    obtain ⟨text, below, lines⟩ := outlineArgs_head (depth + 1) args
    rw [lines]
    rintro rfl
    exact absurd (shallow _ rfl) (Nat.not_succ_le_self _)
  have up {rest : List OutlineLine} (shallow : Shallow depth rest) : Shallow (depth + 1) rest :=
    shallow.mono (Nat.le_succ _)
  match args, args' with
  | [], [] => exact ⟨trivial, List.append_cancel_left same⟩
  | [], arg' :: later' =>
    exfalso
    cases later' with
    | nil =>
      rw [outlineArgs, outlineArgs, outlineLines_eq] at same
      exact headLine_ne_noArgs arg' (congrArg Prod.snd (List.cons.inj same).1).symm
    | cons next later' =>
      rw [outlineArgs, outlineArgs_cons (List.cons_ne_nil _ _), outlineLines_eq] at same
      exact headLine_ne_noArgs arg' (congrArg Prod.snd (List.cons.inj same).1).symm
  | arg :: later, [] =>
    exfalso
    cases later with
    | nil =>
      rw [outlineArgs, outlineArgs, outlineLines_eq] at same
      exact headLine_ne_noArgs arg (congrArg Prod.snd (List.cons.inj same).1)
    | cons next later =>
      rw [outlineArgs, outlineArgs_cons (List.cons_ne_nil _ _), outlineLines_eq] at same
      exact headLine_ne_noArgs arg (congrArg Prod.snd (List.cons.inj same).1)
  | [arg], [arg'] =>
    obtain ⟨alike, behind⟩ := alike_of_lines arg arg' (depth + 1) (up shallow) (up shallow') same
    exact ⟨⟨alike, trivial⟩, behind⟩
  | [arg], arg' :: next' :: later' =>
    rw [outlineArgs, outlineArgs_cons (List.cons_ne_nil _ _), List.append_assoc] at same
    obtain ⟨-, behind⟩ := alike_of_lines arg arg' (depth + 1) (up shallow)
      (shallow_outlineArgs _ _) same
    exact absurd behind (deeper shallow _ _)
  | arg :: next :: later, [arg'] =>
    rw [outlineArgs, outlineArgs_cons (List.cons_ne_nil _ _), List.append_assoc] at same
    obtain ⟨-, behind⟩ := alike_of_lines arg arg' (depth + 1) (shallow_outlineArgs _ _)
      (up shallow') same
    exact absurd behind.symm (deeper shallow' _ _)
  | arg :: next :: later, arg' :: next' :: later' =>
    rw [outlineArgs_cons (List.cons_ne_nil _ _), outlineArgs_cons (List.cons_ne_nil _ _),
      List.append_assoc, List.append_assoc] at same
    obtain ⟨alike, behind⟩ := alike_of_lines arg arg' (depth + 1) (shallow_outlineArgs _ _)
      (shallow_outlineArgs _ _) same
    obtain ⟨alikeAll, behind⟩ :=
      alikeAll_of_lines (next :: later) (next' :: later') depth shallow shallow' behind
    exact ⟨⟨alike, alikeAll⟩, behind⟩

end

/-! ## Lines from the text -/

/-- A text that may stand on a line: it starts with no blank and holds no line feed. -/
structure IsLine (text : Bytes) : Prop where
  starts : ∃ b rest, text = b :: rest ∧ b ≠ 32
  whole : 10 ∉ text

theorem isLine_label {label : Bytes} (starts : label.head?.any (· != 32)) (whole : 10 ∉ label) :
    IsLine label := by
  cases label with
  | nil => cases starts
  | cons b rest => exact ⟨⟨b, rest, rfl, by simpa using starts⟩, whole⟩

theorem isLine_append {text : Bytes} (label : String) (labelled : IsLine (utf8 label))
    (whole : 10 ∉ text) : IsLine (utf8 label ++ text) := by
  obtain ⟨b, rest, written, other⟩ := labelled.starts
  refine ⟨⟨b, rest ++ text, by rw [written]; rfl, other⟩, fun among => ?_⟩
  rcases List.mem_append.1 among with front | back
  · exact labelled.whole front
  · exact whole back

theorem isLine_headLine (whole : ∀ n ∈ e.names, 10 ∉ n) : IsLine e.headLine := by
  cases e with
  | number _ digits =>
    exact isLine_append _ (isLine_label rfl (by decide)) (outlined_ofNat _).not_mem
  | string _ content =>
    exact isLine_append _ (isLine_label rfl (by decide)) (Text.Quoted.not_mem_encode _)
  | word _ name =>
    exact isLine_append _ (isLine_label rfl (by decide)) (whole name (List.mem_singleton.2 rfl))
  | apply _ operator args =>
    exact isLine_append _ (isLine_label rfl (by decide))
      (whole operator (List.mem_cons_self ..))
  | closure operator args => exact isLine_label rfl (by decide : 10 ∉ utf8 "Closure")

mutual

theorem isLine_of_mem_lines (e : Expr) (whole : ∀ n ∈ e.names, 10 ∉ n) (depth : Nat) :
    ∀ line ∈ outlineLines depth e, IsLine line.2 := by
  rw [outlineLines_eq]
  refine List.forall_mem_cons.2 ⟨isLine_headLine whole, ?_⟩
  match e with
  | number .. => exact fun _ none => nomatch none
  | string .. => exact fun _ none => nomatch none
  | word .. => exact fun _ none => nomatch none
  | apply _ operator args =>
    exact isLine_of_mem_args args (fun n among => whole n (List.mem_cons_of_mem _ among)) _
  | closure operator args =>
    rw [lowerLines, List.cons_append]
    refine List.forall_mem_cons.2 ⟨isLine_label rfl (by decide : 10 ∉ utf8 "operator:"), ?_⟩
    refine List.forall_mem_append.2 ⟨?_, ?_⟩
    · exact isLine_of_mem_lines operator (fun n among => whole n (List.mem_append_left _ among)) _
    · exact isLine_of_mem_args args (fun n among => whole n (List.mem_append_right _ among)) _

theorem isLine_of_mem_args (args : List Expr) (whole : ∀ n ∈ namesAll args, 10 ∉ n) (depth : Nat) :
    ∀ line ∈ outlineArgs depth args, IsLine line.2 := by
  match args with
  | [] => exact List.forall_mem_singleton.2 (isLine_label rfl (by decide : 10 ∉ utf8 "(no args)"))
  | [arg] =>
    exact isLine_of_mem_lines arg (fun n among => whole n (List.mem_append_left _ among)) depth
  | arg :: next :: later =>
    rw [outlineArgs_cons (List.cons_ne_nil _ _)]
    refine List.forall_mem_append.2 ⟨?_, ?_⟩
    · exact isLine_of_mem_lines arg (fun n among => whole n (List.mem_append_left _ among)) depth
    · exact isLine_of_mem_args (next :: later)
        (fun n among => whole n (List.mem_append_right _ among)) depth

end

/-- A line of an outline as it is written. -/
def writeLine (line : OutlineLine) : Bytes :=
  Bytes.repeated (utf8 "  ") line.1 ++ line.2 ++ utf8 "\n"

theorem not_mem_indent (depth : Nat) : 10 ∉ Bytes.repeated (utf8 "  ") depth := by
  induction depth with
  | zero => exact List.not_mem_nil
  | succ depth ih =>
    rw [Bytes.repeated, List.mem_append, not_or]
    exact ⟨by decide, ih⟩

/-- The depth of a line is the indentation in front of its text. -/
theorem indent_inj {depth' : Nat} {text text' : Bytes} (line : IsLine text) (line' : IsLine text')
    (same : Bytes.repeated (utf8 "  ") depth ++ text = Bytes.repeated (utf8 "  ") depth' ++ text') :
    depth = depth' ∧ text = text' := by
  have blanks (depth : Nat) (text : Bytes) : Bytes.repeated (utf8 "  ") (depth + 1) ++ text
      = 32 :: 32 :: (Bytes.repeated (utf8 "  ") depth ++ text) := rfl
  -- a text is not indented more than another one that starts with no blank
  have starts {depth : Nat} {text text' : Bytes} (line : IsLine text) :
      text ≠ Bytes.repeated (utf8 "  ") (depth + 1) ++ text' := by
    obtain ⟨b, rest, rfl, other⟩ := line.starts
    rw [blanks]
    exact fun same => other (List.cons.inj same).1
  induction depth generalizing depth' with
  | zero =>
    cases depth' with
    | zero => exact ⟨rfl, same⟩
    | succ depth' => exact absurd same (starts line)
  | succ depth ih =>
    cases depth' with
    | zero => exact absurd same.symm (starts line')
    | succ depth' =>
      rw [blanks, blanks] at same
      obtain ⟨rfl, text⟩ := ih (List.cons.inj (List.cons.inj same).2).2
      exact ⟨rfl, text⟩

/-- Lines are known from their text. -/
theorem writeLines_inj {lines lines' : List OutlineLine} (areLines : ∀ l ∈ lines, IsLine l.2)
    (areLines' : ∀ l ∈ lines', IsLine l.2)
    (same : lines.flatMap writeLine = lines'.flatMap writeLine) : lines = lines' := by
  have written (line : OutlineLine) (rest : Bytes) : writeLine line ++ rest
      = (Bytes.repeated (utf8 "  ") line.1 ++ line.2) ++ 10 :: rest := by
    have feed : utf8 "\n" = [10] := rfl
    rw [writeLine, feed, List.append_assoc, List.singleton_append]
  have whole {line : OutlineLine} (isLine : IsLine line.2) :
      10 ∉ Bytes.repeated (utf8 "  ") line.1 ++ line.2 := by
    rw [List.mem_append, not_or]
    exact ⟨not_mem_indent _, isLine.whole⟩
  induction lines generalizing lines' with
  | nil =>
    cases lines' with
    | nil => rfl
    | cons line' later' =>
      rw [List.flatMap_cons, written] at same
      exact absurd same.symm (by simp)
  | cons line later ih =>
    obtain ⟨first, others⟩ := List.forall_mem_cons.1 areLines
    cases lines' with
    | nil =>
      rw [List.flatMap_cons, written] at same
      exact absurd same (by simp)
    | cons line' later' =>
      obtain ⟨first', others'⟩ := List.forall_mem_cons.1 areLines'
      rw [List.flatMap_cons, List.flatMap_cons, written, written] at same
      obtain ⟨front, behind⟩ := Bytes.append_cons_inj (whole first) (whole first') same
      obtain ⟨depth, text⟩ := indent_inj first first' front
      rw [ih others others' behind, Prod.ext depth text]

theorem outline_eq (e : Expr) : e.outline = (outlineLines 0 e).flatMap writeLine := rfl

end Expr

/-- Two programs have the same outline just where their trees are alike. -/
theorem outline_eq_iff {source source' : Bytes} {e e' : Expr} (parses : parse source = .ok e)
    (parses' : parse source' = .ok e') : e.outline = e'.outline ↔ e.Alike e' := by
  constructor
  · intro same
    have lines : Expr.outlineLines 0 e = Expr.outlineLines 0 e' :=
      Expr.writeLines_inj (Expr.isLine_of_mem_lines e (not_mem_of_parse parses) 0)
        (Expr.isLine_of_mem_lines e' (not_mem_of_parse parses') 0) same
    have nothing : Expr.Shallow 0 [] := fun _ none => nomatch none
    exact (Expr.alike_of_lines e e' 0 nothing nothing (by rw [lines])).1
  · intro alike
    rw [Expr.outline_eq, Expr.outline_eq, Expr.Alike.outlineLines_eq e e' alike]

set_option maxRecDepth 4000 in
/-- A call of a call, and the same with a comment, a comma more and zeros in front of the number. -/
theorem outline_eq_iff_respelled :
    let e := Expr.closure (.apply ⟨0, 1, 1⟩ (utf8 "f")
      [.number ⟨2, 1, 3⟩ (utf8 "1"), .string ⟨4, 1, 5⟩ (utf8 "a")]) []
    let e' := Expr.closure (.apply ⟨1, 1, 2⟩ (utf8 "f")
      [.number ⟨3, 1, 4⟩ (utf8 "001"), .string ⟨8, 1, 9⟩ (utf8 "a")]) []
    parse (utf8 "f(1,\"a\")()") = .ok e ∧ parse (utf8 " f(001, \"a\",)( # none\n)") = .ok e'
      ∧ (e.outline = e'.outline ↔ e.Alike e') ∧ e.Alike e' := by
  intro e e'
  have parses : parse (utf8 "f(1,\"a\")()") = .ok e := by
    dsimp only [e]
    with_unfolding_all rfl
  have parses' : parse (utf8 " f(001, \"a\",)( # none\n)") = .ok e' := by
    dsimp only [e']
    with_unfolding_all rfl
  have same := outline_eq_iff parses parses'
  exact ⟨parses, parses', same, same.1 (by decide +kernel)⟩

end EggLang
