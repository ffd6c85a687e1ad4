import EggLang.Proofs.Expr.Reading
import EggLang.Proofs.Source.Lines

/-!
# Reading by descent, with every access checked

A reader that goes down into the arguments of a call and comes back with the position behind them.
It looks at the stripped text, the offsets and the line table by index, and each index and each
slice is checked: one that is not inside crashes the reader, as does a position beyond the text, and
so do too many steps. Its leaves are settled here: a place, an excerpt and an atom are found without
a crash, and they are those of the lexemes.
-/

namespace EggLang.Descent

/-- What must not happen while a text is read. -/
inductive Crash where
  /-- An index or a slice is not inside its list. -/
  | outside
  /-- A position is beyond the text, so that its end would be taken instead. -/
  | clamped
  /-- The steps that were allowed are used up. -/
  | unfinished
  deriving DecidableEq, Repr

/-- A result, or a crash. -/
abbrev Checked := Except Crash

/-- The item at an index. -/
def index {α : Type} (items : List α) (i : Nat) : Checked α :=
  match items[i]? with
  | some item => .ok item
  | none => .error .outside

/-- The items from an index up to another one. -/
def slice {α : Type} (items : List α) (start stop : Nat) : Checked (List α) :=
  if start ≤ stop ∧ stop ≤ items.length then .ok ((items.take stop).drop start)
  else .error .outside

/-- A source with what a reader looks up in it. -/
structure Reader where
  source : Bytes
  /-- The source without blanks and comments. -/
  text : Bytes
  /-- The offset of each byte of the text, and of the end. -/
  offsets : List Nat
  lineStarts : List Nat

/-- The reader of a source. -/
def Reader.new (source : Bytes) : Reader where
  source
  text := strip source
  offsets := (Stripped.ofSource source).offsets
  lineStarts := Place.lineStarts source

/-- The place in the source of a position in the text. -/
def Reader.position (r : Reader) (pos : Nat) : Checked Place :=
  if r.text.length < pos then .error .clamped
  else do
    let offset ← index r.offsets pos
    let line := r.lineStarts.findIdx (offset < ·)
    if line = 0 then .error .outside
    else
      let start ← index r.lineStarts (line - 1)
      let before ← slice r.source start offset
      return ⟨offset, line, Text.length before + 1⟩

/-- The text from a position on, as a message quotes it. -/
def Reader.excerpt (r : Reader) (pos : Nat) : Checked Bytes := do
  let rest ← slice r.text pos r.text.length
  return Reading.excerpt rest

/-- Whether a byte stands at a position. -/
def Reader.looksAt (r : Reader) (pos : Nat) (b : UInt8) : Checked Bool :=
  if pos < r.text.length then do
    let found ← index r.text pos
    return found == b
  else return false

/-! ## Atoms -/

/-- The end of a run from a position on; `width?` tells how far a text goes on with it. -/
def runFrom (width? : Bytes → Option Nat) (text : Bytes) : (steps pos : Nat) → Checked Nat
  | 0, _ => .error .unfinished
  | steps + 1, pos =>
    if pos < text.length then do
      let rest ← slice text pos text.length
      match width? rest with
      | some width => runFrom width? text steps (pos + width)
      | none => return pos
    else return pos

/-- The length of the run at the front of a text. -/
def runLength (width? : Bytes → Option Nat) (text : Bytes) : Checked Nat :=
  runFrom width? text (text.length + 1) 0

/-- A digit at the front of a text. -/
def digitWidth? : Bytes → Option Nat
  | [] => none
  | b :: _ => if Bytes.isDigit b then some 1 else none

/-- A character of a word at the front of a text, or a byte that belongs to no character. -/
def wordWidth? (text : Bytes) : Option Nat :=
  match Text.lead? text with
  | some c => if Token.isWordGlyph (.char c) then some c.utf8Size else none
  | none => some 1

/-- The string at the front of a text, and its length there. -/
def quoted (at_ : Place) (rest : Bytes) : Checked (Option (Expr × Nat)) :=
  if rest.head? = some 34 then do
    let inner ← slice rest 1 rest.length
    match inner.idxOf? 34 with
    | some stop =>
      let content ← slice rest 1 (stop + 1)
      return some (.string at_ content, stop + 2)
    | none => return none
  else return none

/-- Whether so many digits at the front of a text are a number. -/
def isNumber (rest : Bytes) (n : Nat) : Checked Bool :=
  if n = 0 then return false
  else if n = rest.length then return true
  else do
    let behind ← index rest n
    return !Token.extendsNumber behind

/-- The number or the word at the front of a text, and its length. -/
def numberOrWord (at_ : Place) (rest : Bytes) : Checked (Option (Expr × Nat)) := do
  let digits ← runLength digitWidth? rest
  if ← isNumber rest digits then
    let number ← slice rest 0 digits
    return some (.number at_ number, digits)
  else
    let n ← runLength wordWidth? rest
    if n = 0 then return none
    else
      let name ← slice rest 0 n
      return some (.word at_ name, n)

/-- The atom at the front of a text, and its length. -/
def atom (at_ : Place) (rest : Bytes) : Checked (Option (Expr × Nat)) := do
  match ← quoted at_ rest with
  | some found => return some found
  | none => numberOrWord at_ rest

/-! ## Expressions -/

/-- What reading gives, and the position where it ended. -/
abbrev Outcome (α : Type) := Except Diagnostic α × Nat

mutual

/-- Reads an expression. -/
def expression (r : Reader) : (steps pos : Nat) → Checked (Outcome Expr)
  | 0, _ => .error .unfinished
  | steps + 1, pos => do
    let rest ← slice r.text pos r.text.length
    let at_ ← r.position pos
    match ← atom at_ rest with
    | some (e, width) => calls r steps e (pos + width)
    | none =>
      let found ← r.excerpt pos
      return (.error (.ofFault (.unexpectedText found) at_), pos)

/-- Reads the argument lists behind an expression. -/
def calls (r : Reader) : (steps : Nat) → Expr → (pos : Nat) → Checked (Outcome Expr)
  | 0, _, _ => .error .unfinished
  | steps + 1, e, pos => do
    if ← r.looksAt pos 40 then
      match ← arguments r steps [] (pos + 1) with
      | (.error d, next) => return (.error d, next)
      | (.ok args, next) => calls r steps (e.call args) next
    else return (.ok e, pos)

/-- Reads arguments, after those that are read, up to the closing parenthesis and over it. -/
def arguments (r : Reader) : (steps : Nat) → List Expr → (pos : Nat) →
    Checked (Outcome (List Expr))
  | 0, _, _ => .error .unfinished
  | steps + 1, args, pos => do
    if ← r.looksAt pos 41 then return (.ok args, pos + 1)
    else
      match ← expression r steps pos with
      | (.error d, next) => return (.error d, next)
      | (.ok arg, next) =>
        if ← r.looksAt next 44 then arguments r steps (args ++ [arg]) (next + 1)
        else if ← r.looksAt next 41 then arguments r steps (args ++ [arg]) next
        else
          let at_ ← r.position next
          return (.error (.ofFault .missingSeparator at_), next)

end

/-- Reads all of a text as one expression. -/
def parse (r : Reader) (steps : Nat) : Checked (Except Diagnostic Expr) := do
  match ← expression r steps 0 with
  | (.error d, _) => return .error d
  | (.ok e, next) =>
    if next < r.text.length then
      let at_ ← r.position next
      let found ← r.excerpt next
      return .error (.ofFault (.textAfterProgram found) at_)
    else return .ok e

/-- Whether a text is no expression only because it ends too early. -/
def isIncomplete (r : Reader) (steps : Nat) : Checked Bool := do
  match ← expression r steps 0 with
  | (.error _, next) => return decide (r.text.length ≤ next)
  | (.ok _, _) => return false

/-! ## Indices that are inside -/

theorem ok_bind {α β : Type} (a : α) (f : α → Checked β) : (Except.ok a >>= f) = f a := rfl

theorem index_eq {α : Type} {items : List α} {i : Nat} {item : α} (found : items[i]? = some item) :
    index items i = .ok item := by
  rw [index, found]

theorem slice_eq {α : Type} {items : List α} {start stop : Nat} (ordered : start ≤ stop)
    (inside : stop ≤ items.length) :
    slice items start stop = .ok ((items.take stop).drop start) := if_pos ⟨ordered, inside⟩

theorem slice_front {α : Type} {items : List α} {stop : Nat} (inside : stop ≤ items.length) :
    slice items 0 stop = .ok (items.take stop) := slice_eq (Nat.zero_le _) inside

theorem slice_rest {α : Type} {items : List α} {start : Nat} (inside : start ≤ items.length) :
    slice items start items.length = .ok (items.drop start) := by
  rw [slice_eq inside (Nat.le_refl _), List.take_length]

variable {source : Bytes} {pos : Nat}

/-- There is an offset for each byte of the text, and for its end. -/
theorem getElem?_offsets (inside : pos ≤ (strip source).length) :
    (Stripped.ofSource source).offsets[pos]?
      = some ((Stripped.ofSource source).sourceOffset pos) := by
  have listed : pos < (Stripped.ofSource source).offsets.length := by
    rw [Stripped.offsets, List.length_append, List.length_map, ← Stripped.length_text]
    exact Nat.lt_succ_of_le inside
  have named : (Stripped.ofSource source).offsets.getD pos _
      = (Stripped.ofSource source).sourceOffset pos :=
    congrArg Place.offset (Stripped.place_eq (Stripped.ofSource source) pos)
  rw [List.getD_eq_getElem?_getD, List.getElem?_eq_getElem listed] at named
  rw [List.getElem?_eq_getElem listed]
  exact congrArg some named

/-- A position that is not beyond the text has its place, and nothing is looked up outside. -/
theorem position_eq (inside : pos ≤ (strip source).length) :
    (Reader.new source).position pos = .ok ((Stripped.ofSource source).place pos) := by
  have bound := Stripped.sourceOffset_le source pos
  obtain ⟨start, found, before, line⟩ := Place.lineStart_spec bound
  have reached : ¬ (Reader.new source).text.length < pos := Nat.not_lt.2 inside
  rw [Reader.position, if_neg reached, Reader.new, index_eq (getElem?_offsets inside)]
  simp only [ok_bind, Place.findIdx_lineStarts]
  rw [if_neg (Nat.succ_ne_zero _), Nat.add_sub_cancel, index_eq found, ok_bind,
    slice_eq before bound, ok_bind, line, Stripped.place_eq]
  rfl

theorem excerpt_eq (inside : pos ≤ (strip source).length) :
    (Reader.new source).excerpt pos = .ok (Reading.excerpt ((strip source).drop pos)) := by
  have rest : slice (Reader.new source).text pos (Reader.new source).text.length
      = .ok ((strip source).drop pos) := slice_rest inside
  rw [Reader.excerpt, rest]
  rfl

theorem looksAt_eq (r : Reader) (pos : Nat) (b : UInt8) :
    r.looksAt pos b = .ok (r.text[pos]? == some b) := by
  rw [Reader.looksAt]
  split
  · next inside =>
    rw [index_eq (List.getElem?_eq_getElem inside), List.getElem?_eq_getElem inside]
    rfl
  · next outside =>
    rw [List.getElem?_eq_none (Nat.le_of_not_lt outside)]
    rfl

/-! ## Runs -/

/-- What the length of a run has to be for each text. -/
structure Measures (width? : Bytes → Option Nat) (total : Bytes → Nat) : Prop where
  done : total [] = 0
  stop : ∀ b rest, width? (b :: rest) = none → total (b :: rest) = 0
  step : ∀ b rest width, width? (b :: rest) = some width → 0 < width ∧ width ≤ rest.length + 1 ∧
    total (b :: rest) = width + total ((b :: rest).drop width)

theorem Measures.runFrom_eq {width? : Bytes → Option Nat} {total : Bytes → Nat}
    (h : Measures width? total) (text : Bytes) (steps pos : Nat) (inside : pos ≤ text.length)
    (enough : text.length - pos < steps) :
    runFrom width? text steps pos = .ok (pos + total (text.drop pos)) := by
  induction steps generalizing pos with
  | zero => omega
  | succ steps ih =>
    rw [runFrom]
    by_cases more : pos < text.length
    · obtain ⟨b, rest, split⟩ : ∃ b rest, text.drop pos = b :: rest :=
        ⟨_, _, List.drop_eq_getElem_cons more⟩
      have length : text.length - pos = rest.length + 1 := by
        rw [← List.length_drop, split, List.length_cons]
      rw [if_pos more, slice_rest inside, ok_bind, split]
      cases goes : width? (b :: rest) with
      | none =>
        rw [h.stop b rest goes]
        rfl
      | some width =>
        obtain ⟨moves, short, total_eq⟩ := h.step b rest width goes
        have onward := ih (pos + width) (by omega) (by omega)
        rw [← List.drop_drop, split] at onward
        rw [total_eq, ← Nat.add_assoc]
        exact onward
    · rw [if_neg more, List.drop_eq_nil_of_le (Nat.le_of_not_lt more), h.done]
      rfl

theorem Measures.runLength_eq {width? : Bytes → Option Nat} {total : Bytes → Nat}
    (h : Measures width? total) (text : Bytes) : runLength width? text = .ok (total text) := by
  have whole := h.runFrom_eq text (text.length + 1) 0 (Nat.zero_le _) (Nat.lt_succ_self _)
  rwa [Nat.zero_add, List.drop_zero] at whole

theorem measures_digits :
    Measures digitWidth? fun text => (text.takeWhile Bytes.isDigit).length where
  done := rfl
  stop b rest none := by
    rw [digitWidth?] at none
    split at none
    · cases none
    · next other => rw [List.takeWhile_cons_of_neg other]; rfl
  step b rest width some := by
    rw [digitWidth?] at some
    split at some
    · next digit =>
      obtain rfl := Option.some.inj some
      refine ⟨Nat.one_pos, by omega, ?_⟩
      rw [List.takeWhile_cons_of_pos digit, List.length_cons, Nat.add_comm]
      rfl
    · cases some

theorem measures_word : Measures wordWidth? fun text => (Token.wordRun text).length where
  done := rfl
  stop b rest none := by
    rw [wordWidth?] at none
    split at none
    · next c lead =>
      split at none
      · cases none
      · next other =>
        obtain ⟨after, whole⟩ := Text.eq_encode_of_lead? lead
        rw [whole, Token.wordRun, Text.glyphs_encode_append, List.takeWhile_cons_of_neg other]
        rfl
    · cases none
  step b rest width some := by
    rw [wordWidth?] at some
    split at some
    · next c lead =>
      split at some
      · next inside =>
        obtain rfl := Option.some.inj some
        obtain ⟨after, whole⟩ := Text.eq_encode_of_lead? lead
        have size : (String.utf8EncodeChar c).length = c.utf8Size := String.length_utf8EncodeChar c
        have length := congrArg List.length whole
        rw [List.length_append, size, List.length_cons] at length
        refine ⟨Char.utf8Size_pos c, by omega, ?_⟩
        rw [whole, ← size, List.drop_left, Token.wordRun, Token.wordRun,
          Text.glyphs_encode_append, List.takeWhile_cons_of_pos inside, Text.ofGlyphs,
          List.flatMap_cons, List.length_append]
        rfl
      · cases some
    · next alone =>
      obtain rfl := Option.some.inj some
      refine ⟨Nat.one_pos, by omega, ?_⟩
      have inside : Token.isWordGlyph (.stray b) = true := rfl
      rw [Token.wordRun, Text.glyphs_stray alone, List.takeWhile_cons_of_pos inside, Text.ofGlyphs,
        List.flatMap_cons, List.length_append]
      rfl

/-! ## Atoms -/

/-- An atom token with the length that it takes of a text. -/
def tokenAtom (at_ : Place) (text : Bytes) (read : Token × Bytes) : Option (Expr × Nat) :=
  (Reading.atom? at_ read.1).map fun e => (e, text.length - read.2.length)

theorem isNumber_eq (rest : Bytes) :
    isNumber rest (rest.takeWhile Bytes.isDigit).length
      = .ok (decide (rest.takeWhile Bytes.isDigit ≠ []
          ∧ Token.endsNumber (rest.dropWhile Bytes.isDigit) = true)) := by
  have split := List.takeWhile_append_dropWhile (p := Bytes.isDigit) (l := rest)
  generalize rest.takeWhile Bytes.isDigit = digits at *
  generalize rest.dropWhile Bytes.isDigit = behind at *
  subst split
  rw [isNumber]
  cases digits with
  | nil => rfl
  | cons digit digits =>
    rw [if_neg (by simp)]
    cases behind with
    | nil => simp [Token.endsNumber, pure, Except.pure]
    | cons b behind =>
      rw [if_neg (by simp), index_eq (show _ = some b by simp)]
      simp [ok_bind, Token.endsNumber, pure, Except.pure]

/-- The word at the front of a text is the front of it. -/
theorem wordRun_front (text : Bytes) : Token.wordRun text <+: text := by
  have glyphs := List.takeWhile_append_dropWhile (p := Token.isWordGlyph) (l := Text.glyphs text)
  have bytes := Text.ofGlyphs_glyphs text
  rw [← glyphs, Text.ofGlyphs_append] at bytes
  exact ⟨_, bytes⟩

theorem numberOrWord_eq (at_ : Place) (rest : Bytes) :
    numberOrWord at_ rest = .ok (tokenAtom at_ rest (Token.numberOrWord rest)) := by
  have split := List.takeWhile_append_dropWhile (p := Bytes.isDigit) (l := rest)
  have inside : (rest.takeWhile Bytes.isDigit).length ≤ rest.length :=
    (List.takeWhile_prefix _).length_le
  rw [numberOrWord, measures_digits.runLength_eq, ok_bind, isNumber_eq, ok_bind]
  by_cases number : rest.takeWhile Bytes.isDigit ≠ []
      ∧ Token.endsNumber (rest.dropWhile Bytes.isDigit) = true
  · have width : (rest.takeWhile Bytes.isDigit).length
        = rest.length - (rest.dropWhile Bytes.isDigit).length := by
      have lengths := congrArg List.length split
      rw [List.length_append] at lengths
      omega
    have digits : rest.take (rest.takeWhile Bytes.isDigit).length
        = rest.takeWhile Bytes.isDigit := (List.prefix_iff_eq_take.1 (List.takeWhile_prefix _)).symm
    rw [if_pos (decide_eq_true number), slice_front inside, ok_bind, digits, Token.numberOrWord,
      if_pos number, tokenAtom]
    simp only [Reading.atom?, Option.map_some, ← width]
    rfl
  · rw [if_neg (by simpa using number), measures_word.runLength_eq, ok_bind, Token.numberOrWord,
      if_neg number]
    have front := wordRun_front rest
    by_cases none : Token.wordRun rest = []
    · rw [if_pos (by rw [none]; rfl), if_pos none]
      rfl
    · have filled : (Token.wordRun rest).length ≠ 0 := by simpa using none
      have name : rest.take (Token.wordRun rest).length = Token.wordRun rest :=
        (List.prefix_iff_eq_take.1 front).symm
      have width : rest.length - (rest.drop (Token.wordRun rest).length).length
          = (Token.wordRun rest).length := by
        have := front.length_le
        rw [List.length_drop]
        omega
      rw [if_neg filled, slice_front front.length_le, ok_bind, name, if_neg none, tokenAtom]
      simp only [Reading.atom?, Option.map_some, width]
      rfl

/-- No number or word starts with a byte that has a meaning of its own. -/
theorem numberOrWord_of_mark {b : UInt8} (mark : b ∈ [40, 41, 44, 34]) (rest : Bytes) :
    Token.numberOrWord (b :: rest) = (.junk, []) := by
  obtain ⟨ascii, noDigit, noWord⟩ : b.toNat < 0x80 ∧ Bytes.isDigit b = false
      ∧ Token.isWordGlyph (.char (Char.ofNat b.toNat)) = false := by
    simp only [List.mem_cons, List.not_mem_nil, or_false] at mark
    rcases mark with rfl | rfl | rfl | rfl <;> decide
  have digits : (b :: rest).takeWhile Bytes.isDigit = [] :=
    List.takeWhile_cons_of_neg (by simp [noDigit])
  have word : Token.wordRun (b :: rest) = [] := by
    rw [Token.wordRun, Text.glyphs_ascii ascii, List.takeWhile_cons_of_neg (by simp [noWord])]
    rfl
  rw [Token.numberOrWord, if_neg (fun number => number.1 digits), if_pos word]

/-- A text is cut at its first quote. -/
theorem cut_quote_eq (text : Bytes) :
    Bytes.cut [34] text = (text.idxOf? 34).map fun n => (text.take n, text.drop (n + 1)) := by
  induction text with
  | nil => rfl
  | cons b rest ih =>
    rw [Bytes.cut, Bytes.dropLead?, List.idxOf?_cons]
    by_cases quote : b = 34
    · subst quote
      rfl
    · rw [if_neg (Ne.symm quote), if_neg (by simpa using quote)]
      dsimp only
      rw [ih, Option.map_map, Option.map_map]
      rfl

theorem quoted_quote (at_ : Place) (rest : Bytes) :
    quoted at_ (34 :: rest) = .ok ((Bytes.cut [34] rest).map fun (content, after) =>
      (.string at_ content, rest.length + 1 - after.length)) := by
  rw [quoted, if_pos (List.head?_cons ..), slice_rest (by simp), ok_bind, List.drop_one,
    List.tail_cons, cut_quote_eq]
  cases ends : rest.idxOf? 34 with
  | none => rfl
  | some n =>
    obtain ⟨inside, -⟩ := List.idxOf?_eq_some_iff.1 ends
    have width : rest.length + 1 - (rest.drop (n + 1)).length = n + 2 := by
      rw [List.length_drop]
      omega
    rw [Option.map_some, Option.map_some]
    dsimp only
    rw [width, slice_eq (Nat.le_add_left _ _) (by simpa using Nat.le_of_lt inside), ok_bind]
    rfl

theorem quoted_other {b : UInt8} (other : b ≠ 34) (at_ : Place) (rest : Bytes) :
    quoted at_ (b :: rest) = .ok none := by
  rw [quoted, if_neg (by simpa using other)]
  rfl

/-- The atom at the front of a text is that of its token. -/
theorem atom_eq (at_ : Place) (b : UInt8) (rest : Bytes) :
    atom at_ (b :: rest) = .ok (tokenAtom at_ (b :: rest) (Token.next b rest)) := by
  rw [atom]
  by_cases quote : b = 34
  · subst quote
    rw [quoted_quote, ok_bind, Token.next, if_neg (by decide), if_neg (by decide),
      if_neg (by decide), if_pos rfl]
    cases Bytes.cut [34] rest with
    | none => exact (numberOrWord_eq _ _).trans (by rw [numberOrWord_of_mark (by decide)])
    | some parts => rfl
  · rw [quoted_other quote, ok_bind]
    dsimp only
    rw [numberOrWord_eq]
    by_cases mark : b ∈ [(40 : UInt8), 41, 44]
    · have all : b ∈ [(40 : UInt8), 41, 44, 34] := List.mem_append_left [34] mark
      rw [numberOrWord_of_mark all]
      simp only [List.mem_cons, List.not_mem_nil, or_false] at mark
      rcases mark with rfl | rfl | rfl <;> rfl
    · simp only [List.mem_cons, List.not_mem_nil, or_false, not_or] at mark
      rw [Token.next, if_neg mark.1, if_neg mark.2.1, if_neg mark.2.2, if_neg quote]

theorem atom_nil (at_ : Place) : atom at_ [] = .ok none := rfl

end EggLang.Descent
