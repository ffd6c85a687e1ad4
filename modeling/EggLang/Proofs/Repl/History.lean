import EggLang.Proofs.Compiler.Placement
import EggLang.Proofs.Expr.Joining
import EggLang.Proofs.Repl.Grouping

/-!
# What a remembered line means

A text of several lines is remembered as one line, its line feeds made blanks. Entered again, that
line does what the text did, as long as no line feed that ends a comment has code behind it: the
comment goes on over the code then, and what is left of the text is another program or none.
-/

namespace EggLang

namespace Text

variable {gs : List Glyph} {text : Bytes}

/-- Glyphs that begin and end with no white space. -/
structure Trimmed (gs : List Glyph) : Prop where
  front : ∀ g ∈ gs.head?, g.isIn isWhite = false
  back : ∀ g ∈ gs.getLast?, g.isIn isWhite = false

theorem dropWhile_eq_self {p : Glyph → Bool} (stays : ∀ g ∈ gs.head?, p g = false) :
    gs.dropWhile p = gs := by
  cases gs with
  | nil => rfl
  | cons g gs => rw [List.dropWhile_cons_of_neg (by simp [stays g rfl])]

/-- What trimming leaves of some glyphs. -/
def trimGlyphs (gs : List Glyph) : List Glyph :=
  ((gs.dropWhile (·.isIn isWhite)).reverse.dropWhile (·.isIn isWhite)).reverse

theorem trim_eq (text : Bytes) : trim text = ofGlyphs (trimGlyphs (glyphs text)) := rfl

theorem trimGlyphs_front (gs : List Glyph) : trimGlyphs gs <+: gs.dropWhile (·.isIn isWhite) := by
  rw [← List.reverse_suffix, trimGlyphs, List.reverse_reverse]
  exact List.dropWhile_suffix _

theorem trimmed_trimGlyphs (gs : List Glyph) : Trimmed (trimGlyphs gs) where
  front := by
    intro g first
    obtain ⟨behind, split⟩ := trimGlyphs_front gs
    have head : (gs.dropWhile (·.isIn isWhite)).head? = some g := by
      rw [← split, List.head?_append, Option.mem_def.1 first]
      rfl
    have stays := List.head?_dropWhile_not (·.isIn isWhite) gs
    rw [head] at stays
    simpa using stays
  back := by
    intro g last
    rw [trimGlyphs, List.getLast?_reverse] at last
    have stays := List.head?_dropWhile_not (·.isIn isWhite)
      (gs.dropWhile (·.isIn isWhite)).reverse
    rw [Option.mem_def.1 last] at stays
    simpa using stays

theorem Trimmed.trimGlyphs_eq (h : Trimmed gs) : trimGlyphs gs = gs := by
  rw [trimGlyphs, dropWhile_eq_self h.front, dropWhile_eq_self, List.reverse_reverse]
  rw [List.head?_reverse]
  exact h.back

/-- A trimmed text has the glyphs that trimming left. -/
theorem glyphs_trim (text : Bytes) : glyphs (trim text) = trimGlyphs (glyphs text) := by
  have front := List.takeWhile_append_dropWhile (p := (·.isIn isWhite)) (l := glyphs text)
  have middle := glyphs_of_append front.symm
  obtain ⟨behind, split⟩ := trimGlyphs_front (glyphs text)
  rw [← split] at middle
  exact glyphs_of_append_left middle

theorem joinGlyph_of_not_white {g : Glyph} (stays : g.isIn isWhite = false) : joinGlyph g = g := by
  refine joinGlyph_of_ne ?_
  rintro rfl
  cases stays

theorem Trimmed.joined (h : Trimmed gs) : Trimmed (gs.map joinGlyph) where
  front := by
    intro g first
    rw [List.head?_map, Option.mem_def, Option.map_eq_some_iff] at first
    obtain ⟨g', first, rfl⟩ := first
    have stays := h.front g' first
    rwa [joinGlyph_of_not_white stays]
  back := by
    intro g last
    rw [List.getLast?_map, Option.mem_def, Option.map_eq_some_iff] at last
    obtain ⟨g', last, rfl⟩ := last
    have stays := h.back g' last
    rwa [joinGlyph_of_not_white stays]

/-- Joining the lines of a trimmed text leaves it trimmed. -/
theorem trim_joinLines_trim (text : Bytes) :
    trim (joinLines (trim text)) = joinLines (trim text) := by
  have trimmed := (trimmed_trimGlyphs (glyphs text)).joined
  rw [trim_eq, glyphs_joinLines, glyphs_trim, trimmed.trimGlyphs_eq, ← glyphs_trim,
    ← glyphs_joinLines, ofGlyphs_glyphs]

end Text

namespace Repl

variable {input : List Reply} {text : Bytes} {e : Expr}

theorem historyLine_eq (text : Bytes) : historyLine text = Text.joinLines text := rfl

theorem not_mem_historyLine (text : Bytes) : 10 ∉ historyLine text := by
  intro among
  obtain ⟨b, -, same⟩ := List.mem_map.1 among
  split at same
  · cases same
  · next other => exact other same

theorem startsWith_colon_iff (text : Bytes) :
    Bytes.startsWith text (utf8 ":") = true ↔ text.head? = some 58 := by
  have colon : utf8 ":" = [58] := rfl
  cases text with
  | nil => simp [Bytes.startsWith, Bytes.dropLead?, colon]
  | cons b rest =>
    rw [Bytes.startsWith, colon, Bytes.dropLead?]
    by_cases same : (58 : UInt8) = b
    · simp [same, Bytes.dropLead?]
    · simp [same, Ne.symm same]

/-- A line is no command where the text is none. -/
theorem startsWith_historyLine (text : Bytes) :
    Bytes.startsWith (historyLine text) (utf8 ":") = Bytes.startsWith text (utf8 ":") := by
  rw [Bool.eq_iff_iff, startsWith_colon_iff, startsWith_colon_iff]
  cases text with
  | nil => rfl
  | cons b rest =>
    have first : (historyLine (b :: rest)).head? = some (if b = 10 then 32 else b) := rfl
    rw [first, List.head?_cons, Option.some_inj, Option.some_inj]
    split
    · next feed => rw [feed]; decide
    · rfl

theorem mem_obeyed {texts : List Bytes} (here : text ∈ obeyed texts) :
    ∃ raw ∈ texts, text = Text.trim raw ∧ text ≠ [] := by
  induction texts with
  | nil => cases here
  | cons raw rest ih =>
    rw [obeyed] at here
    split at here
    · obtain ⟨raw', among, same⟩ := ih here
      exact ⟨raw', List.mem_cons_of_mem _ among, same⟩
    · next filled =>
      have nonempty : Text.trim raw ≠ [] := by simpa using filled
      split at here
      · obtain rfl := List.mem_singleton.1 here
        exact ⟨raw, List.mem_cons_self .., rfl, nonempty⟩
      · rcases List.mem_cons.1 here with rfl | later
        · exact ⟨raw, List.mem_cons_self .., rfl, nonempty⟩
        · obtain ⟨raw', among, same⟩ := ih later
          exact ⟨raw', List.mem_cons_of_mem _ among, same⟩

theorem isIncomplete_of_parse (parses : parse text = .ok e) : isIncomplete text = false := by
  rw [isIncomplete, (parse_eq_ok_iff _ _).mp parses]

/-- What a line does that stands for a text, once it is entered. -/
structure Restores (text line : Bytes) (e : Expr) : Prop where
  /-- It is read by itself, and nothing of it is trimmed. -/
  read : ∀ rest, readExpression [] (.line line :: rest) = ⟨some line, [promptFirst], rest⟩
  whole : Text.trim line = line
  /-- It is a command just where the text is one. -/
  command : Bytes.startsWith line (utf8 ":") = Bytes.startsWith text (utf8 ":")
  /-- It is the same program up to places. -/
  parses : ∃ e', parse line = .ok e' ∧ e'.forgetPlaces = e.forgetPlaces
  /-- Every compiler makes the same code of it, or the same failure but for its place. -/
  compiles : ∀ t : Compiler,
    (t.compile line).1.mapError Diagnostic.forgetPlace
        = (t.compile text).1.mapError Diagnostic.forgetPlace
      ∧ (t.compile line).2 = (t.compile text).2

theorem restores (typed : text ∈ obeyed (expressions input)) (parses : parse text = .ok e)
    (joinable : Stripped.Joinable text) : Restores text (historyLine text) e := by
  obtain ⟨raw, -, trimmed, -⟩ := mem_obeyed typed
  obtain ⟨e', again, same⟩ := parse_joinLines parses joinable
  have whole : Text.trim (historyLine text) = historyLine text := by
    rw [historyLine_eq, trimmed]
    exact Text.trim_joinLines_trim raw
  refine ⟨fun rest => ?_, whole, startsWith_historyLine text, ⟨e', again, same⟩,
    fun t => t.compile_congr parses again same⟩
  have complete : isComplete (historyLine text) = true := by
    have closed : isIncomplete (historyLine text) = false := isIncomplete_of_parse again
    simp [isComplete, whole, closed]
  have added : addLine [] (historyLine text) = historyLine text := rfl
  rw [readExpression]
  simp only [added, if_pos complete]
  rfl

/-- The loop remembers each text that it carries out as one line. Where the text is a program and no
line feed that ends a comment has anything behind it, the line does what the text does; and if line
feeds are the only line breaks of the text, the line is another program or none where there is such
a line feed. -/
theorem history_restores (input : List Reply) :
    (∀ screen s cache, (run screen s cache input).history
      = (obeyed (expressions input)).map historyLine) ∧
    ∀ text ∈ obeyed (expressions input), ∀ e, parse text = .ok e →
      10 ∉ historyLine text ∧
      (Stripped.Joinable text → Restores text (historyLine text) e) ∧
      (Stripped.FeedsOnly text →
        ((∃ e', parse (historyLine text) = .ok e' ∧ e'.forgetPlaces = e.forgetPlaces)
          ↔ Stripped.Joinable text)) := by
  refine ⟨fun screen s cache => history_loop screen s cache (Nat.lt_succ_self _),
    fun text typed e parses => ⟨not_mem_historyLine text, restores typed parses, fun only => ?_⟩⟩
  constructor
  · rintro ⟨e', again, same⟩
    exact joinable_of_parse parses again same only
  · exact fun joinable => (restores typed parses joinable).parses

set_option maxRecDepth 2000 in
/-- A call over two lines, with a comment behind it. -/
theorem history_restores_two_lines :
    let input := [Reply.line (utf8 "array(1,"), .line (utf8 "  2) # two")]
    let text := utf8 "array(1,\n  2) # two"
    let e := Expr.apply ⟨0, 1, 1⟩ (utf8 "array")
      [.number ⟨6, 1, 7⟩ (utf8 "1"), .number ⟨11, 2, 3⟩ (utf8 "2")]
    text ∈ obeyed (expressions input) ∧ parse text = .ok e ∧ Stripped.Joinable text
      ∧ Stripped.FeedsOnly text ∧ historyLine text = utf8 "array(1,   2) # two"
      ∧ Restores text (historyLine text) e
      ∧ ∃ e', parse (historyLine text) = .ok e' ∧ e'.forgetPlaces = e.forgetPlaces := by
  intro input text e
  have typed : text ∈ obeyed (expressions input) := by decide +kernel
  have parses : parse text = .ok e := by
    dsimp only [text, e]
    with_unfolding_all rfl
  have joinable : Stripped.Joinable text := by decide +kernel
  have only : Stripped.FeedsOnly text := by decide +kernel
  obtain ⟨-, means, same⟩ := (history_restores input).2 text typed e parses
  exact ⟨typed, parses, joinable, only, by decide, means joinable, (same only).2 joinable⟩

set_option maxRecDepth 2000 in
/-- A comment between two arguments, each on a line of its own: on one line the second argument and
the closing parenthesis are part of the comment. -/
theorem joined_comment_hides_argument :
    let input := [Reply.line (utf8 "array(1, # one"), .line (utf8 "2)")]
    let text := utf8 "array(1, # one\n2)"
    let e := Expr.apply ⟨0, 1, 1⟩ (utf8 "array")
      [.number ⟨6, 1, 7⟩ (utf8 "1"), .number ⟨15, 2, 1⟩ (utf8 "2")]
    (∀ screen s cache, (run screen s cache input).history = [utf8 "array(1, # one 2)"])
      ∧ obeyed (expressions input) = [text] ∧ parse text = .ok e
      ∧ historyLine text = utf8 "array(1, # one 2)"
      ∧ isIncomplete (historyLine text) = true
      ∧ ¬ ∃ e', parse (historyLine text) = .ok e' := by
  intro input text e
  have typed : obeyed (expressions input) = [text] := by decide +kernel
  have line : historyLine text = utf8 "array(1, # one 2)" := by decide
  have parses : parse text = .ok e := by
    dsimp only [text, e]
    with_unfolding_all rfl
  have goesOn : isIncomplete (historyLine text) = true := by decide +kernel
  refine ⟨fun screen s cache => ?_, typed, parses, line, goesOn, ?_⟩
  · have history := history_loop screen s cache (Nat.lt_succ_self input.length)
    rw [typed, List.map_singleton, line] at history
    exact history
  · rintro ⟨e', again⟩
    rw [isIncomplete_of_parse again] at goesOn
    cases goesOn

end Repl

end EggLang
