import EggLang.Proofs.Expr.RoundTrip
import EggLang.Proofs.Source.Joining

/-!
# Programs on one line

A program is known up to places from its stripped text, and a stripped text that goes on holds
another program. So a program whose lines are joined by blanks is the same one just where joining
loses nothing behind a comment.
-/

namespace EggLang

namespace Expr

mutual

/-- The canonical source has no places in it. -/
theorem print_forgetPlaces (e : Expr) : e.forgetPlaces.print = e.print := by
  cases e with
  | number => rfl
  | string => rfl
  | word => rfl
  | apply _ operator args => rw [forgetPlaces, print, print, printArgs_forgetAllPlaces]
  | closure operator args =>
    rw [forgetPlaces, print, print, print_forgetPlaces, printArgs_forgetAllPlaces]

theorem printArgs_forgetAllPlaces (args : List Expr) :
    printArgs (forgetAllPlaces args) = printArgs args := by
  cases args with
  | nil => rfl
  | cons arg rest =>
    cases rest with
    | nil => exact print_forgetPlaces arg
    | cons next later =>
      have filled : forgetAllPlaces (next :: later) ≠ [] := List.cons_ne_nil _ _
      rw [forgetAllPlaces, printArgs_cons filled, printArgs_cons (List.cons_ne_nil _ _),
        print_forgetPlaces, printArgs_forgetAllPlaces]

end

end Expr

theorem Grammar.Phrase.forgetPlaces_tree (place place' : Nat → Place) (p : Phrase) :
    (p.tree place' 0).forgetPlaces = (p.tree place 0).forgetPlaces :=
  (p.forgetPlaces_tidy place' place 0 0).symm.trans (p.forgetPlaces_tidy place place 0 0)

/-- Sources with the same stripped text hold the same program, up to places. -/
theorem parse_of_strip_eq {source source' : Bytes} {e : Expr} (parses : parse source = .ok e)
    (same : strip source' = strip source) :
    ∃ e', parse source' = .ok e' ∧ e'.forgetPlaces = e.forgetPlaces := by
  obtain ⟨p, derives, rfl⟩ := (Stripped.parse_eq_ok_iff _ _).mp ((parse_eq_ok_iff _ _).mp parses)
  have again : p.Derives (strip source') [] := by
    rw [same]
    exact derives
  exact ⟨p.tree (Stripped.ofSource source').place 0,
    (parse_eq_ok_iff _ _).mpr ((Stripped.parse_eq_ok_iff _ _).mpr ⟨p, again, rfl⟩),
    p.forgetPlaces_tree _ _⟩

theorem dropClosingCommas_eq_nil {text : Bytes} (empty : dropClosingCommas false text = []) :
    text = [] := by
  cases text with
  | nil => rfl
  | cons b rest =>
    rw [dropClosingCommas, if_neg (by simp)] at empty
    split at empty
    · next closing =>
      -- the parenthesis behind the comma stays
      obtain ⟨later, rfl⟩ : ∃ later, rest = 41 :: later := by
        cases rest with
        | nil => cases closing.2
        | cons a later => exact ⟨later, by rw [Option.some.inj closing.2]⟩
      rw [dropClosingCommas, if_neg (by simp), if_neg (by simp)] at empty
      cases empty
    · cases empty

/-- A stripped text that goes on does not hold the same program. -/
theorem strip_eq_of_front {source source' : Bytes} {e e' : Expr} (parses : parse source = .ok e)
    (parses' : parse source' = .ok e') (same : e'.forgetPlaces = e.forgetPlaces)
    (goesOn : strip source' <+: strip source) : strip source' = strip source := by
  obtain ⟨more, goesOn⟩ := goesOn
  obtain ⟨p, derives, rfl⟩ := (Stripped.parse_eq_ok_iff _ _).mp ((parse_eq_ok_iff _ _).mp parses)
  obtain ⟨p', derives', rfl⟩ := (Stripped.parse_eq_ok_iff _ _).mp ((parse_eq_ok_iff _ _).mp parses')
  have written : p.written = p'.written ++ more := by
    have whole := derives.text_eq
    have front := derives'.text_eq
    rw [List.append_nil] at whole front
    rw [← whole, ← front]
    exact goesOn.symm
  have tidy : p'.tidy.written = p.tidy.written := by
    rw [← p.print_tree (Stripped.ofSource source).place 0,
      ← p'.print_tree (Stripped.ofSource source').place 0, ← Expr.print_forgetPlaces, same,
      Expr.print_forgetPlaces]
  -- both are their tidy text but for closing commas, so there is nothing in what is added
  have dropped := derives.dropClosingCommas []
  rw [List.append_nil, written, derives'.dropClosingCommas more, tidy] at dropped
  have none := dropClosingCommas_eq_nil (List.append_cancel_left dropped)
  rw [← goesOn, none, List.append_nil]

/-- Where joining its lines loses nothing, a program is the same one on one line. -/
theorem parse_joinLines {text : Bytes} {e : Expr} (parses : parse text = .ok e)
    (joinable : Stripped.Joinable text) :
    ∃ e', parse (Text.joinLines text) = .ok e' ∧ e'.forgetPlaces = e.forgetPlaces :=
  parse_of_strip_eq parses
    (congrArg (List.map Kept.byte) (Stripped.kept_joinLines joinable))

/-- A program with only line feeds that is the same one on one line loses nothing. -/
theorem joinable_of_parse {text : Bytes} {e e' : Expr} (parses : parse text = .ok e)
    (joined : parse (Text.joinLines text) = .ok e') (same : e'.forgetPlaces = e.forgetPlaces)
    (only : Stripped.FeedsOnly text) : Stripped.Joinable text := by
  have front : strip (Text.joinLines text) <+: strip text :=
    (Stripped.kept_joinLines_front only).map Kept.byte
  have whole := congrArg List.length (strip_eq_of_front parses joined same front)
  rw [strip, strip, Stripped.length_text, Stripped.length_text] at whole
  exact Stripped.joinable_of_length only (Nat.le_of_eq whole.symm)

end EggLang
