import EggLang.Expr.Printer
import EggLang.Proofs.Expr.Reading
import EggLang.Proofs.Source.Strip

/-!
# Canonical source is read back

The canonical source of a program is its stripped text without the commas that stand directly
before a closing parenthesis, and reading it gives the same program up to places. On the level of
derivations the canonical source is the text of the `tidy` phrase, in which no argument list
ends in a comma; each atom of it is still an atom because what follows an atom is, before and
after, nothing or a parenthesis or a comma.
-/

namespace EggLang

namespace Expr

mutual

/-- The expression with every place replaced by one and the same. -/
def forgetPlaces : Expr → Expr
  | number _ digits => number ⟨0, 0, 0⟩ digits
  | string _ content => string ⟨0, 0, 0⟩ content
  | word _ name => word ⟨0, 0, 0⟩ name
  | apply _ operator args => apply ⟨0, 0, 0⟩ operator (forgetAllPlaces args)
  | closure operator args => closure operator.forgetPlaces (forgetAllPlaces args)

def forgetAllPlaces : List Expr → List Expr
  | [] => []
  | arg :: rest => arg.forgetPlaces :: forgetAllPlaces rest

end

theorem printArgs_cons {rest : List Expr} (h : rest ≠ []) (arg : Expr) :
    printArgs (arg :: rest) = arg.print ++ 44 :: printArgs rest := by
  cases rest with
  | nil => exact absurd rfl h
  | cons other rest =>
    rw [printArgs, List.append_assoc]
    · rfl
    · simp

end Expr

/-- A text without the commas that stand directly before a closing parenthesis, those inside
string literals apart; `inString` says whether the text starts inside one. -/
def dropClosingCommas (inString : Bool) : Bytes → Bytes
  | [] => []
  | b :: rest =>
    if inString then b :: dropClosingCommas (b != 34) rest
    else if b = 44 ∧ rest.head? = some 41 then dropClosingCommas false rest
    else b :: dropClosingCommas (b == 34) rest

namespace Grammar

/-! ## Tidy phrases -/

mutual

/-- The phrase without commas before closing parentheses. -/
def Phrase.tidy : Phrase → Phrase
  | .mk atom calls => .mk atom calls.tidy

def Calls.tidy : Calls → Calls
  | .nil => .nil
  | .call args calls => .call args.tidy calls.tidy

def Args.tidy : Args → Args
  | .nil => .nil
  | .last arg => .last arg.tidy
  | .more arg .nil => .last arg.tidy
  | .more arg args => .more arg.tidy args.tidy

end

mutual

/-- The canonical source of the tree of a phrase is the text of the tidy phrase. -/
theorem Phrase.print_tree (place : Nat → Place) (p : Phrase) (index : Nat) :
    (p.tree place index).print = p.tidy.written := by
  match p with
  | .mk (.word name) .nil =>
    simp [Phrase.tree, Calls.closures, Atom.tree, Expr.print, Phrase.tidy, Calls.tidy,
      Phrase.written, Atom.written, Calls.written]
  | .mk (.word name) (.call args calls) =>
    rw [Phrase.tree, Calls.print_closures, Expr.print, Args.printArgs_trees]
    simp [Phrase.tidy, Calls.tidy, Phrase.written, Atom.written, Calls.written,
      show utf8 "(" = [40] from rfl, show utf8 ")" = [41] from rfl]
  | .mk (.digits ds) calls =>
    rw [Phrase.tree, Calls.print_closures]
    · rfl
    · simp
  | .mk (.quoted content) calls =>
    rw [Phrase.tree, Calls.print_closures]
    · rfl
    · simp

theorem Calls.print_closures (place : Nat → Place) (cs : Calls) (index : Nat) (e : Expr) :
    (cs.closures place index e).print = e.print ++ cs.tidy.written := by
  match cs with
  | .nil => simp [Calls.closures, Calls.tidy, Calls.written]
  | .call args calls =>
    rw [Calls.closures, Calls.print_closures, Expr.print, Args.printArgs_trees]
    simp [Calls.tidy, Calls.written, show utf8 "(" = [40] from rfl,
      show utf8 ")" = [41] from rfl]

theorem Args.printArgs_trees (place : Nat → Place) (as : Args) (index : Nat) :
    Expr.printArgs (as.trees place index) = as.tidy.written := by
  match as with
  | .nil => rfl
  | .last arg => exact arg.print_tree place index
  | .more arg .nil => exact arg.print_tree place index
  | .more arg (.last other) =>
    have ih := Args.printArgs_trees place (.last other) (index + arg.written.length + 1)
    rw [Args.trees, Expr.printArgs_cons (by simp [Args.trees]), arg.print_tree, ih]
    rfl
  | .more arg (.more other args) =>
    have ih := Args.printArgs_trees place (.more other args) (index + arg.written.length + 1)
    rw [Args.trees, Expr.printArgs_cons (by simp [Args.trees]), arg.print_tree, ih]
    rfl

end

mutual

/-- The tree of the tidy phrase differs in places only. -/
theorem Phrase.forgetPlaces_tidy (place place' : Nat → Place) (p : Phrase) (index index' : Nat) :
    (p.tidy.tree place' index').forgetPlaces = (p.tree place index).forgetPlaces := by
  match p with
  | .mk (.word name) .nil => rfl
  | .mk (.word name) (.call args calls) =>
    rw [Phrase.tidy, Calls.tidy, Phrase.tree, Phrase.tree]
    apply Calls.forgetPlaces_tidy
    rw [Expr.forgetPlaces, Expr.forgetPlaces, Args.forgetPlaces_tidy]
  | .mk (.digits ds) calls => exact Calls.forgetPlaces_tidy place place' calls _ _ rfl
  | .mk (.quoted content) calls => exact Calls.forgetPlaces_tidy place place' calls _ _ rfl

theorem Calls.forgetPlaces_tidy (place place' : Nat → Place) (cs : Calls) (index index' : Nat)
    {e e' : Expr} (h : e'.forgetPlaces = e.forgetPlaces) :
    (cs.tidy.closures place' index' e').forgetPlaces =
      (cs.closures place index e).forgetPlaces := by
  match cs with
  | .nil => exact h
  | .call args calls =>
    rw [Calls.tidy, Calls.closures, Calls.closures]
    apply Calls.forgetPlaces_tidy
    rw [Expr.forgetPlaces, Expr.forgetPlaces, Args.forgetPlaces_tidy, h]

theorem Args.forgetPlaces_tidy (place place' : Nat → Place) (as : Args) (index index' : Nat) :
    Expr.forgetAllPlaces (as.tidy.trees place' index') =
      Expr.forgetAllPlaces (as.trees place index) := by
  match as with
  | .nil => rfl
  | .last arg =>
    simp only [Args.tidy, Args.trees, Expr.forgetAllPlaces]
    rw [arg.forgetPlaces_tidy]
  | .more arg .nil =>
    simp only [Args.tidy, Args.trees, Expr.forgetAllPlaces]
    rw [arg.forgetPlaces_tidy]
  | .more arg (.last other) =>
    have ih := Args.forgetPlaces_tidy place place' (.last other)
    simp only [Args.tidy, Args.trees, Expr.forgetAllPlaces] at ih ⊢
    rw [arg.forgetPlaces_tidy, ih]
  | .more arg (.more other args) =>
    have ih := Args.forgetPlaces_tidy place place' (.more other args)
    rw [Args.tidy, Args.trees, Args.trees, Expr.forgetAllPlaces, Expr.forgetAllPlaces,
      arg.forgetPlaces_tidy, ih]
    simp

end

/-! ## The tidy phrase is derived -/

/-- Nothing, a parenthesis or a comma comes first: what follows an atom in a program. -/
def Delimited (text : Bytes) : Prop := ∀ b ∈ text.head?, b ∈ [40, 41, 44]

theorem Delimited.not_isWordByte {text : Bytes} (h : Delimited text) :
    ∀ b ∈ text.head?, ¬ IsWordByte b := by
  intro b hb
  have hmem := h b hb
  simp only [List.mem_cons, List.not_mem_nil, or_false] at hmem
  rcases hmem with rfl | rfl | rfl <;> simp only [IsWordByte] <;> decide

theorem Delimited.not_inWord {text : Bytes} (h : Delimited text) :
    ∀ g ∈ (Text.glyphs text).head?, ¬ InWord g := by
  cases text with
  | nil => simp
  | cons b text =>
    have hmem := h b rfl
    simp only [List.mem_cons, List.not_mem_nil, or_false] at hmem
    intro g hg hword
    rcases hmem with rfl | rfl | rfl
    all_goals
      rw [Text.glyphs_ascii (by decide)] at hg
      cases hg
      exact (hword _ rfl).2 (by decide)

theorem Delimited.ascii {text : Bytes} (h : Delimited text) :
    ∀ b ∈ text.head?, b.toNat < 0x80 := by
  intro b hb
  have hmem := h b hb
  simp only [List.mem_cons, List.not_mem_nil, or_false] at hmem
  rcases hmem with rfl | rfl | rfl <;> decide

/-- A number stays one when what follows is replaced by something delimited. -/
theorem NumberAt.replace {front rest after ds tail : Bytes} (hrest : Delimited rest)
    (hafter : Delimited after) (h : NumberAt (front ++ rest) ds tail) :
    ∃ tail', NumberAt (front ++ after) ds tail' := by
  obtain ⟨htext, hne, hdigit, hb⟩ := h
  rcases List.append_eq_append_iff.mp htext with ⟨mid, hds, hrest'⟩ | ⟨mid, hfront, htail⟩
  · cases mid with
    | nil =>
      rw [List.append_nil] at hds
      subst hds
      exact ⟨after, rfl, hne, hdigit, hafter.not_isWordByte⟩
    | cons b mid =>
      -- the run would hold the delimiter
      have hd := hdigit b (by rw [hds]; simp)
      have hnot := hrest.not_isWordByte b (by rw [hrest']; rfl)
      exact absurd (.inr (.inr (.inl hd))) hnot
  · refine ⟨mid ++ after, by rw [hfront, List.append_assoc], hne, hdigit, ?_⟩
    cases mid with
    | nil => exact hafter.not_isWordByte
    | cons b mid =>
      rw [htail] at hb
      exact hb

/-- An atom stays one when what follows is replaced by something delimited. -/
theorem Atom.At.replace {atom : Atom} {text rest after : Bytes} (h : atom.At text rest)
    (hrest : Delimited rest) (hafter : Delimited after) :
    atom.At (atom.written ++ after) after := by
  have htext := h.text_eq
  cases h with
  | @quoted content rest hq =>
    have hq' := @Atom.At.quoted content after hq
    simpa [Atom.written] using hq'
  | digits hn => exact .digits ⟨rfl, hn.nonempty, hn.digit, hafter.not_isWordByte⟩
  | @word _ name _ hne hrun hno =>
    rw [Atom.written] at htext ⊢
    refine .word hne ?_ ?_
    · obtain ⟨gs, hs, hglyphs, hall, _, rfl, rfl⟩ := hrun
      have hname : Text.glyphs (Text.ofGlyphs gs) = gs := by
        have hsplit := Text.glyphs_append hrest.ascii (Text.ofGlyphs gs)
        rw [← htext, hglyphs, Text.glyphs_of_append hglyphs] at hsplit
        exact (List.append_cancel_right hsplit).symm
      refine ⟨gs, Text.glyphs after, ?_, hall, hafter.not_inWord, rfl, ?_⟩
      · rw [Text.glyphs_append hafter.ascii, hname]
      · rw [Text.ofGlyphs_glyphs]
    · rintro ⟨ds, tail, hn⟩
      obtain ⟨tail', hn'⟩ := hn.replace hafter hrest
      rw [← htext] at hn'
      exact hno ⟨ds, tail', hn'⟩

theorem Calls.delimited_written (cs : Calls) {rest : Bytes} (h : Delimited rest) :
    Delimited (cs.written ++ rest) := by
  match cs with
  | .nil => exact h
  | .call args calls =>
    intro b hb
    cases hb
    exact List.mem_cons_self

mutual

/-- The tidy phrase derives its own text, in front of anything delimited. -/
theorem Phrase.Derives.tidy {p : Phrase} {text rest after : Bytes} (h : p.Derives text rest)
    (hrest : Delimited rest) (hafter : Delimited after) :
    p.tidy.Derives (p.tidy.written ++ after) after := by
  match p with
  | .mk atom calls =>
    obtain ⟨mid, hatom, hcalls⟩ := Phrase.derives_mk_iff.mp h
    have hmid : Delimited mid := by
      rw [hcalls.text_eq]
      exact calls.delimited_written hrest
    rw [Phrase.tidy, Phrase.written, List.append_assoc]
    exact .mk (hatom.replace hmid (calls.tidy.delimited_written hafter))
      (hcalls.tidy hrest hafter)

theorem Calls.Derives.tidy {cs : Calls} {text rest after : Bytes} (h : cs.Derives text rest)
    (hrest : Delimited rest) (hafter : Delimited after) :
    cs.tidy.Derives (cs.tidy.written ++ after) after := by
  match cs with
  | .nil => exact .nil
  | .call args calls =>
    obtain ⟨inner, mid, rfl, hargs, hcalls⟩ := Calls.derives_call_iff.mp h
    simp only [Calls.tidy, Calls.written, List.cons_append, List.append_assoc]
    exact .call hargs.tidy (hcalls.tidy hrest hafter)

theorem Args.Derives.tidy {as : Args} {text rest after : Bytes}
    (h : as.Derives text (41 :: rest)) :
    as.tidy.Derives (as.tidy.written ++ 41 :: after) (41 :: after) := by
  have hclose (t : Bytes) : Delimited (41 :: t) := by rintro b ⟨⟩; decide
  have hcomma (t : Bytes) : Delimited (44 :: t) := by rintro b ⟨⟩; decide
  match as with
  | .nil => exact .nil
  | .last arg => exact .last ((Args.derives_last_iff.mp h).tidy (hclose _) (hclose _))
  | .more arg .nil =>
    obtain ⟨mid, harg, _⟩ := Args.derives_more_iff.mp h
    exact .last (harg.tidy (hcomma _) (hclose _))
  | .more arg (.last other) =>
    obtain ⟨mid, harg, hargs⟩ := Args.derives_more_iff.mp h
    simp only [Args.tidy, Args.written, List.cons_append, List.append_assoc]
    exact .more (harg.tidy (hcomma _) (hcomma _)) hargs.tidy
  | .more arg (.more other args) =>
    obtain ⟨mid, harg, hargs⟩ := Args.derives_more_iff.mp h
    rw [Args.tidy, Args.written, List.append_assoc, List.cons_append]
    · exact .more (harg.tidy (hcomma _) (hcomma _)) hargs.tidy
    · simp

end

/-! ## The canonical source is the stripped text without closing commas -/

theorem dropClosingCommas_cons {b : UInt8} (hquote : b ≠ 34) (hcomma : b ≠ 44) (rest : Bytes) :
    dropClosingCommas false (b :: rest) = b :: dropClosingCommas false rest := by
  have hq : (b == 34) = false := by simpa using hquote
  rw [dropClosingCommas, if_neg (by simp), if_neg (fun h => hcomma h.1), hq]

/-- A comma that no closing parenthesis follows is kept. -/
theorem dropClosingCommas_separator {rest : Bytes} (h : rest.head? ≠ some 41) :
    dropClosingCommas false (44 :: rest) = 44 :: dropClosingCommas false rest := by
  rw [dropClosingCommas, if_neg (by simp), if_neg (fun hc => h hc.2)]
  rfl

theorem dropClosingCommas_closing (rest : Bytes) :
    dropClosingCommas false (44 :: 41 :: rest) = dropClosingCommas false (41 :: rest) := by
  rw [dropClosingCommas, if_neg (by simp), if_pos (by simp)]

theorem dropClosingCommas_plain {front : Bytes} (h : ∀ b ∈ front, b ∉ reserved) (rest : Bytes) :
    dropClosingCommas false (front ++ rest) = front ++ dropClosingCommas false rest := by
  induction front with
  | nil => rfl
  | cons b front ih =>
    have hb := h b List.mem_cons_self
    simp only [reserved, List.mem_cons, List.not_mem_nil, or_false, not_or] at hb
    rw [List.cons_append, dropClosingCommas_cons hb.2.2.2.2 hb.2.2.1,
      ih (fun a ha => h a (List.mem_cons_of_mem b ha))]
    rfl

theorem dropClosingCommas_string {content : Bytes} (h : 34 ∉ content) (rest : Bytes) :
    dropClosingCommas true (content ++ 34 :: rest) =
      content ++ 34 :: dropClosingCommas false rest := by
  induction content with
  | nil => rfl
  | cons b content ih =>
    simp only [List.mem_cons, not_or] at h
    have hquote : (b != 34) = true := by simpa using Ne.symm h.1
    rw [List.cons_append, dropClosingCommas, if_pos rfl, hquote, ih h.2]
    rfl

theorem Atom.At.dropClosingCommas {atom : Atom} {text rest : Bytes} (h : atom.At text rest)
    (after : Bytes) : dropClosingCommas false (atom.written ++ after) =
      atom.written ++ dropClosingCommas false after := by
  obtain ⟨content, rfl, hq⟩ | ⟨_, hall⟩ := h.plain
  · simp only [Atom.written, List.cons_append, List.append_assoc, List.nil_append]
    rw [EggLang.dropClosingCommas, if_neg (by simp), if_neg (by simp)]
    exact congrArg (34 :: ·) (dropClosingCommas_string hq after)
  · exact dropClosingCommas_plain hall after

theorem Phrase.Derives.head?_written {p : Phrase} {text rest : Bytes} (h : p.Derives text rest)
    (after : Bytes) : (p.written ++ after).head? ≠ some 41 := by
  cases h with
  | @mk atom calls _ _ _ hatom _ =>
    obtain ⟨b, more, heq, hb⟩ := hatom.written_cons
    rw [Phrase.written, heq]
    rintro ⟨⟩
    exact hb (by decide)

mutual

theorem Phrase.Derives.dropClosingCommas {p : Phrase} {text rest : Bytes}
    (h : p.Derives text rest) (after : Bytes) :
    dropClosingCommas false (p.written ++ after) =
      p.tidy.written ++ dropClosingCommas false after := by
  match p with
  | .mk atom calls =>
    obtain ⟨mid, hatom, hcalls⟩ := Phrase.derives_mk_iff.mp h
    simp only [Phrase.tidy, Phrase.written, List.append_assoc]
    rw [hatom.dropClosingCommas, hcalls.dropClosingCommas]

theorem Calls.Derives.dropClosingCommas {cs : Calls} {text rest : Bytes}
    (h : cs.Derives text rest) (after : Bytes) :
    dropClosingCommas false (cs.written ++ after) =
      cs.tidy.written ++ dropClosingCommas false after := by
  match cs with
  | .nil => rfl
  | .call args calls =>
    obtain ⟨inner, mid, rfl, hargs, hcalls⟩ := Calls.derives_call_iff.mp h
    simp only [Calls.tidy, Calls.written, List.cons_append, List.append_assoc]
    rw [dropClosingCommas_cons (by decide) (by decide), hargs.dropClosingCommas,
      dropClosingCommas_cons (by decide) (by decide), hcalls.dropClosingCommas]

theorem Args.Derives.dropClosingCommas {as : Args} {text rest : Bytes}
    (h : as.Derives text (41 :: rest)) (after : Bytes) :
    dropClosingCommas false (as.written ++ 41 :: after) =
      as.tidy.written ++ dropClosingCommas false (41 :: after) := by
  match as with
  | .nil => rfl
  | .last arg => exact (Args.derives_last_iff.mp h).dropClosingCommas (41 :: after)
  | .more arg .nil =>
    obtain ⟨mid, harg, _⟩ := Args.derives_more_iff.mp h
    simp only [Args.tidy, Args.written, List.append_assoc, List.cons_append, List.nil_append]
    rw [harg.dropClosingCommas, dropClosingCommas_closing]
  | .more arg (.last other) =>
    obtain ⟨mid, harg, hargs⟩ := Args.derives_more_iff.mp h
    have hhead := (Args.derives_last_iff.mp hargs).head?_written (41 :: after)
    have ih := hargs.dropClosingCommas after
    simp only [Args.tidy, Args.written, List.append_assoc, List.cons_append] at ih ⊢
    rw [harg.dropClosingCommas, dropClosingCommas_separator hhead, ih]
  | .more arg (.more other args) =>
    obtain ⟨mid, harg, hargs⟩ := Args.derives_more_iff.mp h
    obtain ⟨_, hother, _⟩ := Args.derives_more_iff.mp hargs
    have hhead := hother.head?_written (44 :: (args.written ++ 41 :: after))
    have ih := hargs.dropClosingCommas after
    rw [Args.tidy]
    · simp only [Args.written, List.append_assoc, List.cons_append] at ih ⊢
      rw [harg.dropClosingCommas, dropClosingCommas_separator hhead, ih]
    · simp

end

end Grammar

/-- Bytes of at least 0x80 are neither quotes nor commas. -/
theorem dropClosingCommas_high {front : Bytes} (h : ∀ b ∈ front, 0x80 ≤ b.toNat)
    (inString : Bool) (rest : Bytes) :
    dropClosingCommas inString (front ++ rest) = front ++ dropClosingCommas inString rest := by
  induction front with
  | nil => rfl
  | cons b front ih =>
    have hb := h b List.mem_cons_self
    have hquote : b ≠ 34 := by rintro rfl; revert hb; decide
    have hcomma : b ≠ 44 := by rintro rfl; revert hb; decide
    have ih := ih fun a ha => h a (List.mem_cons_of_mem b ha)
    cases inString with
    | false => rw [List.cons_append, Grammar.dropClosingCommas_cons hquote hcomma, ih]; rfl
    | true =>
      have hq : (b != 34) = true := by simpa using hquote
      rw [List.cons_append, dropClosingCommas, if_pos rfl, hq, ih]
      rfl

/-- Closing commas are whole characters, so dropping them leaves some of the characters. -/
theorem dropClosingCommas_ofChars (inString : Bool) (cs : List Char) :
    ∃ ds : List Char, dropClosingCommas inString (Text.ofChars cs) = Text.ofChars ds ∧
      ∀ c ∈ ds, c ∈ cs := by
  induction cs generalizing inString with
  | nil => exact ⟨[], rfl, by simp⟩
  | cons c cs ih =>
    have hcons : Text.ofChars (c :: cs) = String.utf8EncodeChar c ++ Text.ofChars cs := rfl
    have hkeep (s : Bool) (h : dropClosingCommas inString (Text.ofChars (c :: cs)) =
        String.utf8EncodeChar c ++ dropClosingCommas s (Text.ofChars cs)) :
        ∃ ds : List Char, dropClosingCommas inString (Text.ofChars (c :: cs)) =
          Text.ofChars ds ∧ ∀ d ∈ ds, d ∈ c :: cs := by
      obtain ⟨ds, heq, hsub⟩ := ih s
      refine ⟨c :: ds, by rw [h, heq]; rfl, ?_⟩
      intro d hd
      rcases List.mem_cons.mp hd with rfl | hd
      · exact List.mem_cons_self
      · exact List.mem_cons_of_mem c (hsub d hd)
    rcases Text.encode_single_or_high c with ⟨b, henc⟩ | hhigh
    · cases inString with
      | true =>
        apply hkeep (b != 34)
        rw [hcons, henc, List.singleton_append, dropClosingCommas, if_pos rfl]
        rfl
      | false =>
        by_cases hclosing : b = 44 ∧ (Text.ofChars cs).head? = some 41
        · obtain ⟨ds, heq, hsub⟩ := ih false
          refine ⟨ds, ?_, fun d hd => List.mem_cons_of_mem c (hsub d hd)⟩
          rw [hcons, henc, List.singleton_append, dropClosingCommas, if_neg (by simp),
            if_pos hclosing, heq]
        · apply hkeep (b == 34)
          rw [hcons, henc, List.singleton_append, dropClosingCommas, if_neg (by simp),
            if_neg hclosing]
          rfl
    · apply hkeep inString
      rw [hcons, dropClosingCommas_high hhigh]

/-- The canonical source of a well-formed program is its stripped text without the commas before
closing parentheses, and is read as the same program up to places. -/
theorem parse_print (source : String) (tree : Expr) (h : parse (utf8 source) = .ok tree) :
    (∃ again, parse tree.print = .ok again ∧ again.forgetPlaces = tree.forgetPlaces) ∧
      tree.print = dropClosingCommas false (strip (utf8 source)) := by
  obtain ⟨p, hp, rfl⟩ := (Stripped.parse_eq_ok_iff _ _).mp ((parse_eq_ok_iff _ _).mp h)
  have hprint := p.print_tree (Stripped.ofSource (utf8 source)).place 0
  have hdrop : p.tidy.written = dropClosingCommas false (strip (utf8 source)) := by
    have htext : strip (utf8 source) = p.written ++ [] := hp.text_eq
    rw [htext, hp.dropClosingCommas]
    exact (List.append_nil _).symm
  refine ⟨⟨p.tidy.tree (Stripped.ofSource p.tidy.written).place 0, ?_, ?_⟩, hprint.trans hdrop⟩
  · -- the canonical source is left alone by stripping and derived by the tidy phrase
    have hstrip : strip p.tidy.written = p.tidy.written := by
      obtain ⟨kept, hkept, hstays⟩ := Stripped.strip_ofChars source.toList
      obtain ⟨ds, hds, hsub⟩ := dropClosingCommas_ofChars false kept
      rw [hdrop, show strip (utf8 source) = Text.ofChars kept from hkept, hds]
      exact Stripped.strip_of_stays fun c hc => hstays c (hsub c hc)
    have hderives : p.tidy.Derives (strip p.tidy.written) [] := by
      have hnil : Grammar.Delimited [] := by simp [Grammar.Delimited]
      have htidy := hp.tidy hnil hnil
      rwa [List.append_nil, ← hstrip] at htidy
    rw [hprint]
    exact (parse_eq_ok_iff _ _).mpr ((Stripped.parse_eq_ok_iff _ _).mpr ⟨_, hderives, rfl⟩)
  · exact p.forgetPlaces_tidy _ _ 0 0

set_option maxRecDepth 2000 in
/-- A comma in a string and two before closing parentheses, blanks, and a chained call. -/
theorem parse_print_chained :
    let source := "f( 12, \"a,)\" , )(é,)"
    let tree := Expr.closure
      (.apply ⟨0, 1, 1⟩ (utf8 "f")
        [.number ⟨3, 1, 4⟩ (utf8 "12"), .string ⟨7, 1, 8⟩ (utf8 "a,)")])
      [.word ⟨17, 1, 18⟩ (utf8 "é")]
    parse (utf8 source) = .ok tree ∧
      (∃ again, parse tree.print = .ok again ∧ again.forgetPlaces = tree.forgetPlaces) ∧
        tree.print = dropClosingCommas false (strip (utf8 source)) := by
  intro source tree
  have h : parse (utf8 source) = .ok tree := by
    dsimp only [source]
    with_unfolding_all rfl
  exact ⟨h, parse_print source tree h⟩

end EggLang
