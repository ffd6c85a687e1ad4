import EggLang.Proofs.Source.Positions
import EggLang.Proofs.Source.Strip

/-!
# Stripping a text that goes on

A text of whole characters keeps its bytes and their places when text is added to it. Of the added
text less may be kept than if it stood alone, for a comment that is not over reaches into it: the
blanks right after its `#` are part of it, line breaks too. Two number signs and a line break end
every comment and start none.
-/

namespace EggLang

namespace Stripped

/-- Where a pass stands after one more glyph. -/
def Mode.after (mode : Mode) (g : Glyph) : Mode :=
  match mode with
  | .code =>
    if g.isIn Text.isBlank then .code else if opensComment g then .opening else .code
  | .opening => if g.isIn Text.isBlank then .opening else .comment
  | .comment => if g.isIn Text.isLineBreak then .code else .comment

theorem survivors_append (mode : Mode) (offset : Nat) (gs hs : List Glyph) :
    survivors mode offset (gs ++ hs) = survivors mode offset gs ++
      survivors (gs.foldl Mode.after mode) (offset + (Text.ofGlyphs gs).length) hs := by
  induction gs generalizing mode offset with
  | nil => cases mode <;> rfl
  | cons g gs ih =>
    have hwidth : offset + (Text.ofGlyphs (g :: gs)).length =
        offset + g.width + (Text.ofGlyphs gs).length := by
      rw [Text.ofGlyphs, List.flatMap_cons, List.length_append, ← Nat.add_assoc]
      rfl
    -- a glyph that is dropped counts for the offset too
    rw [List.cons_append, List.foldl_cons, hwidth]
    cases mode with
    | code =>
      rw [survivors, survivors, Mode.after]
      split
      · exact ih _ _
      · split
        · exact ih _ _
        · rw [ih, List.append_assoc]
    | opening =>
      rw [survivors, survivors, Mode.after]
      split
      · exact ih _ _
      · exact ih _ _
    | comment =>
      rw [survivors, survivors, Mode.after]
      split
      · exact ih _ _
      · exact ih _ _

/-- Added text is stripped in the mode in which the text before it ends. -/
theorem kept_append (cs : List Char) (more : Bytes) :
    ∃ mode, (ofSource (Text.ofChars cs ++ more)).kept = (ofSource (Text.ofChars cs)).kept ++
      survivors mode (Text.ofChars cs).length (Text.glyphs more) := by
  refine ⟨(cs.map Glyph.char).foldl Mode.after .code, ?_⟩
  have hlength : (Text.ofGlyphs (cs.map Glyph.char)).length = (Text.ofChars cs).length := by
    rw [← Text.glyphs_ofChars, Text.ofGlyphs_glyphs]
  rw [ofSource, ofSource, Text.glyphs_ofChars_append, Text.glyphs_ofChars, survivors_append,
    hlength, Nat.zero_add]

/-- Added text adds characters that stay. -/
theorem strip_append (cs ds : List Char) : ∃ kept : List Char,
    strip (Text.ofChars cs ++ Text.ofChars ds) = strip (Text.ofChars cs) ++ Text.ofChars kept ∧
      ∀ c ∈ kept, Stays c := by
  obtain ⟨mode, hkept⟩ := kept_append cs (Text.ofChars ds)
  rw [Text.glyphs_ofChars] at hkept
  obtain ⟨kept, hmore, hstays⟩ := survivors_chars mode (Text.ofChars cs).length ds
  refine ⟨kept, ?_, hstays⟩
  rw [strip, text, hkept, List.map_append, hmore]
  rfl

/-- After two number signs and a line break nothing is in a comment. -/
theorem survivors_fresh_line (mode : Mode) (offset : Nat) (cs : List Char) :
    survivors mode offset (('#' :: '#' :: '\n' :: cs).map Glyph.char) =
      survivors .code (offset + 3) (cs.map Glyph.char) := by
  have hsign : (Glyph.char '#').isIn Text.isBlank = false := by decide
  have hopens : opensComment (.char '#') = true := by decide
  have hcomment : (Glyph.char '#').isIn Text.isLineBreak = false := by decide
  have hbreak : (Glyph.char '\n').isIn Text.isLineBreak = true := by decide
  cases mode <;>
    simp only [List.map_cons, survivors, hsign, hopens, hcomment, hbreak, if_true,
      Bool.false_eq_true, if_false] <;> rfl

/-- On a fresh line characters that stay are kept. -/
theorem strip_fresh_line (cs : List Char) {ds : List Char} (h : ∀ c ∈ ds, Stays c) :
    strip (Text.ofChars cs ++ Text.ofChars ('#' :: '#' :: '\n' :: ds)) =
      strip (Text.ofChars cs) ++ Text.ofChars ds := by
  obtain ⟨mode, hkept⟩ := kept_append cs (Text.ofChars ('#' :: '#' :: '\n' :: ds))
  rw [Text.glyphs_ofChars, survivors_fresh_line] at hkept
  rw [strip, text, hkept, List.map_append, survivors_of_stays _ h]
  rfl

theorem place_append (cs : List Char) (more : Bytes) {index : Nat}
    (h : index < (strip (Text.ofChars cs)).length) :
    (ofSource (Text.ofChars cs ++ more)).place index =
      (ofSource (Text.ofChars cs)).place index := by
  rw [strip, length_text] at h
  obtain ⟨mode, hkept⟩ := kept_append cs more
  have hbefore : (ofSource (Text.ofChars cs)).sourceOffset index ≤ (Text.ofChars cs).length :=
    sourceOffset_le _ index
  have hsame : (ofSource (Text.ofChars cs ++ more)).sourceOffset index =
      (ofSource (Text.ofChars cs)).sourceOffset index := by
    rw [sourceOffset, sourceOffset, hkept, List.getElem?_append_left h,
      List.getElem?_eq_getElem h]
    rfl
  rw [place_eq, place_eq, hsame]
  show Place.locate (Text.ofChars cs ++ more) _ = Place.locate (Text.ofChars cs) _
  rw [Place.locate, Place.locate, List.take_append_of_le_length hbefore]

end Stripped

end EggLang
