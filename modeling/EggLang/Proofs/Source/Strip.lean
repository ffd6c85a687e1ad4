import EggLang.Proofs.Text.Utf8
import EggLang.Source.Strip

/-!
# Stripping texts of characters

Stripping a text of well-formed characters leaves whole characters, none of them blank and none
of them a number sign. Such a text is left alone, so stripping it again changes nothing. (The
bytes of an ill-formed text can close up to a new blank.)
-/

namespace EggLang.Stripped

/-- A character that stripping leaves where it stands outside a comment. -/
def Stays (c : Char) : Prop := Text.isBlank c = false ∧ c ≠ '#'

theorem map_byte_keep (offset : Nat) (bytes : Bytes) :
    (keep offset bytes).map Kept.byte = bytes := by
  induction bytes generalizing offset with
  | nil => rfl
  | cons b bytes ih => rw [keep, List.map_cons, ih]

/-- What stripping keeps of well-formed characters are characters that stay. -/
theorem survivors_chars (mode : Mode) (offset : Nat) (cs : List Char) :
    ∃ kept : List Char, (survivors mode offset (cs.map Glyph.char)).map Kept.byte =
      Text.ofChars kept ∧ ∀ c ∈ kept, Stays c := by
  induction cs generalizing mode offset with
  | nil => exact ⟨[], by cases mode <;> rfl, by simp⟩
  | cons c cs ih =>
    rw [List.map_cons]
    cases mode with
    | code =>
      rw [survivors]
      split
      · exact ih _ _
      · rename_i hblank
        split
        · exact ih _ _
        · rename_i hsign
          obtain ⟨kept, heq, hall⟩ := ih .code (offset + (Glyph.char c).width)
          refine ⟨c :: kept, ?_, ?_⟩
          · rw [List.map_append, map_byte_keep, heq]
            rfl
          · intro d hd
            rcases List.mem_cons.mp hd with rfl | hd
            · exact ⟨by simpa [Glyph.isIn] using hblank, by simpa [opensComment] using hsign⟩
            · exact hall d hd
    | opening =>
      rw [survivors]
      split
      · exact ih _ _
      · exact ih _ _
    | comment =>
      rw [survivors]
      split
      · exact ih _ _
      · exact ih _ _

/-- A glyph that stripping leaves where it stands outside a comment. -/
def Clear (g : Glyph) : Prop := g.isIn Text.isBlank = false ∧ opensComment g = false

/-- Clear glyphs are all kept. -/
theorem survivors_of_clear (offset : Nat) {gs : List Glyph} (h : ∀ g ∈ gs, Clear g) :
    (survivors .code offset gs).map Kept.byte = Text.ofGlyphs gs := by
  induction gs generalizing offset with
  | nil => rfl
  | cons g gs ih =>
    obtain ⟨⟨hblank, hopen⟩, hrest⟩ := List.forall_mem_cons.1 h
    rw [survivors, hblank, hopen]
    simp only [Bool.false_eq_true, if_false]
    rw [List.map_append, map_byte_keep, ih _ hrest]
    rfl

theorem Stays.clear {c : Char} (h : Stays c) : Clear (.char c) :=
  ⟨h.1, by simpa [opensComment] using h.2⟩

/-- Characters that stay are all kept. -/
theorem survivors_of_stays (offset : Nat) {cs : List Char} (h : ∀ c ∈ cs, Stays c) :
    (survivors .code offset (cs.map Glyph.char)).map Kept.byte = Text.ofChars cs := by
  have clear : ∀ g ∈ cs.map Glyph.char, Clear g :=
    List.forall_mem_map.2 fun c hc => (h c hc).clear
  rw [survivors_of_clear offset clear, Text.ofGlyphs, List.flatMap_map]
  rfl

/-- Stripping a well-formed text leaves characters that stay. -/
theorem strip_ofChars (cs : List Char) :
    ∃ kept : List Char, strip (Text.ofChars cs) = Text.ofChars kept ∧ ∀ c ∈ kept, Stays c := by
  rw [strip, ofSource, text, Text.glyphs_ofChars]
  exact survivors_chars .code 0 cs

/-- A text of characters that stay is left alone. -/
theorem strip_of_stays {cs : List Char} (h : ∀ c ∈ cs, Stays c) :
    strip (Text.ofChars cs) = Text.ofChars cs := by
  rw [strip, ofSource, text, Text.glyphs_ofChars]
  exact survivors_of_stays 0 h

end EggLang.Stripped
