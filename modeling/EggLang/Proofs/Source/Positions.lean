import EggLang.Proofs.Text.Utf8
import EggLang.Source.Strip

/-!
# Places of kept bytes

Stripping keeps some of the bytes of the source, in their order and each with the offset that it
has there. So the place of an index of the stripped text names the byte that stands at that index,
and the places of later indices are later in the source.
-/

namespace EggLang

namespace Place

/-- The place names the offset of a source as a reader counts: lines from one by the line feeds
before the offset, columns from one by the characters since the last of them, where a byte that
belongs to no character counts as one. -/
structure Names (place : Place) (source : Bytes) (offset : Nat) : Prop where
  offset_eq : place.offset = offset
  inside : offset ≤ source.length
  line_eq : place.line = 1 + (source.take offset).count 10
  column_eq : ∃ lines line, source.take offset = lines ++ line ∧ (∀ b ∈ lines.getLast?, b = 10) ∧
    10 ∉ line ∧ place.column = 1 + Text.length line

/-- The last line of a text follows a line feed or is all of the text, and holds none. -/
theorem lastLine_split (text : Bytes) :
    ∃ lines, text = lines ++ lastLine text ∧ (∀ b ∈ lines.getLast?, b = 10) ∧
      10 ∉ lastLine text := by
  refine ⟨(text.reverse.dropWhile (· != 10)).reverse, ?_, ?_, ?_⟩
  · rw [lastLine, ← List.reverse_append, List.takeWhile_append_dropWhile, List.reverse_reverse]
  · intro b hb
    rw [List.getLast?_reverse] at hb
    have hstop := List.head?_dropWhile_not (· != (10 : UInt8)) text.reverse
    rw [Option.mem_def.mp hb] at hstop
    simpa using hstop
  · intro hmem
    rw [lastLine, List.mem_reverse] at hmem
    have hline := List.all_eq_true.mp List.all_takeWhile _ hmem
    simp at hline

theorem names_locate {source : Bytes} {offset : Nat} (h : offset ≤ source.length) :
    (locate source offset).Names source offset := by
  obtain ⟨lines, hsplit, hbreak, hline⟩ := lastLine_split (source.take offset)
  exact ⟨rfl, h, Nat.add_comm _ _, lines, _, hsplit, hbreak, hline, Nat.add_comm _ _⟩

end Place

namespace Stripped

/-! ## Every byte with its offset -/

theorem keep_append (offset : Nat) (front rest : Bytes) :
    keep offset (front ++ rest) = keep offset front ++ keep (offset + front.length) rest := by
  induction front generalizing offset with
  | nil => rfl
  | cons b front ih =>
    rw [List.cons_append, keep, keep, ih, List.cons_append, List.length_cons]
    rw [show offset + 1 + front.length = offset + (front.length + 1) by omega]

theorem mem_keep {offset : Nat} {bytes : Bytes} {k : Kept} (h : k ∈ keep offset bytes) :
    offset ≤ k.offset ∧ bytes[k.offset - offset]? = some k.byte := by
  induction bytes generalizing offset with
  | nil => cases h
  | cons b bytes ih =>
    rcases List.mem_cons.mp h with rfl | h
    · simp
    · obtain ⟨hle, hbyte⟩ := ih h
      rw [show k.offset - offset = k.offset - (offset + 1) + 1 by omega, List.getElem?_cons_succ]
      exact ⟨by omega, hbyte⟩

theorem pairwise_keep (offset : Nat) (bytes : Bytes) :
    (keep offset bytes).Pairwise fun a b => a.offset < b.offset := by
  induction bytes generalizing offset with
  | nil => exact .nil
  | cons b bytes ih => exact .cons (fun k hk => (mem_keep hk).1) (ih (offset + 1))

/-! ## The bytes that stay -/

/-- Stripping drops bytes and moves none. -/
theorem survivors_sublist (mode : Mode) (offset : Nat) (gs : List Glyph) :
    (survivors mode offset gs).Sublist (keep offset (Text.ofGlyphs gs)) := by
  induction gs generalizing mode offset with
  | nil => cases mode <;> exact .slnil
  | cons g gs ih =>
    have hsplit : keep offset (Text.ofGlyphs (g :: gs)) =
        keep offset g.bytes ++ keep (offset + g.width) (Text.ofGlyphs gs) :=
      keep_append offset g.bytes (Text.ofGlyphs gs)
    have hdrop (mode : Mode) : (survivors mode (offset + g.width) gs).Sublist
        (keep offset (Text.ofGlyphs (g :: gs))) := by
      rw [hsplit]
      exact (ih mode _).trans (List.sublist_append_right _ _)
    cases mode with
    | code =>
      rw [survivors]
      split
      · exact hdrop .code
      · split
        · exact hdrop .opening
        · rw [hsplit]
          exact (List.Sublist.refl _).append (ih .code _)
    | opening =>
      rw [survivors]
      split
      · exact hdrop .opening
      · exact hdrop .comment
    | comment =>
      rw [survivors]
      split
      · exact hdrop .code
      · exact hdrop .comment

theorem kept_sublist (source : Bytes) : (ofSource source).kept.Sublist (keep 0 source) := by
  have h := survivors_sublist .code 0 (Text.glyphs source)
  rwa [Text.ofGlyphs_glyphs] at h

/-- A kept byte stands in the source where it says. -/
theorem source_at_kept {source : Bytes} {k : Kept} (h : k ∈ (ofSource source).kept) :
    source[k.offset]? = some k.byte :=
  (mem_keep ((kept_sublist source).subset h)).2

theorem offset_lt {source : Bytes} {k : Kept} (h : k ∈ (ofSource source).kept) :
    k.offset < source.length :=
  (List.getElem?_eq_some_iff.mp (source_at_kept h)).1

/-! ## Places of indices -/

/-- The source offset of an index of the stripped text, that of the end of the source past it. -/
def sourceOffset (s : Stripped) (index : Nat) : Nat :=
  (s.kept[index]?.map Kept.offset).getD s.source.length

theorem place_eq (s : Stripped) (index : Nat) :
    s.place index = Place.locate s.source (s.sourceOffset index) := by
  rw [place, offsets, sourceOffset, List.getD_eq_getElem?_getD]
  congr 1
  by_cases hlt : index < s.kept.length
  · rw [List.getElem?_append_left (by simpa using hlt), List.getElem?_map]
  · have hnone : s.kept[index]? = none := List.getElem?_eq_none_iff.mpr (by omega)
    rw [List.getElem?_append_right (by simpa using hlt), hnone]
    cases index - (s.kept.map Kept.offset).length <;> rfl

theorem length_text (s : Stripped) : s.text.length = s.kept.length := List.length_map _

theorem sourceOffset_le (source : Bytes) (index : Nat) :
    (ofSource source).sourceOffset index ≤ source.length := by
  rw [sourceOffset]
  cases hk : (ofSource source).kept[index]? with
  | none => exact Nat.le_refl _
  | some k => exact Nat.le_of_lt (offset_lt (List.mem_of_getElem? hk))

theorem place_names (source : Bytes) (index : Nat) :
    ((ofSource source).place index).Names source ((ofSource source).sourceOffset index) := by
  rw [place_eq]
  exact Place.names_locate (sourceOffset_le source index)

/-- The byte at an index of the stripped text is the byte of the source at its place. -/
theorem source_at_place {source : Bytes} {index : Nat} {b : UInt8}
    (h : (strip source)[index]? = some b) :
    source[((ofSource source).place index).offset]? = some b := by
  rw [strip, text, List.getElem?_map] at h
  obtain ⟨k, hk, rfl⟩ := Option.map_eq_some_iff.mp h
  rw [(place_names source index).offset_eq, sourceOffset, hk]
  exact source_at_kept (List.mem_of_getElem? hk)

/-- Later bytes of the stripped text are later in the source. -/
theorem place_lt {source : Bytes} {i j : Nat} (hij : i < j) (hj : j < (strip source).length) :
    ((ofSource source).place i).offset < ((ofSource source).place j).offset := by
  rw [strip, length_text] at hj
  -- offsets increase along all bytes of the source, hence along those that are kept
  have hincreasing := (pairwise_keep 0 source).sublist (kept_sublist source)
  have hlt := List.pairwise_iff_getElem.mp hincreasing i j (by omega) hj hij
  rw [(place_names source i).offset_eq, (place_names source j).offset_eq, sourceOffset,
    sourceOffset, List.getElem?_eq_getElem (by omega : i < (ofSource source).kept.length),
    List.getElem?_eq_getElem hj]
  exact hlt

end Stripped

end EggLang
