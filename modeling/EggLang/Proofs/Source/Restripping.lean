import EggLang.Proofs.Source.Positions
import EggLang.Proofs.Source.Strip
import EggLang.Proofs.Text.Occurrences

/-!
# Stripping a stripped text again

Stripping keeps whole glyphs, none of them blank and none of them a number sign. Bytes that belong
to no character are kept as well, and where a blank or a comment between two of them is taken out
they can close up to a character. A blank in the stripped text is always of that kind; where there
is none, the stripped text and all that it ends with are left alone.
-/

namespace EggLang.Stripped

/-! ## Texts that are left alone -/

theorem length_keep (offset : Nat) (bytes : Bytes) : (keep offset bytes).length = bytes.length := by
  rw [← List.length_map Kept.byte, map_byte_keep]

theorem length_survivors_le (mode : Mode) (offset : Nat) (gs : List Glyph) :
    (survivors mode offset gs).length ≤ (Text.ofGlyphs gs).length :=
  length_keep offset _ ▸ (survivors_sublist mode offset gs).length_le

/-- Where every byte is kept, every glyph is clear. -/
theorem clear_of_length (offset : Nat) {gs : List Glyph}
    (full : (survivors .code offset gs).length = (Text.ofGlyphs gs).length) :
    ∀ g ∈ gs, Clear g := by
  induction gs generalizing offset with
  | nil => nofun
  | cons g gs ih =>
    have width : 0 < g.bytes.length := by
      cases g with
      | stray b => exact Nat.one_pos
      | char c => exact String.length_utf8EncodeChar c ▸ Char.utf8Size_pos c
    have whole : (Text.ofGlyphs (g :: gs)).length
        = g.bytes.length + (Text.ofGlyphs gs).length := by
      rw [Text.ofGlyphs, List.flatMap_cons, List.length_append, ← Text.ofGlyphs]
    rw [survivors, whole] at full
    split at full
    · have := length_survivors_le .code (offset + g.width) gs
      omega
    · next visible =>
      split at full
      · have := length_survivors_le .opening (offset + g.width) gs
        omega
      · next unopened =>
        rw [List.length_append, length_keep] at full
        have later := Nat.add_left_cancel full
        exact List.forall_mem_cons.2 ⟨⟨by simpa using visible, by simpa using unopened⟩,
          ih _ later⟩

theorem strip_eq_self_iff {text : Bytes} :
    strip text = text ↔ ∀ g ∈ Text.glyphs text, Clear g := by
  constructor
  · intro alone
    have full := congrArg List.length alone
    rw [strip, length_text, ofSource] at full
    exact clear_of_length 0 (by rw [full, Text.ofGlyphs_glyphs])
  · intro clear
    rw [strip, Stripped.text, ofSource, survivors_of_clear 0 clear, Text.ofGlyphs_glyphs]

/-! ## Whole glyphs -/

/-- A kept byte that belongs to no character of the source. -/
def StrayAt (source : Bytes) (k : Kept) : Prop :=
  ∃ front back, Text.glyphs source = front ++ .stray k.byte :: back ∧
    (Text.ofGlyphs front).length = k.offset

/-- The bytes that stay are those of clear glyphs of the source. -/
theorem survivors_glyphs (mode : Mode) (offset : Nat) (gs : List Glyph) :
    ∃ whole : List (Nat × Glyph),
      survivors mode offset gs = whole.flatMap (fun (start, g) => keep start g.bytes) ∧
        ∀ start g, (start, g) ∈ whole → Clear g ∧
          ∃ front back, gs = front ++ g :: back
            ∧ offset + (Text.ofGlyphs front).length = start := by
  induction gs generalizing mode offset with
  | nil => exact ⟨[], by cases mode <;> rfl, by simp⟩
  | cons g gs ih =>
    -- the glyphs that are kept behind this one stand behind it
    have behind {start : Nat} {g' : Glyph}
        (h : ∃ front back, gs = front ++ g' :: back ∧
          offset + g.width + (Text.ofGlyphs front).length = start) :
        ∃ front back, g :: gs = front ++ g' :: back ∧
          offset + (Text.ofGlyphs front).length = start := by
      obtain ⟨front, back, rfl, same⟩ := h
      refine ⟨g :: front, back, rfl, ?_⟩
      rw [← same, Text.ofGlyphs, List.flatMap_cons, List.length_append, ← Text.ofGlyphs,
        Glyph.width]
      omega
    have dropped (mode : Mode) : ∃ whole : List (Nat × Glyph),
        survivors mode (offset + g.width) gs
          = whole.flatMap (fun (start, g) => keep start g.bytes) ∧
        ∀ start g', (start, g') ∈ whole → Clear g' ∧
          ∃ front back, g :: gs = front ++ g' :: back ∧
            offset + (Text.ofGlyphs front).length = start := by
      obtain ⟨whole, same, stand⟩ := ih mode (offset + g.width)
      exact ⟨whole, same, fun start g' mem => (stand start g' mem).imp_right behind⟩
    cases mode with
    | code =>
      rw [survivors]
      split
      · exact dropped .code
      · next visible =>
        split
        · exact dropped .opening
        · next unopened =>
          obtain ⟨whole, same, stand⟩ := dropped .code
          refine ⟨(offset, g) :: whole, by rw [same, List.flatMap_cons], fun start g' mem => ?_⟩
          rcases List.mem_cons.1 mem with here | later
          · cases here
            exact ⟨⟨by simpa using visible, by simpa using unopened⟩, [], gs, rfl, rfl⟩
          · exact stand start g' later
    | opening =>
      rw [survivors]
      split
      · exact dropped .opening
      · exact dropped .comment
    | comment =>
      rw [survivors]
      split
      · exact dropped .code
      · exact dropped .comment

theorem map_byte_flatMap_keep (whole : List (Nat × Glyph)) :
    (whole.flatMap fun (start, g) => keep start g.bytes).map Kept.byte
      = Text.ofGlyphs (whole.map Prod.snd) := by
  induction whole with
  | nil => rfl
  | cons k whole ih =>
    rw [List.flatMap_cons, List.map_append, map_byte_keep, ih]
    rfl

/-- Bytes at consecutive offsets are found there in the source. -/
theorem drop_of_keep {source bytes : Bytes} {start : Nat}
    (h : ∀ k ∈ keep start bytes, source[k.offset]? = some k.byte) :
    ∃ rest, source.drop start = bytes ++ rest := by
  induction bytes generalizing start with
  | nil => exact ⟨_, rfl⟩
  | cons b bytes ih =>
    obtain ⟨first, others⟩ := List.forall_mem_cons.1 h
    obtain ⟨inside, same⟩ := List.getElem?_eq_some_iff.1 first
    obtain ⟨rest, later⟩ := ih others
    exact ⟨rest, by rw [List.drop_eq_getElem_cons inside, same, later]; rfl⟩

/-! ## Seams -/

/-- A character of the stripped text that closed up: its bytes are stray in the source, and they do
not stand together there. -/
structure ClosesUp (source front : Bytes) (c : Char) (pieces : List Kept) : Prop where
  kept : ∃ before after, (ofSource source).kept = before ++ pieces ++ after ∧
    before.map Kept.byte = front
  spells : pieces.map Kept.byte = String.utf8EncodeChar c
  stray : ∀ k ∈ pieces, StrayAt source k
  apart : ∀ start, pieces ≠ keep start (String.utf8EncodeChar c)

/-- Stray bytes that spell a character do not stand together. -/
theorem apart_of_stray {source : Bytes} {c : Char} {pieces : List Kept}
    (found : ∀ k ∈ pieces, source[k.offset]? = some k.byte)
    (stray : ∀ k ∈ pieces, StrayAt source k) (start : Nat) :
    pieces ≠ keep start (String.utf8EncodeChar c) := by
  rintro rfl
  obtain ⟨rest, together⟩ := drop_of_keep found
  obtain ⟨b, tail, encoding, -, -⟩ := Text.encode_eq_cons c
  have first : (⟨b, start⟩ : Kept) ∈ keep start (String.utf8EncodeChar c) := by
    rw [encoding]
    exact List.mem_cons_self ..
  obtain ⟨front, back, split, here⟩ := stray _ first
  dsimp only at split here
  have behind : Text.ofGlyphs (.stray b :: back) = source.drop start := by
    rw [← Text.ofGlyphs_glyphs source, split, Text.ofGlyphs_append, ← here, List.drop_left]
  have read := Text.glyphs_of_append split
  rw [behind, together, Text.glyphs_encode_append] at read
  cases read

theorem closesUp {source front back : Bytes} {c : Char} (unclear : ¬ Clear (.char c))
    (occurs : strip source = front ++ (String.utf8EncodeChar c ++ back)) :
    ∃ pieces, ClosesUp source front c pieces := by
  obtain ⟨whole, kept, stand⟩ := survivors_glyphs .code 0 (Text.glyphs source)
  have spelt : Text.ofGlyphs (whole.map Prod.snd) = front ++ (String.utf8EncodeChar c ++ back) := by
    rw [← map_byte_flatMap_keep, ← kept]
    exact occurs
  obtain ⟨before, after, same, split | split⟩ := Text.glyphs_of_encode spelt
  · have mem : Glyph.char c ∈ whole.map Prod.snd :=
      split ▸ List.mem_append_right before (List.mem_cons_self ..)
    obtain ⟨⟨start, g⟩, listed, rfl⟩ := List.mem_map.1 mem
    exact absurd (stand start _ listed).1 unclear
  · obtain ⟨w₁, others, rfl, rfl, split'⟩ := List.map_eq_append_iff.1 split
    obtain ⟨w₂, w₃, rfl, strays, -⟩ := List.map_eq_append_iff.1 split'
    have stray : ∀ k ∈ w₂.flatMap fun (start, g) => keep start g.bytes, StrayAt source k := by
      intro k mem
      obtain ⟨⟨start, g⟩, listed, mem⟩ := List.mem_flatMap.1 mem
      have alone : g ∈ (String.utf8EncodeChar c).map Glyph.stray :=
        strays ▸ List.mem_map_of_mem listed
      obtain ⟨b, -, rfl⟩ := List.mem_map.1 alone
      obtain rfl := List.mem_singleton.1 mem
      obtain ⟨-, front, back, there, offset⟩ :=
        stand start _ (List.mem_append_right w₁ (List.mem_append_left w₃ listed))
      exact ⟨front, back, there, (Nat.zero_add _).symm.trans offset⟩
    have parts : (ofSource source).kept
        = (w₁.flatMap fun (start, g) => keep start g.bytes)
          ++ (w₂.flatMap fun (start, g) => keep start g.bytes)
          ++ (w₃.flatMap fun (start, g) => keep start g.bytes) := by
      rw [ofSource, kept, List.flatMap_append, List.flatMap_append, List.append_assoc]
    refine ⟨_, ⟨_, _, parts, (map_byte_flatMap_keep w₁).trans same⟩, ?_, stray,
      apart_of_stray (fun k mem => source_at_kept ?_) stray⟩
    · rw [map_byte_flatMap_keep, strays, Text.ofGlyphs, List.flatMap_map]
      simp [Glyph.bytes]
    · rw [parts]
      exact List.mem_append_left _ (List.mem_append_right _ mem)

/-! ## Stripping again -/

/-- What stripping a stripped text again does. -/
structure Restrips (source : Bytes) : Prop where
  /-- No number sign is left. -/
  sign : .char '#' ∉ Text.glyphs (strip source)
  /-- A blank is left only where stray bytes close up to it. -/
  seams : ∀ c, Text.isBlank c = true → ∀ front back,
    strip source = front ++ (String.utf8EncodeChar c ++ back) →
      ∃ pieces, ClosesUp source front c pieces
  /-- The stripped text is left alone exactly if it has no blank. -/
  alone : strip (strip source) = strip source ↔
    ∀ c, Text.isBlank c = true → .char c ∉ Text.glyphs (strip source)
  /-- All that it ends with is left alone then, so stripping before each token changes nothing. -/
  tokens : strip (strip source) = strip source →
    ∀ rest, rest <:+ strip source → strip rest = rest
  /-- It is left alone if the source is well-formed. -/
  wellFormed : (∀ b, .stray b ∉ Text.glyphs source) → strip (strip source) = strip source

theorem sign_notMem_strip (source : Bytes) : .char '#' ∉ Text.glyphs (strip source) := by
  intro mem
  obtain ⟨front, back, occurs⟩ := Text.char_mem_glyphs_iff.1 mem
  rw [List.append_assoc] at occurs
  obtain ⟨pieces, -, spells, stray, -⟩ :=
    closesUp (fun clear => absurd clear.2 (by decide)) occurs.symm
  -- the number sign is a byte below 0x80
  obtain ⟨k, rfl, same⟩ := List.map_eq_singleton_iff.1 spells
  obtain ⟨front, back, split, -⟩ := stray k (List.mem_cons_self ..)
  have high := Text.stray_mem_glyphs (split ▸ List.mem_append_right front (List.mem_cons_self ..))
  rw [same] at high
  exact absurd high (by decide)

/-- A stripped text without blanks is clear. -/
theorem clear_strip_iff (source : Bytes) : (∀ g ∈ Text.glyphs (strip source), Clear g) ↔
    ∀ c, Text.isBlank c = true → .char c ∉ Text.glyphs (strip source) := by
  constructor
  · intro clear c blank mem
    have visible : Text.isBlank c = false := (clear _ mem).1
    rw [visible] at blank
    cases blank
  · intro none g mem
    cases g with
    | stray b => exact ⟨rfl, rfl⟩
    | char c =>
      refine Stays.clear ⟨Bool.eq_false_iff.2 fun blank => none c blank mem, ?_⟩
      rintro rfl
      exact sign_notMem_strip source mem

theorem strip_suffix {text rest : Bytes} (alone : strip text = text) (ends : rest <:+ text) :
    strip rest = rest := by
  refine strip_eq_self_iff.2 fun g mem => ?_
  cases g with
  | stray b => exact ⟨rfl, rfl⟩
  | char c =>
    have occurs := (Text.char_mem_glyphs_iff.1 mem).trans ends.isInfix
    exact strip_eq_self_iff.1 alone _ (Text.char_mem_glyphs_iff.2 occurs)

/-- Stripping a stripped text again changes nothing but the blanks that stray bytes of the source
closed up to. -/
theorem restrips (source : Bytes) : Restrips source := by
  have seams (c : Char) (blank : Text.isBlank c = true) (front back : Bytes)
      (occurs : strip source = front ++ (String.utf8EncodeChar c ++ back)) :
      ∃ pieces, ClosesUp source front c pieces := by
    refine closesUp (fun clear => ?_) occurs
    rw [show Text.isBlank c = false from clear.1] at blank
    cases blank
  have alone := strip_eq_self_iff.trans (clear_strip_iff source)
  refine ⟨sign_notMem_strip source, seams, alone, fun same rest => strip_suffix same, ?_⟩
  intro wellFormed
  refine alone.2 fun c blank mem => ?_
  obtain ⟨front, back, occurs⟩ := Text.char_mem_glyphs_iff.1 mem
  rw [List.append_assoc] at occurs
  obtain ⟨pieces, -, spells, stray, -⟩ := seams c blank front back occurs.symm
  obtain ⟨b, tail, encoding, -, -⟩ := Text.encode_eq_cons c
  obtain ⟨k, later, rfl, -⟩ := List.map_eq_cons_iff.1 (spells.trans encoding)
  obtain ⟨before, after, split, -⟩ := stray k (List.mem_cons_self ..)
  exact wellFormed k.byte (split ▸ List.mem_append_right before (List.mem_cons_self ..))

/-- The bytes of a line separator with a space between them close up to it, and stripping again
takes it out. -/
theorem line_separator_closes_up :
    strip (utf8 "f(" ++ [0xE2, 0x80, 0x20, 0xA8] ++ utf8 ")") = utf8 "f(\u2028)" ∧
      strip (strip (utf8 "f(" ++ [0xE2, 0x80, 0x20, 0xA8] ++ utf8 ")")) = utf8 "f()" := by
  decide

end EggLang.Stripped
