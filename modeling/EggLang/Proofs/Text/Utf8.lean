import EggLang.Text.Utf8

/-!
# Glyphs and the bytes they were read from

`lead?` reads exactly the encodings of characters: the encoding of a character in front of any
text is read as that character, and nothing else is read as it. Hence the glyphs of a text, put
back as bytes, are that text, and a text of encoded characters is read as these characters.
-/

namespace EggLang

namespace Text

/-- The bytes of an encoding, as numbers, by the size of the character. -/
theorem encode_cases (c : Char) :
    (c.toNat < 0x80 ∧ String.utf8EncodeChar c = [UInt8.ofNat c.toNat]) ∨
    (0x80 ≤ c.toNat ∧ c.toNat < 0x800 ∧ String.utf8EncodeChar c =
      [UInt8.ofNat (c.toNat / 64 + 0xC0), UInt8.ofNat (c.toNat % 64 + 0x80)]) ∨
    (0x800 ≤ c.toNat ∧ c.toNat < 0x10000 ∧ String.utf8EncodeChar c =
      [UInt8.ofNat (c.toNat / 4096 + 0xE0), UInt8.ofNat (c.toNat / 64 % 64 + 0x80),
        UInt8.ofNat (c.toNat % 64 + 0x80)]) ∨
    (0x10000 ≤ c.toNat ∧ c.toNat < 0x110000 ∧ String.utf8EncodeChar c =
      [UInt8.ofNat (c.toNat / 262144 + 0xF0), UInt8.ofNat (c.toNat / 4096 % 64 + 0x80),
        UInt8.ofNat (c.toNat / 64 % 64 + 0x80), UInt8.ofNat (c.toNat % 64 + 0x80)]) := by
  have hv : c.toNat = c.val.toNat := rfl
  have hc := c.valid
  simp only [UInt32.isValidChar, Nat.isValidChar] at hc
  unfold String.utf8EncodeChar
  simp only [← hv] at hc ⊢
  by_cases h1 : c.toNat ≤ 0x7f
  · left; simp [h1]; omega
  · by_cases h2 : c.toNat ≤ 0x7ff
    · right; left
      refine ⟨by omega, by omega, ?_⟩
      simp only [h1, h2, if_false, if_true]
      rw [show c.toNat / 64 % 0x20 = c.toNat / 64 by omega]
    · by_cases h3 : c.toNat ≤ 0xffff
      · right; right; left
        refine ⟨by omega, by omega, ?_⟩
        simp only [h1, h2, h3, if_false, if_true]
        rw [show c.toNat / 4096 % 0x10 = c.toNat / 4096 by omega]
      · right; right; right
        refine ⟨by omega, by omega, ?_⟩
        simp only [h1, h2, h3, if_false]
        rw [show c.toNat / 262144 % 8 = c.toNat / 262144 by omega]

/-- The ways in which a character is read from the front of a text: one per size of its encoding,
with the bounds of each byte. -/
theorem lead?_cases {text : Bytes} {c : Char} (h : lead? text = some c) :
    (∃ a rest, text = a :: rest ∧ a.toNat < 0x80 ∧ c = Char.ofNat a.toNat) ∨
    (∃ a b rest, text = a :: b :: rest ∧ 0xC2 ≤ a.toNat ∧ a.toNat < 0xE0 ∧
      0x80 ≤ b.toNat ∧ b.toNat ≤ 0xBF ∧
      c = Char.ofNat ((a.toNat % 32) * 64 + b.toNat % 64)) ∨
    (∃ a b d rest, text = a :: b :: d :: rest ∧ 0xE0 ≤ a.toNat ∧ a.toNat < 0xF0 ∧
      0x80 ≤ b.toNat ∧ b.toNat ≤ 0xBF ∧ 0x80 ≤ d.toNat ∧ d.toNat ≤ 0xBF ∧
      (a.toNat = 0xE0 → 0xA0 ≤ b.toNat) ∧ (a.toNat = 0xED → b.toNat ≤ 0x9F) ∧
      c = Char.ofNat ((a.toNat % 16) * 4096 + b.toNat % 64 * 64 + d.toNat % 64)) ∨
    (∃ a b d e rest, text = a :: b :: d :: e :: rest ∧ 0xF0 ≤ a.toNat ∧ a.toNat < 0xF5 ∧
      0x80 ≤ b.toNat ∧ b.toNat ≤ 0xBF ∧ 0x80 ≤ d.toNat ∧ d.toNat ≤ 0xBF ∧
      0x80 ≤ e.toNat ∧ e.toNat ≤ 0xBF ∧
      (a.toNat = 0xF0 → 0x90 ≤ b.toNat) ∧ (a.toNat = 0xF4 → b.toNat ≤ 0x8F) ∧
      c = Char.ofNat ((a.toNat % 8) * 262144 + b.toNat % 64 * 4096 + d.toNat % 64 * 64
        + e.toNat % 64)) := by
  unfold lead? at h
  split at h
  · cases h
  · rename_i a rest
    simp only [UInt8.lt_iff_toNat_lt, UInt8.reduceToNat] at h
    by_cases h1 : a.toNat < 0x80
    · rw [if_pos h1] at h
      exact .inl ⟨a, rest, rfl, h1, (Option.some.inj h).symm⟩
    rw [if_neg h1] at h
    by_cases h2 : a.toNat < 0xC2
    · rw [if_pos h2] at h
      cases h
    rw [if_neg h2] at h
    by_cases h3 : a.toNat < 0xE0
    · rw [if_pos h3] at h
      split at h
      · rename_i b rest
        simp only [Option.ite_none_right_eq_some, isTail, Bool.and_eq_true, decide_eq_true_eq,
          UInt8.le_iff_toNat_le, UInt8.reduceToNat] at h
        exact .inr (.inl ⟨a, b, rest, rfl, by omega, by omega, h.1.1, h.1.2,
          (Option.some.inj h.2).symm⟩)
      · cases h
    rw [if_neg h3] at h
    by_cases h4 : a.toNat < 0xF0
    · rw [if_pos h4] at h
      split at h
      · rename_i b d rest
        simp only [Option.ite_none_right_eq_some, isTail, Bool.and_eq_true, decide_eq_true_eq,
          UInt8.le_iff_toNat_le, apply_ite UInt8.toNat, UInt8.reduceToNat, ← UInt8.toNat_inj] at h
        obtain ⟨⟨⟨hlow, hhigh⟩, hd⟩, hc⟩ := h
        refine .inr (.inr (.inl ⟨a, b, d, rest, rfl, by omega, by omega, ?_, ?_, hd.1, hd.2, ?_, ?_,
          (Option.some.inj hc).symm⟩))
        all_goals grind
      · cases h
    rw [if_neg h4] at h
    by_cases h5 : a.toNat < 0xF5
    · rw [if_pos h5] at h
      split at h
      · rename_i b d e rest
        simp only [Option.ite_none_right_eq_some, isTail, Bool.and_eq_true, decide_eq_true_eq,
          UInt8.le_iff_toNat_le, apply_ite UInt8.toNat, UInt8.reduceToNat, ← UInt8.toNat_inj] at h
        obtain ⟨⟨⟨⟨hlow, hhigh⟩, hd⟩, he⟩, hc⟩ := h
        refine .inr (.inr (.inr ⟨a, b, d, e, rest, rfl, by omega, by omega, ?_, ?_, hd.1, hd.2,
          he.1, he.2, ?_, ?_, (Option.some.inj hc).symm⟩))
        all_goals grind
      · cases h
    · rw [if_neg h5] at h
      cases h

/-- What a tail byte carries. -/
theorem tail_mod (n : Nat) : (n % 64 + 128) % 256 % 64 = n % 64 := by omega

/-- A character is read back from its encoding, whatever follows. -/
theorem lead?_encode (c : Char) (rest : Bytes) :
    lead? (String.utf8EncodeChar c ++ rest) = some c := by
  have hc : c.toNat < 0xD800 ∨ 0xDFFF < c.toNat ∧ c.toNat < 0x110000 := c.valid
  obtain ⟨h, he⟩ | ⟨hl, hh, he⟩ | ⟨hl, hh, he⟩ | ⟨hl, hh, he⟩ := encode_cases c
  all_goals
    rw [he]
    simp only [List.cons_append, List.nil_append, lead?, isTail, tailBits,
      UInt8.lt_iff_toNat_lt, UInt8.le_iff_toNat_le, ← UInt8.toNat_inj, apply_ite UInt8.toNat,
      UInt8.toNat_ofNat', UInt8.reduceToNat, Nat.reducePow, Bool.and_eq_true, decide_eq_true_eq]
  · rw [if_pos (by omega), Nat.mod_eq_of_lt (by omega), Char.ofNat_toNat]
  · rw [if_neg (by omega), if_neg (by omega), if_pos (by omega), if_pos (by omega)]
    rw [tail_mod, show (c.toNat / 64 + 192) % 256 % 32 = c.toNat / 64 by omega,
      show c.toNat / 64 * 64 + c.toNat % 64 = c.toNat by omega, Char.ofNat_toNat]
  · rw [if_neg (by omega), if_neg (by omega), if_neg (by omega), if_pos (by omega),
      if_pos (by grind)]
    rw [tail_mod, tail_mod, show (c.toNat / 4096 + 224) % 256 % 16 = c.toNat / 4096 by omega,
      show c.toNat / 4096 * 4096 + c.toNat / 64 % 64 * 64 + c.toNat % 64 = c.toNat by omega,
      Char.ofNat_toNat]
  · rw [if_neg (by omega), if_neg (by omega), if_neg (by omega), if_neg (by omega),
      if_pos (by omega), if_pos (by grind)]
    rw [tail_mod, tail_mod, tail_mod,
      show (c.toNat / 262144 + 240) % 256 % 8 = c.toNat / 262144 by omega,
      show c.toNat / 262144 * 262144 + c.toNat / 4096 % 64 * 4096 + c.toNat / 64 % 64 * 64
        + c.toNat % 64 = c.toNat by omega, Char.ofNat_toNat]

/-- The number of the character with a valid code point. -/
theorem toNat_ofNat {n : Nat} (h : n < 0xD800 ∨ 0xDFFF < n ∧ n < 0x110000) :
    (Char.ofNat n).toNat = n := by
  have hv : n.isValidChar := h
  rw [Char.ofNat, dif_pos hv]
  rfl

/-- What is read as a character is its encoding. -/
theorem eq_encode_of_lead? {text : Bytes} {c : Char} (h : lead? text = some c) :
    ∃ rest, text = String.utf8EncodeChar c ++ rest := by
  obtain ⟨a, rest, rfl, ha, hc⟩ | ⟨a, b, rest, rfl, hl, hh, hb, hb', hc⟩ |
    ⟨a, b, d, rest, rfl, hl, hh, hb, hb', hd, hd', hlow, hhigh, hc⟩ |
    ⟨a, b, d, e, rest, rfl, hl, hh, hb, hb', hd, hd', he, he', hlow, hhigh, hc⟩ := lead?_cases h
  all_goals
    refine ⟨rest, ?_⟩
    have hn := congrArg Char.toNat hc
    rw [toNat_ofNat (by omega)] at hn
    -- the bounds of the bytes leave one size of the encoding
    obtain ⟨_, he⟩ | ⟨_, _, he⟩ | ⟨_, _, he⟩ | ⟨_, _, he⟩ := encode_cases c
    all_goals first
      | omega
      | rw [he]
        simp only [List.cons_append, List.nil_append, List.cons.injEq, and_true,
          ← UInt8.toNat_inj, UInt8.toNat_ofNat', Nat.reducePow]
        omega

/-- The first byte of a text that starts with no character is at least 0x80. -/
theorem lead?_eq_none_ascii {b : UInt8} {rest : Bytes} (h : lead? (b :: rest) = none) :
    0x80 ≤ b.toNat := by
  by_cases hb : b < 0x80
  · simp [lead?, hb] at h
  · simpa [UInt8.lt_iff_toNat_lt] using hb

/-- Skipping the bytes of a text that goes on leaves what goes on. -/
theorem glyphsFrom_append (front rest : Bytes) :
    glyphsFrom front.length (front ++ rest) = glyphs rest := by
  induction front with
  | nil => rfl
  | cons b front ih => simpa only [List.length_cons, List.cons_append, glyphsFrom] using ih

@[simp] theorem glyphs_nil : glyphs [] = [] := rfl

/-- An encoded character is one glyph. -/
@[simp] theorem glyphs_encode_append (c : Char) (rest : Bytes) :
    glyphs (String.utf8EncodeChar c ++ rest) = .char c :: glyphs rest := by
  have hlead := lead?_encode c rest
  have hlen := String.length_utf8EncodeChar c
  cases henc : String.utf8EncodeChar c with
  | nil => exact absurd henc String.utf8EncodeChar_ne_nil
  | cons b tail =>
    rw [henc] at hlead hlen
    have htail : c.utf8Size - 1 = tail.length := by simp only [List.length_cons] at hlen; omega
    rw [List.cons_append] at hlead ⊢
    rw [glyphs, glyphsFrom, hlead]
    simp only [htail, glyphsFrom_append]

/-- A byte that starts no character is a glyph by itself. -/
theorem glyphs_stray {b : UInt8} {rest : Bytes} (h : lead? (b :: rest) = none) :
    glyphs (b :: rest) = .stray b :: glyphs rest := by
  rw [glyphs, glyphsFrom, h]
  rfl

/-- Texts are built from the back by characters and by bytes that start none. -/
theorem glyph_induction {motive : Bytes → Prop} (nil : motive [])
    (char : ∀ c rest, motive rest → motive (String.utf8EncodeChar c ++ rest))
    (stray : ∀ b rest, lead? (b :: rest) = none → motive rest → motive (b :: rest))
    (text : Bytes) : motive text := by
  induction hn : text.length using Nat.strongRecOn generalizing text with
  | ind n ih =>
    cases text with
    | nil => exact nil
    | cons b rest =>
      cases hlead : lead? (b :: rest) with
      | none => exact stray b rest hlead (ih rest.length (by simp [← hn]) rest rfl)
      | some c =>
        obtain ⟨after, hafter⟩ := eq_encode_of_lead? hlead
        have hlt : after.length < n := by
          have hpos := Char.utf8Size_pos c
          have hlen := congrArg List.length hafter
          simp only [List.length_append, String.length_utf8EncodeChar] at hlen
          omega
        rw [hafter]
        exact char c after (ih after.length hlt after rfl)

/-- The bytes of the glyphs of a text are the text. -/
@[simp] theorem ofGlyphs_glyphs (text : Bytes) : ofGlyphs (glyphs text) = text := by
  induction text using glyph_induction with
  | nil => rfl
  | char c rest ih =>
    rw [glyphs_encode_append]
    exact congrArg (String.utf8EncodeChar c ++ ·) ih
  | stray b rest h ih =>
    rw [glyphs_stray h]
    exact congrArg (b :: ·) ih

theorem ofGlyphs_append (gs hs : List Glyph) : ofGlyphs (gs ++ hs) = ofGlyphs gs ++ ofGlyphs hs :=
  List.flatMap_append

/-- What follows some glyphs of a text is read as the glyphs that follow them. -/
theorem glyphs_of_append {text : Bytes} {gs hs : List Glyph} (h : glyphs text = gs ++ hs) :
    glyphs (ofGlyphs hs) = hs := by
  induction gs generalizing text with
  | nil => rw [← List.nil_append hs, ← h, ofGlyphs_glyphs]
  | cons g gs ih =>
    induction text using glyph_induction with
    | nil => simp at h
    | char c rest _ =>
      rw [glyphs_encode_append] at h
      exact ih (List.cons.inj h).2
    | stray b rest hb _ =>
      rw [glyphs_stray hb] at h
      exact ih (List.cons.inj h).2

theorem glyphs_ofChars_append (cs : List Char) (rest : Bytes) :
    glyphs (ofChars cs ++ rest) = cs.map Glyph.char ++ glyphs rest := by
  induction cs with
  | nil => rfl
  | cons c cs ih =>
    rw [ofChars, List.flatMap_cons, List.append_assoc, glyphs_encode_append, ← ofChars, ih]
    rfl

/-- A text of encoded characters is read as these characters. -/
theorem glyphs_ofChars (cs : List Char) : glyphs (ofChars cs) = cs.map Glyph.char := by
  simpa using glyphs_ofChars_append cs []

theorem ofChars_injective : Function.Injective ofChars := fun cs ds same => by
  have glyphs := congrArg glyphs same
  rw [glyphs_ofChars, glyphs_ofChars] at glyphs
  exact (List.map_inj_right fun _ _ => Glyph.char.inj).1 glyphs

/-- A text of whole characters that begins as others do begins with them. -/
theorem ofChars_prefix {cs ds : List Char} {rest : Bytes} (same : ofChars cs = ofChars ds ++ rest) :
    ∃ tail, cs = ds ++ tail := by
  have glyphs := congrArg glyphs same
  rw [glyphs_ofChars, glyphs_ofChars_append] at glyphs
  obtain ⟨front, tail, rfl, first, -⟩ := List.map_eq_append_iff.1 glyphs
  rw [(List.map_inj_right fun _ _ => Glyph.char.inj).1 first]
  exact ⟨tail, rfl⟩

/-- An encoding has a byte below 0x80 only if it is the single byte of its character. -/
theorem encode_ascii {c : Char} {b : UInt8} (hm : b ∈ String.utf8EncodeChar c)
    (hb : b.toNat < 0x80) : String.utf8EncodeChar c = [b] ∧ c = Char.ofNat b.toNat := by
  obtain ⟨_, he⟩ | ⟨_, _, he⟩ | ⟨_, _, he⟩ | ⟨_, _, he⟩ := encode_cases c
  · rw [he] at hm ⊢
    have hbc : b = UInt8.ofNat c.toNat := List.mem_singleton.mp hm
    subst hbc
    refine ⟨rfl, ?_⟩
    rw [UInt8.toNat_ofNat', Nat.mod_eq_of_lt (by omega), Char.ofNat_toNat]
  all_goals
    rw [he] at hm
    simp only [List.mem_cons, List.not_mem_nil, or_false, ← UInt8.toNat_inj,
      UInt8.toNat_ofNat', Nat.reducePow] at hm
    omega

/-- A character is encoded in one byte, or in bytes of at least 0x80. -/
theorem encode_single_or_high (c : Char) :
    (∃ b, String.utf8EncodeChar c = [b]) ∨ ∀ b ∈ String.utf8EncodeChar c, 0x80 ≤ b.toNat := by
  by_cases h : ∃ b ∈ String.utf8EncodeChar c, b.toNat < 0x80
  · obtain ⟨b, hm, hb⟩ := h
    exact .inl ⟨b, (encode_ascii hm hb).1⟩
  · right
    intro b hm
    exact Nat.le_of_not_lt fun hb => h ⟨b, hm, hb⟩

/-- A byte that is a glyph by itself is at least 0x80. -/
theorem stray_mem_glyphs {text : Bytes} {b : UInt8} (h : Glyph.stray b ∈ glyphs text) :
    0x80 ≤ b.toNat := by
  induction text using glyph_induction with
  | nil => simp at h
  | char c rest ih =>
    rw [glyphs_encode_append] at h
    exact ih ((List.mem_cons.mp h).resolve_left (by simp))
  | stray a rest ha ih =>
    rw [glyphs_stray ha] at h
    rcases List.mem_cons.mp h with he | hr
    · obtain rfl := Glyph.stray.inj he
      exact lead?_eq_none_ascii ha
    · exact ih hr

/-- A byte below 0x80 encodes the character with its number. -/
theorem encode_ofNat {b : UInt8} (hb : b.toNat < 0x80) :
    String.utf8EncodeChar (Char.ofNat b.toNat) = [b] := by
  have hn := toNat_ofNat (n := b.toNat) (by omega)
  obtain ⟨_, he⟩ | ⟨_, _⟩ | ⟨_, _⟩ | ⟨_, _⟩ := encode_cases (Char.ofNat b.toNat)
  · rw [he, hn, UInt8.ofNat_toNat]
  all_goals omega

/-- A byte below 0x80 is one glyph. -/
theorem glyphs_ascii {b : UInt8} (hb : b.toNat < 0x80) (rest : Bytes) :
    glyphs (b :: rest) = .char (Char.ofNat b.toNat) :: glyphs rest := by
  have h := glyphs_encode_append (Char.ofNat b.toNat) rest
  rwa [encode_ofNat hb] at h

/-- What follows does not change how the front of a text is read, unless it starts with a byte
that continues a character. -/
theorem lead?_append {b : UInt8} {front rest : Bytes} (h : ∀ a ∈ rest.head?, a.toNat < 0x80) :
    lead? (b :: front ++ rest) = lead? (b :: front) := by
  cases hfront : lead? (b :: front) with
  | some c =>
    obtain ⟨after, hafter⟩ := eq_encode_of_lead? hfront
    rw [hafter, List.append_assoc, lead?_encode]
  | none =>
    cases hall : lead? (b :: front ++ rest) with
    | none => rfl
    | some c =>
      -- the encoding cannot end inside the front, nor hold the first byte of what follows
      obtain ⟨after, hafter⟩ := eq_encode_of_lead? hall
      rcases List.append_eq_append_iff.mp hafter with ⟨mid, henc, hrest⟩ | ⟨mid, hlead, _⟩
      · cases mid with
        | nil =>
          rw [List.append_nil] at henc
          have hc := lead?_encode c []
          rw [List.append_nil, henc, hfront] at hc
          exact hc.symm
        | cons a mid =>
          have ha : a.toNat < 0x80 := h a (by simp [hrest])
          have hmem : a ∈ String.utf8EncodeChar c := by rw [henc]; simp
          have hsingle := (encode_ascii hmem ha).1
          rw [henc] at hsingle
          simp at hsingle
      · rw [hlead, lead?_encode] at hfront
        cases hfront

/-- The glyphs of two texts one after the other, when the second does not start with a byte that
continues a character. -/
theorem glyphs_append {rest : Bytes} (h : ∀ a ∈ rest.head?, a.toNat < 0x80) (text : Bytes) :
    glyphs (text ++ rest) = glyphs text ++ glyphs rest := by
  induction text using glyph_induction with
  | nil => rfl
  | char c after ih => rw [List.append_assoc, glyphs_encode_append, glyphs_encode_append, ih]; rfl
  | stray b after hb ih =>
    have hb' : lead? (b :: (after ++ rest)) = none := (lead?_append h).trans hb
    rw [List.cons_append, glyphs_stray hb', glyphs_stray hb, ih]
    rfl

end Text

end EggLang
