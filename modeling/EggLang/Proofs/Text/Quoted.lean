import EggLang.Proofs.Text.Utf8
import EggLang.Text.Quoted
import Mathlib.Algebra.Group.Nat.Defs

/-!
# Double-quoted texts are told apart

A glyph between the quotes is written as itself, or as a backslash, a letter and as many hexadecimal
digits as the letter asks for. So each glyph is known from the front of what is written, and a text
from its quoted form.
-/

namespace EggLang

namespace Bytes

theorem toNat_hexDigit {n : Nat} (small : n < 16) :
    (hexDigit n).toNat = if n < 10 then 48 + n else 87 + n := by
  rw [hexDigit]
  split <;> simp [Nat.toUInt8] <;> omega

theorem length_hex (n width : Nat) : (hex n width).length = width := by
  induction width generalizing n with
  | zero => rfl
  | succ width ih => simp [hex, ih]

/-- So many digits tell the numbers below the power of sixteen apart. -/
theorem hex_inj {n k width : Nat} (small : n < 16 ^ width) (small' : k < 16 ^ width)
    (same : hex n width = hex k width) : n = k := by
  induction width generalizing n k with
  | zero => omega
  | succ width ih =>
    rw [Nat.pow_succ] at small small'
    obtain ⟨front, last⟩ := List.append_inj' same rfl
    have upper : n / 16 = k / 16 := ih (by omega) (by omega) front
    have lower := congrArg UInt8.toNat (List.cons.inj last).1
    rw [toNat_hexDigit (Nat.mod_lt _ (by decide)), toNat_hexDigit (Nat.mod_lt _ (by decide))]
      at lower
    have : n % 16 = k % 16 := by
      split at lower <;> split at lower <;> omega
    omega

theorem le_of_mem_hex {b : UInt8} {n width : Nat} (among : b ∈ hex n width) : 48 ≤ b.toNat := by
  induction width generalizing n with
  | zero => cases among
  | succ width ih =>
    rcases List.mem_append.1 among with upper | lower
    · exact ih upper
    · obtain rfl := List.mem_singleton.1 lower
      rw [toNat_hexDigit (Nat.mod_lt _ (by decide))]
      split <;> omega

end Bytes

namespace Text.Quoted

/-- The number of hexadecimal digits behind the letter of an escape. -/
def payload (letter : UInt8) : Nat :=
  if letter = 120 then 2 else if letter = 117 then 4 else if letter = 85 then 8 else 0

/-- The control characters that have a letter, and the letters. -/
def controls : List (UInt8 × Nat) :=
  [(97, 7), (98, 8), (102, 12), (110, 10), (114, 13), (116, 9), (118, 11)]

/-- The glyph an escape is for, by its letter and the number behind it. -/
def ofEscape (letter : UInt8) (n : Nat) : Glyph :=
  if payload letter = 0 then .char (.ofNat ((controls.lookup letter).getD letter.toNat))
  else if payload letter = 2 ∧ 0x80 ≤ n then .stray n.toUInt8
  else .char (.ofNat n)

/-- A glyph that may be read from a text: a byte alone is no ASCII character. -/
def IsRead (g : Glyph) : Prop := ∀ b, g = .stray b → 0x80 ≤ b.toNat

theorem isRead_of_mem {text : Bytes} {g : Glyph} (among : g ∈ glyphs text) : IsRead g := by
  rintro b rfl
  exact stray_mem_glyphs among

/-- A glyph is written as itself or as an escape, and the escape is for it alone. -/
theorem encodeGlyph_cases {g : Glyph} (isRead : IsRead g) :
    (∃ c, g = .char c ∧ isPrintable c = true ∧ c.toNat ≠ 92
      ∧ encodeGlyph g = String.utf8EncodeChar c) ∨
    ∃ letter n, 34 ≤ letter.toNat ∧ n < 16 ^ payload letter ∧ g = ofEscape letter n
      ∧ encodeGlyph g = 92 :: letter :: Bytes.hex n (payload letter) := by
  cases g with
  | stray b =>
    have high := isRead b rfl
    refine .inr ⟨120, b.toNat, by decide, b.toNat_lt, ?_, rfl⟩
    have two : payload 120 = 2 := rfl
    rw [ofEscape, if_neg (by decide), if_pos ⟨two, high⟩]
    simp
  | char c =>
    have itself : Char.ofNat c.toNat = c := Char.ofNat_toNat c
    -- an escape without a number behind its letter
    have short (letter : UInt8) (plain : payload letter = 0) (above : 34 ≤ letter.toNat)
        (stands : (controls.lookup letter).getD letter.toNat = c.toNat)
        (written : encodeGlyph (.char c) = escaped letter) :
        ∃ letter n, 34 ≤ letter.toNat ∧ n < 16 ^ payload letter ∧ Glyph.char c = ofEscape letter n
          ∧ encodeGlyph (.char c) = 92 :: letter :: Bytes.hex n (payload letter) := by
      refine ⟨letter, 0, above, by simp [plain], ?_, by rw [written, plain]; rfl⟩
      rw [ofEscape, if_pos plain, stands, itself]
    rw [encodeGlyph] at short ⊢
    by_cases mark : c.toNat = 34 ∨ c.toNat = 92
    · refine .inr ?_
      rcases mark with mark | mark
      · exact short 34 rfl (by decide) (by rw [mark]; rfl) (by simp [mark])
      · exact short 92 rfl (by decide) (by rw [mark]; rfl) (by simp [mark])
    rw [not_or] at mark
    simp only [mark.1, mark.2, decide_false, Bool.or_self, if_false, Bool.false_eq_true] at short ⊢
    by_cases shown : isPrintable c = true
    · exact .inl ⟨c, rfl, shown, mark.2, if_pos shown⟩
    refine .inr ?_
    simp only [shown, if_false, Bool.false_eq_true] at short ⊢
    by_cases named : c.toNat ∈ [7, 8, 12, 10, 13, 9, 11]
    · simp only [List.mem_cons, List.not_mem_nil, or_false] at named
      rcases named with is | is | is | is | is | is | is
      · exact short 97 rfl (by decide) (by rw [is]; rfl) (by simp [is])
      · exact short 98 rfl (by decide) (by rw [is]; rfl) (by simp [is])
      · exact short 102 rfl (by decide) (by rw [is]; rfl) (by simp [is])
      · exact short 110 rfl (by decide) (by rw [is]; rfl) (by simp [is])
      · exact short 114 rfl (by decide) (by rw [is]; rfl) (by simp [is])
      · exact short 116 rfl (by decide) (by rw [is]; rfl) (by simp [is])
      · exact short 118 rfl (by decide) (by rw [is]; rfl) (by simp [is])
    clear short
    simp only [List.mem_cons, List.not_mem_nil, or_false, not_or] at named
    simp only [named, if_false, Bool.or_eq_true, decide_eq_true_eq]
    by_cases low : c.toNat < 0x20 ∨ c.toNat = 0x7F
    · rw [if_pos low]
      refine ⟨120, c.toNat, by decide, ?_, ?_, rfl⟩
      · show c.toNat < 256
        omega
      · rw [ofEscape, if_neg (by decide), if_neg (by omega), itself]
    rw [if_neg low]
    by_cases middle : c.toNat < 0x10000
    · rw [if_pos middle]
      refine ⟨117, c.toNat, by decide, middle, ?_, rfl⟩
      rw [ofEscape, if_neg (by decide), if_neg (fun h => absurd h.1 (by decide)), itself]
    · rw [if_neg middle]
      refine ⟨85, c.toNat, by decide, ?_, ?_, rfl⟩
      · have below : c.toNat < 0x110000 := by
          have valid : c.toNat < 0xD800 ∨ 0xDFFF < c.toNat ∧ c.toNat < 0x110000 := c.valid
          omega
        exact Nat.lt_trans below (by decide)
      · rw [ofEscape, if_neg (by decide), if_neg (fun h => absurd h.1 (by decide)), itself]

/-- No line feed stands between the quotes. -/
theorem not_mem_encodeGlyph {g : Glyph} (isRead : IsRead g) : 10 ∉ encodeGlyph g := by
  intro among
  rcases encodeGlyph_cases isRead with ⟨c, -, shown, -, written⟩ | ⟨letter, n, above, -, -, written⟩
  · rw [written] at among
    obtain rfl := (encode_ascii among (by decide)).2
    cases shown
  · rw [written] at among
    simp only [List.mem_cons] at among
    rcases among with backslash | letter | digits
    · cases backslash
    · rw [← letter] at above
      exact absurd above (by decide)
    · exact absurd (Bytes.le_of_mem_hex digits) (by decide)

/-- A character that is written as itself is no backslash. -/
theorem encode_ne_backslash {c : Char} {rest after : Bytes} (other : c.toNat ≠ 92) :
    String.utf8EncodeChar c ++ rest ≠ 92 :: after := by
  intro same
  have first : (92 : UInt8) ∈ String.utf8EncodeChar c := by
    have filled : String.utf8EncodeChar c ≠ [] := by
      rw [← List.length_pos_iff, String.length_utf8EncodeChar]
      exact Char.utf8Size_pos c
    obtain ⟨b, tail, written⟩ := List.exists_cons_of_ne_nil filled
    rw [written] at same ⊢
    exact (List.cons.inj same).1 ▸ List.mem_cons_self ..
  rw [(encode_ascii first (by decide)).2] at other
  exact other rfl

/-- A glyph is known from the front of what is written. -/
theorem encodeGlyph_append_inj {g h : Glyph} {rest after : Bytes} (isRead : IsRead g)
    (isRead' : IsRead h) (same : encodeGlyph g ++ rest = encodeGlyph h ++ after) :
    g = h ∧ rest = after := by
  rcases encodeGlyph_cases isRead with ⟨c, rfl, -, other, written⟩ | ⟨a, n, -, small, rfl, written⟩
    <;> rcases encodeGlyph_cases isRead' with
      ⟨d, rfl, -, other', written'⟩ | ⟨b, k, -, small', rfl, written'⟩
    <;> rw [written, written'] at same
  · have lead := congrArg lead? same
    rw [lead?_encode, lead?_encode] at lead
    cases lead
    exact ⟨rfl, List.append_cancel_left same⟩
  · exact absurd same (encode_ne_backslash other)
  · exact absurd same.symm (encode_ne_backslash other')
  · obtain ⟨-, same⟩ := List.cons.inj same
    obtain ⟨rfl, same⟩ := List.cons.inj same
    obtain ⟨digits, behind⟩ := List.append_inj same (by rw [Bytes.length_hex, Bytes.length_hex])
    rw [Bytes.hex_inj small small' digits]
    exact ⟨rfl, behind⟩

theorem encodeGlyph_ne_nil {g : Glyph} (isRead : IsRead g) : encodeGlyph g ≠ [] := by
  rcases encodeGlyph_cases isRead with ⟨c, -, -, -, written⟩ | ⟨letter, n, -, -, -, written⟩
  · rw [written, ← List.length_pos_iff, String.length_utf8EncodeChar]
    exact Char.utf8Size_pos c
  · rw [written]
    exact List.cons_ne_nil _ _

theorem flatMap_encodeGlyph_inj {gs hs : List Glyph} (areRead : ∀ g ∈ gs, IsRead g)
    (areRead' : ∀ h ∈ hs, IsRead h) (same : gs.flatMap encodeGlyph = hs.flatMap encodeGlyph) :
    gs = hs := by
  induction gs generalizing hs with
  | nil =>
    cases hs with
    | nil => rfl
    | cons h hs =>
      have empty := (List.append_eq_nil_iff.1 same.symm).1
      exact absurd empty (encodeGlyph_ne_nil (areRead' h (List.mem_cons_self ..)))
  | cons g gs ih =>
    obtain ⟨first, others⟩ := List.forall_mem_cons.1 areRead
    cases hs with
    | nil => exact absurd (List.append_eq_nil_iff.1 same).1 (encodeGlyph_ne_nil first)
    | cons h hs =>
      obtain ⟨first', others'⟩ := List.forall_mem_cons.1 areRead'
      obtain ⟨rfl, rest⟩ := encodeGlyph_append_inj first first' same
      rw [ih others others' rest]

/-- A text is known from its quoted form. -/
theorem encode_injective : Function.Injective encode := by
  intro text other same
  have inner := List.append_cancel_left (List.append_cancel_right same)
  have read := flatMap_encodeGlyph_inj (fun _ => isRead_of_mem) (fun _ => isRead_of_mem) inner
  rw [← ofGlyphs_glyphs text, read, ofGlyphs_glyphs]

theorem not_mem_encode (text : Bytes) : 10 ∉ encode text := by
  intro among
  simp only [encode, List.mem_append, List.mem_singleton] at among
  rcases among with (quote | inner) | quote
  · cases quote
  · obtain ⟨g, here, byte⟩ := List.mem_flatMap.1 inner
    exact not_mem_encodeGlyph (isRead_of_mem here) byte
  · cases quote

end Text.Quoted

end EggLang
