import EggLang.Proofs.Text.Utf8

/-!
# Where an encoding occurs

The first byte of an encoding continues no character and the others begin none. So where the
encoding of a character occurs among the bytes of some glyphs, either it is that character as a
glyph or it is made up of stray bytes; and in a text it is always a glyph.
-/

namespace EggLang.Text

theorem isTail_ofNat_iff {n : Nat} (small : n < 256) :
    isTail (UInt8.ofNat n) = true ↔ 0x80 ≤ n ∧ n ≤ 0xBF := by
  simp only [isTail, UInt8.le_iff_toNat_le, UInt8.toNat_ofNat', UInt8.reduceToNat, Nat.reducePow,
    Bool.and_eq_true, decide_eq_true_eq, Nat.mod_eq_of_lt small]

theorem encode_eq_cons (c : Char) :
    ∃ b tail, String.utf8EncodeChar c = b :: tail ∧ isTail b = false ∧
      ∀ a ∈ tail, isTail a = true := by
  have starts {n : Nat} (small : n < 256) (outside : n < 0x80 ∨ 0xBF < n) :
      isTail (UInt8.ofNat n) = false := by
    rw [Bool.eq_false_iff, ne_eq, isTail_ofNat_iff small]
    omega
  have continues (n : Nat) : isTail (UInt8.ofNat (n % 64 + 0x80)) = true :=
    (isTail_ofNat_iff (by omega)).2 (by omega)
  obtain ⟨_, he⟩ | ⟨_, _, he⟩ | ⟨_, _, he⟩ | ⟨_, _, he⟩ := encode_cases c
  all_goals
    refine ⟨_, _, he, starts (by omega) (by omega), ?_⟩
    simp only [List.forall_mem_cons, List.not_mem_nil, continues, true_and, false_implies,
      implies_true]

/-- Bytes that continue characters are stray among glyphs. -/
theorem stray_of_tails {tails rest : Bytes} {gs : List Glyph} (h : ofGlyphs gs = tails ++ rest)
    (continues : ∀ a ∈ tails, isTail a = true) :
    ∃ hs, gs = tails.map Glyph.stray ++ hs ∧ ofGlyphs hs = rest := by
  induction tails generalizing gs with
  | nil => exact ⟨gs, rfl, h⟩
  | cons a tails ih =>
    obtain ⟨first, others⟩ := List.forall_mem_cons.1 continues
    cases gs with
    | nil => cases h
    | cons g gs =>
      rw [ofGlyphs, List.flatMap_cons] at h
      cases g with
      | char c =>
        -- the first byte of a character continues none
        obtain ⟨b, tail, encoding, starts, -⟩ := encode_eq_cons c
        rw [Glyph.bytes, encoding] at h
        obtain ⟨rfl, -⟩ := List.cons.inj h
        rw [first] at starts
        cases starts
      | stray b =>
        obtain ⟨rfl, same⟩ := List.cons.inj h
        obtain ⟨hs, rfl, after⟩ := ih same others
        exact ⟨hs, rfl, after⟩

/-- A byte behind the first one of a glyph continues a character. -/
theorem isTail_of_bytes {g : Glyph} {a b : UInt8} {front back : Bytes}
    (h : g.bytes = a :: (front ++ b :: back)) : isTail b = true := by
  cases g with
  | stray x => simp [Glyph.bytes] at h
  | char c =>
    obtain ⟨first, tail, encoding, -, continues⟩ := encode_eq_cons c
    obtain ⟨-, same⟩ := List.cons.inj (encoding.symm.trans h)
    exact continues b (same ▸ List.mem_append_right front (List.mem_cons_self ..))

/-- Where the encoding of a character occurs among the bytes of glyphs, it is that character as one
of them or made up of stray ones. -/
theorem glyphs_of_encode {gs : List Glyph} {front back : Bytes} {c : Char}
    (h : ofGlyphs gs = front ++ (String.utf8EncodeChar c ++ back)) :
    ∃ before after, ofGlyphs before = front ∧ (gs = before ++ .char c :: after ∨
      gs = before ++ ((String.utf8EncodeChar c).map Glyph.stray ++ after)) := by
  obtain ⟨b, tail, encoding, starts, continues⟩ := encode_eq_cons c
  induction gs generalizing front with
  | nil => simp [ofGlyphs, encoding] at h
  | cons g gs ih =>
    have past (rest : Bytes) (same : front = g.bytes ++ rest)
        (later : ofGlyphs gs = rest ++ (String.utf8EncodeChar c ++ back)) :
        ∃ before after, ofGlyphs before = front ∧ (g :: gs = before ++ .char c :: after ∨
          g :: gs = before ++ ((String.utf8EncodeChar c).map Glyph.stray ++ after)) := by
      obtain ⟨before, after, rfl, split⟩ := ih later
      exact ⟨g :: before, after, same.symm, split.imp (congrArg (g :: ·)) (congrArg (g :: ·))⟩
    rw [ofGlyphs, List.flatMap_cons, ← ofGlyphs] at h
    cases front with
    | nil =>
      cases g with
      | char d =>
        have same := congrArg lead? h
        rw [Glyph.bytes, List.nil_append, lead?_encode, lead?_encode] at same
        obtain rfl := Option.some.inj same
        exact ⟨[], gs, rfl, .inl rfl⟩
      | stray x =>
        rw [encoding] at h
        obtain ⟨rfl, same⟩ := List.cons.inj h
        obtain ⟨after, rfl, -⟩ := stray_of_tails same continues
        exact ⟨[], after, rfl, .inr (by rw [encoding]; rfl)⟩
    | cons a front =>
      obtain ⟨rest, same, later⟩ | ⟨rest, same, later⟩ := List.append_eq_append_iff.1 h
      · exact past rest same later
      · cases rest with
        | nil => exact past [] (by rw [same]; simp) later.symm
        | cons x rest =>
          -- the encoding would begin inside a glyph
          rw [encoding] at later
          obtain ⟨rfl, -⟩ := List.cons.inj later
          rw [isTail_of_bytes same] at starts
          cases starts

theorem char_mem_glyphs_iff {c : Char} {text : Bytes} :
    .char c ∈ glyphs text ↔ String.utf8EncodeChar c <:+: text := by
  constructor
  · intro mem
    obtain ⟨before, after, split⟩ := List.append_of_mem mem
    refine ⟨ofGlyphs before, ofGlyphs after, ?_⟩
    rw [← ofGlyphs_glyphs text, split, ofGlyphs_append, List.append_assoc]
    rfl
  · rintro ⟨front, back, same⟩
    have whole : ofGlyphs (glyphs text) = front ++ (String.utf8EncodeChar c ++ back) := by
      rw [ofGlyphs_glyphs, ← same, List.append_assoc]
    obtain ⟨before, after, -, split | split⟩ := glyphs_of_encode whole
    · rw [split]
      exact List.mem_append_right before (List.mem_cons_self ..)
    · -- stray bytes that spell a character are read as it
      have read := glyphs_of_append split
      have spelt (bs : Bytes) : ofGlyphs (bs.map Glyph.stray ++ after) = bs ++ ofGlyphs after := by
        rw [ofGlyphs_append, ofGlyphs, List.flatMap_map]
        simp [Glyph.bytes]
      rw [spelt, glyphs_encode_append] at read
      obtain ⟨b, tail, encoding, -, -⟩ := encode_eq_cons c
      rw [encoding] at read
      cases read

end EggLang.Text
