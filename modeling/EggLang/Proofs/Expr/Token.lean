import EggLang.Proofs.Expr.Grammar

/-!
# Tokens and atoms

The token at the front of a text is an atom of the grammar exactly when the grammar has that atom
there, and the text after it is the same. An atom is determined by the text.
-/

namespace EggLang

/-- A text is cut at its first quote. -/
theorem Bytes.cut_quote_eq_some_iff {text before after : Bytes} :
    cut [34] text = some (before, after) ↔ text = before ++ 34 :: after ∧ 34 ∉ before := by
  induction text generalizing before with
  | nil => simp [cut]
  | cons b text ih =>
    by_cases hb : (34 : UInt8) = b
    · subst hb
      cases before with
      | nil => simp [cut, dropLead?]
      | cons a before => simp [cut, dropLead?]; grind
    · have hd : dropLead? [34] (b :: text) = none := by simp [dropLead?, hb]
      rw [cut, hd]
      cases before with
      | nil => simp; grind
      | cons a before =>
        have := @ih before
        simp only [Option.map_eq_some_iff, Prod.mk.injEq, List.cons.injEq, Prod.exists,
          List.cons_append, List.mem_cons, not_or]
        grind

namespace Grammar

theorem isDigit_iff {b : UInt8} : Bytes.isDigit b = true ↔ 48 ≤ b ∧ b ≤ 57 := by
  simp [Bytes.isDigit]

theorem extendsNumber_iff {b : UInt8} : Token.extendsNumber b = true ↔ IsWordByte b := by
  simp only [Token.extendsNumber, IsWordByte, Bytes.isDigit, Bool.or_eq_true, Bool.and_eq_true,
    decide_eq_true_eq]
  grind

theorem endsNumber_iff {rest : Bytes} :
    Token.endsNumber rest = true ↔ ∀ b ∈ rest.head?, ¬ IsWordByte b := by
  cases rest with
  | nil => simp [Token.endsNumber]
  | cons b rest =>
    simp only [Token.endsNumber, Bool.not_eq_true', List.head?_cons, Option.mem_some_iff,
      forall_eq', ← extendsNumber_iff, Bool.not_eq_true]

theorem isWordGlyph_iff {g : Glyph} : Token.isWordGlyph g = true ↔ InWord g := by
  cases g with
  | char c =>
    simp only [Token.isWordGlyph, Glyph.isIn, Token.isReserved, InWord, Bool.not_eq_true',
      Bool.or_eq_false_iff, decide_eq_false_iff_not, Glyph.char.injEq, forall_eq']
  | stray b => simp [Token.isWordGlyph, Glyph.isIn, InWord]

/-- The digit run of a number is the longest one at the front of the text. -/
theorem numberAt_iff {text ds rest : Bytes} :
    NumberAt text ds rest ↔ (text.takeWhile Bytes.isDigit = ds ∧
      text.dropWhile Bytes.isDigit = rest) ∧ ds ≠ [] ∧ Token.endsNumber rest = true := by
  constructor
  · rintro ⟨rfl, hne, hd, hb⟩
    have hall : ∀ b ∈ ds, Bytes.isDigit b = true := fun b h => isDigit_iff.mpr (hd b h)
    have hstop : ∀ b ∈ rest.head?, Bytes.isDigit b = false := by
      intro b h
      have := hb b h
      simp only [IsWordByte, not_or] at this
      simpa [Bytes.isDigit] using this.2.2.1
    refine ⟨⟨?_, ?_⟩, hne, endsNumber_iff.mpr hb⟩
    · rw [List.takeWhile_append_of_pos hall]
      cases rest with
      | nil => simp
      | cons b rest => simp [hstop b rfl]
    · rw [List.dropWhile_append_of_pos hall]
      cases rest with
      | nil => simp
      | cons b rest => simp [hstop b rfl]
  · rintro ⟨⟨rfl, rfl⟩, hne, he⟩
    refine ⟨List.takeWhile_append_dropWhile.symm, hne, ?_, endsNumber_iff.mp he⟩
    intro b h
    exact isDigit_iff.mp (List.all_eq_true.mp List.all_takeWhile b h)

/-- The word run of a text is its maximal run of word glyphs. -/
theorem runAt_iff {text run rest : Bytes} :
    RunAt text run rest ↔ Token.wordRun text = run ∧ text.drop run.length = rest := by
  constructor
  · rintro ⟨gs, hs, hglyphs, hall, hstop, rfl, rfl⟩
    have hrun : Token.wordRun text = Text.ofGlyphs gs := by
      have hall' : ∀ g ∈ gs, Token.isWordGlyph g = true :=
        fun g h => isWordGlyph_iff.mpr (hall g h)
      rw [Token.wordRun, hglyphs, List.takeWhile_append_of_pos hall']
      cases hs with
      | nil => simp
      | cons g hs =>
        have : ¬ Token.isWordGlyph g = true := fun h => hstop g rfl (isWordGlyph_iff.mp h)
        simp [this]
    refine ⟨hrun, ?_⟩
    have htext := Text.ofGlyphs_glyphs text
    rw [hglyphs, Text.ofGlyphs_append] at htext
    rw [← htext, List.drop_left]
  · rintro ⟨rfl, rfl⟩
    refine ⟨(Text.glyphs text).takeWhile Token.isWordGlyph,
      (Text.glyphs text).dropWhile Token.isWordGlyph, List.takeWhile_append_dropWhile.symm,
      ?_, ?_, rfl, ?_⟩
    · intro g h
      exact isWordGlyph_iff.mp (List.all_eq_true.mp List.all_takeWhile g h)
    · intro g h hg
      have := List.head?_dropWhile_not Token.isWordGlyph (Text.glyphs text)
      rw [Option.mem_def.mp h] at this
      exact absurd (isWordGlyph_iff.mpr hg) (by simpa using this)
    · have htext := Text.ofGlyphs_glyphs text
      rw [← List.takeWhile_append_dropWhile (p := Token.isWordGlyph) (l := Text.glyphs text),
        Text.ofGlyphs_append] at htext
      exact (congrArg (List.drop _) htext.symm).trans List.drop_left

/-- The bytes with a meaning of their own: parentheses, comma, number sign and quote. -/
def reserved : Bytes := [40, 41, 44, 35, 34]

/-- A word holds no byte with a meaning of its own. -/
theorem RunAt.not_reserved {text run rest : Bytes} (h : RunAt text run rest) :
    ∀ b ∈ run, b ∉ reserved := by
  obtain ⟨gs, hs, hglyphs, hall, _, rfl, _⟩ := h
  intro b hb hres
  have hascii : b.toNat < 0x80 := by
    simp only [reserved, List.mem_cons, List.not_mem_nil, or_false] at hres
    rcases hres with rfl | rfl | rfl | rfl | rfl <;> decide
  obtain ⟨g, hg, hbg⟩ := List.mem_flatMap.mp hb
  cases g with
  | char c =>
    have hword := (hall _ hg c rfl).2
    rw [(Text.encode_ascii hbg hascii).2] at hword
    simp only [reserved, List.mem_cons, List.not_mem_nil, or_false] at hres
    rcases hres with rfl | rfl | rfl | rfl | rfl <;> exact hword (by decide)
  | stray a =>
    obtain rfl : b = a := List.mem_singleton.mp hbg
    have hstray := Text.stray_mem_glyphs (hglyphs ▸ List.mem_append_left hs hg)
    omega

/-- A word holds no line feed. -/
theorem RunAt.not_mem {text run rest : Bytes} (h : RunAt text run rest) : 10 ∉ run := by
  obtain ⟨gs, hs, hglyphs, hall, _, rfl, _⟩ := h
  intro hb
  obtain ⟨g, hg, hbg⟩ := List.mem_flatMap.mp hb
  cases g with
  | char c =>
    have hword := (hall _ hg c rfl).1
    rw [(Text.encode_ascii hbg (by decide)).2] at hword
    cases hword
  | stray a =>
    obtain rfl := List.mem_singleton.mp hbg
    have hstray := Text.stray_mem_glyphs (hglyphs ▸ List.mem_append_left hs hg)
    exact absurd hstray (by decide)

/-- A number holds no byte with a meaning of its own. -/
theorem NumberAt.not_reserved {text ds rest : Bytes} (h : NumberAt text ds rest) :
    ∀ b ∈ ds, b ∉ reserved := by
  intro b hb hres
  have hd := h.digit b hb
  simp only [reserved, List.mem_cons, List.not_mem_nil, or_false] at hres
  rcases hres with rfl | rfl | rfl | rfl | rfl <;> revert hd <;> decide

/-- The bytes of an atom. -/
def Atom.written : Atom → Bytes
  | .quoted content => 34 :: content ++ [34]
  | .digits ds => ds
  | .word name => name

theorem Atom.At.text_eq {atom : Atom} {text rest : Bytes} (h : atom.At text rest) :
    text = atom.written ++ rest := by
  cases h with
  | quoted _ => simp [Atom.written]
  | digits hn => exact hn.text_eq
  | word _ hrun _ =>
    obtain ⟨gs, hs, hglyphs, _, _, rfl, rfl⟩ := hrun
    rw [Atom.written, ← Text.ofGlyphs_append, ← hglyphs, Text.ofGlyphs_glyphs]

/-- An atom that is no string is not empty and holds no byte with a meaning of its own. -/
theorem Atom.At.plain {atom : Atom} {text rest : Bytes} (h : atom.At text rest) :
    (∃ content, atom = .quoted content ∧ 34 ∉ content) ∨
      atom.written ≠ [] ∧ ∀ b ∈ atom.written, b ∉ reserved := by
  cases h with
  | quoted hq => exact .inl ⟨_, rfl, hq⟩
  | digits hn => exact .inr ⟨hn.nonempty, hn.not_reserved⟩
  | word hne hrun _ => exact .inr ⟨hne, hrun.not_reserved⟩

/-- An atom starts with a byte other than a parenthesis or a comma. -/
theorem Atom.At.written_cons {atom : Atom} {text rest : Bytes} (h : atom.At text rest) :
    ∃ b more, atom.written = b :: more ∧ b ∉ [40, 41, 44] := by
  obtain ⟨content, rfl, _⟩ | ⟨hne, hall⟩ := h.plain
  · exact ⟨34, content ++ [34], rfl, by decide⟩
  · obtain ⟨b, more, heq⟩ := List.exists_cons_of_ne_nil hne
    refine ⟨b, more, heq, fun hb => hall b (by rw [heq]; exact List.mem_cons_self) ?_⟩
    exact List.mem_append_left [35, 34] hb

theorem Atom.At.cons {atom : Atom} {text rest : Bytes} (h : atom.At text rest) :
    ∃ b after, text = b :: after ∧ b ∉ [40, 41, 44] := by
  obtain ⟨b, more, heq, hb⟩ := h.written_cons
  exact ⟨b, more ++ rest, by rw [h.text_eq, heq]; rfl, hb⟩

/-- The token an atom is read as. -/
def Atom.token : Atom → Token
  | .quoted content => .quoted content
  | .digits ds => .digits ds
  | .word name => .word name

theorem Atom.token_inj {a b : Atom} (h : a.token = b.token) : a = b := by
  cases a <;> cases b <;> simp_all [Atom.token]

/-- At a byte without a meaning of its own the next token is a number or a word. -/
theorem next_eq_numberOrWord {b : UInt8} {text : Bytes} (h : b ∉ reserved) :
    Token.next b text = Token.numberOrWord (b :: text) := by
  simp only [reserved, List.mem_cons, List.not_mem_nil, or_false, not_or] at h
  simp [Token.next, h]

/-- An atom of the grammar is read as its token. -/
theorem Atom.At.next_eq {atom : Atom} {b : UInt8} {text rest : Bytes}
    (h : atom.At (b :: text) rest) : Token.next b text = (atom.token, rest) := by
  have hfirst : ∀ {front : Bytes}, front ≠ [] → (∀ a ∈ front, a ∉ reserved) →
      b :: text = front ++ rest → b ∉ reserved := by
    intro front hne hall heq
    obtain ⟨a, more, rfl⟩ := List.exists_cons_of_ne_nil hne
    obtain ⟨rfl, _⟩ := List.cons.inj heq
    exact hall b List.mem_cons_self
  have htext := h.text_eq
  generalize hfull : b :: text = full at h
  cases h with
  | @quoted content rest hq =>
    obtain ⟨rfl, rfl⟩ := List.cons.inj hfull
    have hcut : Bytes.cut [34] (content ++ 34 :: rest) = some (content, rest) :=
      Bytes.cut_quote_eq_some_iff.mpr ⟨rfl, hq⟩
    simp [Token.next, hcut, Atom.token]
  | digits hn =>
    subst hfull
    rw [next_eq_numberOrWord (hfirst hn.nonempty hn.not_reserved htext)]
    obtain ⟨⟨rfl, rfl⟩, hne, hend⟩ := numberAt_iff.mp hn
    rw [Token.numberOrWord, if_pos ⟨hne, hend⟩]
    rfl
  | word hne hrun hno =>
    subst hfull
    rw [next_eq_numberOrWord (hfirst hne hrun.not_reserved htext)]
    obtain ⟨rfl, rfl⟩ := runAt_iff.mp hrun
    rw [Token.numberOrWord, if_neg, if_neg hne]
    · rfl
    · rintro ⟨hd, hend⟩
      exact hno ⟨_, _, numberAt_iff.mpr ⟨⟨rfl, rfl⟩, hd, hend⟩⟩

/-- A number or a word that is read is an atom of the grammar; else the text holds no token. -/
theorem numberOrWord_cases (text : Bytes) :
    (∃ atom : Atom, ∃ rest, atom.At text rest ∧ Token.numberOrWord text = (atom.token, rest)) ∨
      Token.numberOrWord text = (.junk, []) := by
  unfold Token.numberOrWord
  split
  · rename_i hd
    exact .inl ⟨.digits _, _, .digits (numberAt_iff.mpr ⟨⟨rfl, rfl⟩, hd.1, hd.2⟩), rfl⟩
  · rename_i hd
    split
    · exact .inr rfl
    · rename_i hne
      refine .inl ⟨.word _, _, .word hne (runAt_iff.mpr ⟨rfl, rfl⟩) ?_, rfl⟩
      rintro ⟨ds, after, hn⟩
      obtain ⟨⟨rfl, rfl⟩, hds, hend⟩ := numberAt_iff.mp hn
      exact hd ⟨hds, hend⟩

/-- What the next token of a text can be. -/
theorem next_cases (b : UInt8) (text : Bytes) :
    (b = 40 ∧ Token.next b text = (.openParen, text)) ∨
    (b = 41 ∧ Token.next b text = (.closeParen, text)) ∨
    (b = 44 ∧ Token.next b text = (.comma, text)) ∨
    (∃ atom : Atom, ∃ rest, atom.At (b :: text) rest ∧ Token.next b text = (atom.token, rest)) ∨
    Token.next b text = (.junk, []) := by
  unfold Token.next
  split
  · rename_i h
    exact .inl ⟨h, rfl⟩
  split
  · rename_i h
    exact .inr (.inl ⟨h, rfl⟩)
  split
  · rename_i h
    exact .inr (.inr (.inl ⟨h, rfl⟩))
  split
  · rename_i hq
    subst hq
    split
    · rename_i content after hcut
      obtain ⟨rfl, hnot⟩ := Bytes.cut_quote_eq_some_iff.mp hcut
      exact .inr (.inr (.inr (.inl ⟨.quoted content, after, .quoted hnot, rfl⟩)))
    · exact .inr (.inr (.inr (.inr rfl)))
  · exact .inr (.inr (.inr (numberOrWord_cases (b :: text))))

/-- The atom at the front of a text is determined, and so is the text after it. -/
theorem Atom.At.unique {a b : Atom} {text rest after : Bytes} (ha : a.At text rest)
    (hb : b.At text after) : a = b ∧ rest = after := by
  obtain ⟨c, tail, rfl, _⟩ := ha.cons
  have h := ha.next_eq.symm.trans hb.next_eq
  exact ⟨Atom.token_inj (Prod.mk.inj h).1, (Prod.mk.inj h).2⟩

end Grammar

end EggLang
