import EggLang.Proofs.Expr.RoundTrip

/-!
# Scanning a text that goes on

A token ends where the next one cannot be part of it, so text added to a text changes at most the
last token. What stripping leaves of whole characters has a token at every place but one: a quote
without its partner is none.
-/

namespace EggLang

namespace Grammar

/-- Whole characters that stripping leaves. -/
def Clean (text : Bytes) : Prop :=
  ∀ g ∈ Text.glyphs text, ∃ c, g = .char c ∧ Stripped.Stays c

theorem clean_ofChars {cs : List Char} (h : ∀ c ∈ cs, Stripped.Stays c) :
    Clean (Text.ofChars cs) := by
  intro g hg
  rw [Text.glyphs_ofChars] at hg
  obtain ⟨c, hc, rfl⟩ := List.mem_map.mp hg
  exact ⟨c, rfl, h c hc⟩

theorem Clean.glyphs_append {text : Bytes} (h : Clean text) (more : Bytes) :
    Text.glyphs (text ++ more) = Text.glyphs text ++ Text.glyphs more := by
  induction text using Text.glyph_induction with
  | nil => rfl
  | char c rest ih =>
    have hrest : Clean rest := fun g hg => h g (by
      rw [Text.glyphs_encode_append]
      exact List.mem_cons_of_mem _ hg)
    rw [List.append_assoc, Text.glyphs_encode_append, Text.glyphs_encode_append, ih hrest]
    rfl
  | stray b rest hb _ =>
    obtain ⟨c, hc, _⟩ := h (.stray b) (by rw [Text.glyphs_stray hb]; exact List.mem_cons_self)
    cases hc

/-- What follows a character of one byte is clean. -/
theorem Clean.behind {front rest : Bytes} {b : UInt8} (h : Clean (front ++ b :: rest))
    (ascii : b.toNat < 0x80) : Clean rest := by
  intro g hg
  refine h g ?_
  rw [Text.glyphs_append (by rintro a ⟨⟩; exact ascii), Text.glyphs_ascii ascii]
  exact List.mem_append_right _ (List.mem_cons_of_mem _ hg)

theorem Clean.tail {rest : Bytes} {b : UInt8} (h : Clean (b :: rest)) (ascii : b.toNat < 0x80) :
    Clean rest :=
  @Clean.behind [] rest b h ascii

theorem Atom.At.clean {atom : Atom} {text rest : Bytes} (h : atom.At text rest)
    (clean : Clean text) : Clean rest := by
  cases h with
  | quoted _ => exact clean.behind (by decide)
  | @digits _ ds _ hn =>
    obtain ⟨rfl, hne, hdigit, _⟩ := hn
    obtain ⟨init, d, rfl⟩ := List.eq_nil_or_concat ds |>.resolve_left hne
    have hd := (hdigit d (by simp)).2
    rw [List.concat_eq_append, List.append_assoc, List.singleton_append] at clean
    refine clean.behind ?_
    rw [UInt8.le_iff_toNat_le] at hd
    exact Nat.lt_of_le_of_lt hd (by decide)
  | word _ hrun _ =>
    obtain ⟨gs, hs, hglyphs, _, _, _, rfl⟩ := hrun
    intro g hg
    rw [Text.glyphs_of_append hglyphs] at hg
    exact clean g (hglyphs ▸ List.mem_append_right gs hg)

/-- A number at the front of a text that goes on is one without what is added. -/
theorem NumberAt.of_append {text more ds after : Bytes} (hne : text ≠ [])
    (h : NumberAt (text ++ more) ds after) : ∃ ds' after', NumberAt text ds' after' := by
  obtain ⟨htext, hds, hdigit, hb⟩ := h
  rcases List.append_eq_append_iff.mp htext with ⟨mid, rfl, _⟩ | ⟨mid, rfl, rfl⟩
  · -- all of the text is digits
    exact ⟨text, [], (List.append_nil _).symm, hne,
      fun b hb => hdigit b (List.mem_append_left _ hb), by simp⟩
  · refine ⟨ds, mid, rfl, hds, hdigit, ?_⟩
    cases mid with
    | nil => simp
    | cons b mid => exact hb

/-- An atom stays one when text is added behind what follows it, or behind the atom itself if the
text added cannot go on the atom. -/
theorem Atom.At.append {atom : Atom} {text rest more : Bytes} (h : atom.At text rest)
    (clean : Clean text) (apart : rest ≠ [] ∨ Delimited more) :
    atom.At (text ++ more) (rest ++ more) := by
  cases h with
  | quoted hq =>
    rw [List.append_assoc, List.cons_append]
    exact .quoted hq
  | digits hn =>
    obtain ⟨rfl, hne, hdigit, hb⟩ := hn
    refine .digits ⟨List.append_assoc _ _ _, hne, hdigit, ?_⟩
    cases rest with
    | nil => exact (apart.resolve_left (by simp)).not_isWordByte
    | cons b rest => exact hb
  | word hne hrun hno =>
    have htext : text ≠ [] := by
      rintro rfl
      obtain ⟨gs, hs, hglyphs, _, _, rfl, _⟩ := hrun
      have hnil := (List.append_eq_nil_iff.mp hglyphs.symm).1
      rw [hnil] at hne
      exact hne rfl
    refine .word hne ?_ fun ⟨ds, after, hn⟩ => hno (hn.of_append htext)
    obtain ⟨gs, hs, hglyphs, hall, hstop, rfl, rfl⟩ := hrun
    refine ⟨gs, hs ++ Text.glyphs more, ?_, hall, ?_, rfl, ?_⟩
    · rw [clean.glyphs_append, hglyphs, List.append_assoc]
    · cases hs with
      | nil => exact (apart.resolve_left (by simp [Text.ofGlyphs])).not_inWord
      | cons g hs => exact hstop
    · rw [Text.ofGlyphs_append, Text.ofGlyphs_glyphs]

/-- A number or a word starts at each byte that has no meaning of its own. -/
theorem numberOrWord_ne_junk {b : UInt8} {rest : Bytes} (clean : Clean (b :: rest))
    (hb : b ∉ reserved) : (Token.numberOrWord (b :: rest)).1 ≠ .junk := by
  intro hjunk
  have hrun : Token.wordRun (b :: rest) = [] := by
    unfold Token.numberOrWord at hjunk
    split at hjunk
    · cases hjunk
    · split at hjunk
      · assumption
      · cases hjunk
  have htext := Text.ofGlyphs_glyphs (b :: rest)
  cases hglyphs : Text.glyphs (b :: rest) with
  | nil =>
    rw [hglyphs] at htext
    cases htext
  | cons g gs =>
    obtain ⟨c, rfl, hblank, _⟩ := clean g (by rw [hglyphs]; exact .head _)
    rw [hglyphs] at htext
    by_cases hword : Token.isWordGlyph (.char c) = true
    · rw [Token.wordRun, hglyphs, List.takeWhile_cons_of_pos hword] at hrun
      exact absurd (List.append_eq_nil_iff.mp hrun).1 (String.utf8EncodeChar_ne_nil)
    · have hspecial : c ∈ ['(', ')', ',', '#', '"'] := by
        simpa only [Token.isWordGlyph, Glyph.isIn, hblank, Token.isReserved, Bool.false_or,
          Bool.not_eq_true', decide_eq_false_iff_not, Decidable.not_not] using hword
      simp only [List.mem_cons, List.not_mem_nil, or_false] at hspecial
      refine hb ?_
      rcases hspecial with rfl | rfl | rfl | rfl | rfl <;>
      · rw [← (List.cons.inj htext).1]
        decide

/-- In whole characters only a quote without its partner is no token. -/
theorem next_junk {b : UInt8} {rest : Bytes} (clean : Clean (b :: rest))
    (h : (Token.next b rest).1 = .junk) : b = 34 ∧ 34 ∉ rest := by
  by_cases hquote : b = 34
  · subst hquote
    refine ⟨rfl, fun hmem => ?_⟩
    obtain ⟨content, after, rfl, hfirst⟩ := List.eq_append_cons_of_mem hmem
    have hatom : (Atom.quoted content).At (34 :: (content ++ 34 :: after)) after := .quoted hfirst
    rw [hatom.next_eq] at h
    cases h
  · have hall : b ∉ reserved := by
      simp only [reserved, List.mem_cons, List.not_mem_nil, or_false]
      rintro (rfl | rfl | rfl | rfl | rfl)
      · cases h
      · cases h
      · cases h
      · obtain ⟨c, hc, hstays⟩ := clean (.char '#') (by
          rw [Text.glyphs_ascii (by decide)]
          exact .head _)
        exact hstays.2 (Glyph.char.inj hc).symm
      · exact hquote rfl
    rw [next_eq_numberOrWord hall] at h
    exact absurd h (numberOrWord_ne_junk clean hall)

/-- Where a text holds no token, no more lexemes follow. -/
theorem next_rest_of_junk {b : UInt8} {rest : Bytes} (h : (Token.next b rest).1 = .junk) :
    (Token.next b rest).2 = [] := by
  obtain ⟨_, hn⟩ | ⟨_, hn⟩ | ⟨_, hn⟩ | ⟨atom, _, _, hn⟩ | hn := next_cases b rest
  · rw [hn] at h
    cases h
  · rw [hn] at h
    cases h
  · rw [hn] at h
    cases h
  · rw [hn] at h
    cases atom <;> cases h
  · rw [hn]

/-- The first lexeme of a text is the same when text is added behind what follows it, or behind
it if the text added cannot go on it. -/
theorem scan_token {b : UInt8} {rest : Bytes} (clean : Clean (b :: rest))
    (h : (Token.next b rest).1 ≠ .junk) :
    ∃ front after, b :: rest = front ++ after ∧ front ≠ [] ∧ Clean after ∧
      ∀ index more, (after ≠ [] ∨ Delimited more) →
        Lexeme.scan index (b :: rest ++ more) = ⟨index, (Token.next b rest).1⟩ ::
          Lexeme.scan (index + front.length) (after ++ more) := by
  obtain ⟨rfl, _⟩ | ⟨rfl, _⟩ | ⟨rfl, _⟩ | ⟨atom, after, ha, hn⟩ | hn := next_cases b rest
  · exact ⟨[40], rest, rfl, by simp, clean.tail (by decide),
      fun index more _ => Lexeme.scan_open index (rest ++ more)⟩
  · exact ⟨[41], rest, rfl, by simp, clean.tail (by decide),
      fun index more _ => Lexeme.scan_close index (rest ++ more)⟩
  · exact ⟨[44], rest, rfl, by simp, clean.tail (by decide),
      fun index more _ => Lexeme.scan_comma index (rest ++ more)⟩
  · obtain ⟨c, front, hwritten, _⟩ := ha.written_cons
    refine ⟨atom.written, after, ha.text_eq, by simp [hwritten], ha.clean clean, ?_⟩
    intro index more apart
    rw [Lexeme.scan_atom (ha.append clean apart), hn]
  · rw [hn] at h
    exact absurd rfl h

/-- Text that cannot go on a token adds its lexemes to those of a text. -/
theorem scan_append {text more : Bytes} (clean : Clean text) (delimited : Delimited more)
    {index : Nat} (tokens : ∀ x ∈ Lexeme.scan index text, x.token ≠ .junk) :
    Lexeme.scan index (text ++ more) =
      Lexeme.scan index text ++ Lexeme.scan (index + text.length) more := by
  induction hn : text.length using Nat.strongRecOn generalizing index text with
  | ind n ih =>
    cases text with
    | nil =>
      subst hn
      simp [Lexeme.scan]
    | cons b rest =>
      have hfirst : (Token.next b rest).1 ≠ .junk :=
        tokens ⟨index, _⟩ (by rw [Lexeme.scan_cons]; exact List.mem_cons_self)
      obtain ⟨front, after, hsplit, hne, hclean, hscan⟩ := scan_token clean hfirst
      have hlength := congrArg List.length hsplit
      have hpos := List.length_pos_iff.mpr hne
      rw [List.length_append] at hlength
      have halone := hscan index [] (.inr (by simp [Delimited]))
      rw [List.append_nil, List.append_nil] at halone
      -- what follows the first token is shorter, and its lexemes are some of those given
      have hlater := ih after.length (by omega) hclean
        (fun x hx => tokens x (by rw [halone]; exact List.mem_cons_of_mem _ hx)) rfl
      rw [hscan index more (.inr delimited), halone, hlater, List.cons_append]
      rw [show index + front.length + after.length = index + n by omega]

/-- Up to a lexeme of a text, the lexemes are the same when text is added to it. -/
theorem scan_front {text : Bytes} (clean : Clean text) {index : Nat} {front back : List Lexeme}
    {x : Lexeme} (h : Lexeme.scan index text = front ++ x :: back) :
    ∃ before b rest, text = before ++ b :: rest ∧ Clean (b :: rest) ∧
      x = ⟨index + before.length, (Token.next b rest).1⟩ ∧
      ∀ more, Lexeme.scan index (text ++ more) =
        front ++ Lexeme.scan (index + before.length) (b :: rest ++ more) := by
  induction front generalizing index text with
  | nil =>
    cases text with
    | nil => simp [Lexeme.scan] at h
    | cons b rest =>
      rw [Lexeme.scan_cons] at h
      exact ⟨[], b, rest, rfl, clean, (List.cons.inj h).1.symm, fun _ => rfl⟩
  | cons y front ih =>
    cases text with
    | nil => simp [Lexeme.scan] at h
    | cons b rest =>
      have hfirst : (Token.next b rest).1 ≠ .junk := by
        intro hjunk
        rw [Lexeme.scan_cons, next_rest_of_junk hjunk, Lexeme.scan] at h
        simp at h
      obtain ⟨written, after, hsplit, _, hclean, hscan⟩ := scan_token clean hfirst
      have halone := hscan index [] (.inr (by simp [Delimited]))
      rw [List.append_nil, List.append_nil] at halone
      obtain ⟨hy, hrest⟩ := List.cons.inj (halone.symm.trans h)
      obtain ⟨before, c, tail, rfl, hclean', hx, hall⟩ := ih hclean hrest
      refine ⟨written ++ before, c, tail, by rw [hsplit, List.append_assoc], hclean', ?_, ?_⟩
      · rw [hx, List.length_append, Nat.add_assoc]
      · intro more
        rw [hscan index more (.inl (by simp)), hall, hy, List.length_append, Nat.add_assoc]
        rfl

end Grammar

end EggLang
