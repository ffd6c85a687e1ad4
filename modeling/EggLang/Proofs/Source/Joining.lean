import EggLang.Proofs.Source.Continuation

/-!
# Lines joined by blanks

A line feed made a blank is dropped as before, but it no longer ends a comment. So the joined text
keeps what the text keeps up to the first line feed that ends a comment, and what is behind that is
inside the comment, up to a line break of another kind.
-/

namespace EggLang

namespace Text

/-- A line feed as a blank, another glyph as it is. -/
def joinGlyph (g : Glyph) : Glyph := if g = .char '\n' then .char ' ' else g

theorem joinGlyph_of_ne {g : Glyph} (other : g ≠ .char '\n') : joinGlyph g = g := if_neg other

theorem width_joinGlyph (g : Glyph) : (joinGlyph g).width = g.width := by
  by_cases feed : g = .char '\n'
  · subst feed
    rfl
  · rw [joinGlyph_of_ne feed]

/-- The text with each line feed made a blank. -/
def joinLines (text : Bytes) : Bytes := Bytes.replaceByte 10 32 text

theorem joinLines_append (front rest : Bytes) :
    joinLines (front ++ rest) = joinLines front ++ joinLines rest := List.map_append

theorem joinLines_of_not_mem {text : Bytes} (none : 10 ∉ text) : joinLines text = text := by
  have each : ∀ b ∈ text, (if b = 10 then 32 else b) = b := by
    intro b among
    refine if_neg ?_
    rintro rfl
    exact none among
  exact (List.map_congr_left each).trans (List.map_id text)

/-- Joining lines makes no character of bytes that belong to none. -/
theorem lead?_joinLines {b : UInt8} {rest : Bytes} (h : lead? (b :: rest) = none) :
    lead? (b :: joinLines rest) = none := by
  have high : 0x80 ≤ b.toNat := lead?_eq_none_ascii h
  cases read : lead? (b :: joinLines rest) with
  | none => rfl
  | some c =>
    -- the bytes of the character are no line feeds, so they are there without joining
    obtain ⟨after, whole⟩ := eq_encode_of_lead? read
    obtain ⟨first, tail, encoding⟩ : ∃ first tail, String.utf8EncodeChar c = first :: tail :=
      List.exists_cons_of_length_pos (by simpa using Char.utf8Size_pos c)
    rw [encoding] at whole
    obtain ⟨rfl, behind⟩ := List.cons.inj whole
    have bytes : ∀ a ∈ tail, 0x80 ≤ a.toNat := by
      rcases encode_single_or_high c with ⟨a, single⟩ | all
      · rw [encoding] at single
        obtain ⟨-, rfl⟩ := List.cons.inj single
        exact fun _ none => nomatch none
      · exact fun a among => all a (encoding ▸ List.mem_cons_of_mem _ among)
    obtain ⟨here, later, rfl, same, -⟩ := List.map_eq_append_iff.1 behind
    have unchanged : here = tail := by
      rw [← same]
      refine ((List.map_congr_left fun a among => ?_).trans (List.map_id here)).symm
      refine if_neg fun feed => ?_
      have blank : (32 : UInt8) ∈ tail := by
        rw [← same]
        exact List.mem_map.2 ⟨a, among, if_pos feed⟩
      exact absurd (bytes 32 blank) (by decide)
    rw [unchanged, ← List.cons_append, ← encoding, lead?_encode] at h
    cases h

theorem glyphs_joinLines (text : Bytes) :
    glyphs (joinLines text) = (glyphs text).map joinGlyph := by
  induction text using glyph_induction with
  | nil => rfl
  | char c rest ih =>
    rw [joinLines_append, glyphs_encode_append, List.map_cons, ← ih]
    by_cases feed : c = '\n'
    · subst feed
      exact glyphs_encode_append ' ' _
    · have none : 10 ∉ String.utf8EncodeChar c := fun among =>
        feed (encode_ascii among (by decide)).2
      rw [joinLines_of_not_mem none, glyphs_encode_append,
        joinGlyph_of_ne fun same => feed (Glyph.char.inj same)]
  | stray b rest h ih =>
    have high : 0x80 ≤ b.toNat := lead?_eq_none_ascii h
    have other : b ≠ 10 := by
      rintro rfl
      exact absurd high (by decide)
    have joined : joinLines (b :: rest) = b :: joinLines rest :=
      congrArg (· :: joinLines rest) (if_neg other)
    have alone : joinGlyph (.stray b) = .stray b := joinGlyph_of_ne (by simp)
    rw [joined, glyphs_stray (lead?_joinLines h), glyphs_stray h, List.map_cons, ih, alone]

/-- What stands before some glyphs of a text is read as the glyphs before them. -/
theorem glyphs_of_append_left {text : Bytes} {gs hs : List Glyph} (h : glyphs text = gs ++ hs) :
    glyphs (ofGlyphs gs) = gs := by
  induction gs generalizing text with
  | nil => rfl
  | cons g gs ih =>
    induction text using glyph_induction with
    | nil => simp at h
    | char c rest _ =>
      rw [glyphs_encode_append] at h
      obtain ⟨rfl, later⟩ := List.cons.inj h
      rw [ofGlyphs, List.flatMap_cons, ← ofGlyphs, Glyph.bytes, glyphs_encode_append, ih later]
    | stray b rest alone _ =>
      rw [glyphs_stray alone] at h
      obtain ⟨rfl, later⟩ := List.cons.inj h
      have front : lead? (b :: ofGlyphs gs) = none := by
        cases read : lead? (b :: ofGlyphs gs) with
        | none => rfl
        | some c =>
          obtain ⟨after, whole⟩ := eq_encode_of_lead? read
          have text : b :: rest = String.utf8EncodeChar c ++ (after ++ ofGlyphs hs) := by
            have behind : rest = ofGlyphs gs ++ ofGlyphs hs := by
              rw [← ofGlyphs_append, ← ofGlyphs_glyphs rest, later]
              rfl
            rw [← List.append_assoc, ← whole, behind]
            rfl
          rw [text, lead?_encode] at alone
          cases alone
      have bytes : ofGlyphs (.stray b :: gs) = b :: ofGlyphs gs := rfl
      rw [bytes, glyphs_stray front, ih later]

/-- A line feed is read as itself, with what is before it and behind it. -/
theorem glyphs_append_feed (front rest : Bytes) :
    glyphs (front ++ 10 :: rest) = glyphs front ++ .char '\n' :: glyphs rest := by
  have ascii : ∀ a ∈ (10 :: rest).head?, a.toNat < 0x80 := by
    rintro a ⟨⟩
    decide
  rw [glyphs_append ascii]
  exact congrArg (glyphs front ++ ·) (glyphs_encode_append '\n' rest)

/-- The glyphs around a line feed are those of the bytes around it. -/
theorem split_of_glyphs {text : Bytes} {gs hs : List Glyph}
    (h : glyphs text = gs ++ .char '\n' :: hs) :
    ∃ front rest, text = front ++ 10 :: rest ∧ glyphs front = gs ∧ glyphs rest = hs := by
  refine ⟨ofGlyphs gs, ofGlyphs hs, ?_, glyphs_of_append_left h, ?_⟩
  · rw [← ofGlyphs_glyphs text, h, ofGlyphs_append]
    rfl
  · have whole : glyphs text = (gs ++ [.char '\n']) ++ hs := by simpa using h
    exact glyphs_of_append whole

end Text

namespace Stripped

variable {mode : Mode} {offset : Nat} {g : Glyph} {gs front rest : List Glyph}

/-- Where a pass over a text stands at its end. -/
def modeAfter (text : Bytes) : Mode := (Text.glyphs text).foldl Mode.after .code

/-- A text with no line break but line feeds. -/
def FeedsOnly (text : Bytes) : Prop :=
  ∀ g ∈ Text.glyphs text, g.isIn Text.isLineBreak = true → g = .char '\n'

/-- Behind a line feed that ends a comment nothing is kept, and there is no line break of another
kind. -/
def Joinable (text : Bytes) : Prop :=
  ∀ front rest, text = front ++ 10 :: rest → modeAfter front = .comment →
    strip rest = [] ∧ FeedsOnly rest

instance (text : Bytes) : Decidable (FeedsOnly text) :=
  inferInstanceAs (Decidable (∀ g ∈ Text.glyphs text, _ → _))

theorem joinable_iff (text : Bytes) : Joinable text ↔ ∀ i < text.length, text[i]? = some 10 →
    modeAfter (text.take i) = .comment →
      strip (text.drop (i + 1)) = [] ∧ FeedsOnly (text.drop (i + 1)) := by
  constructor
  · intro joinable i inside feed
    refine joinable _ _ ?_
    obtain ⟨_, same⟩ := List.getElem?_eq_some_iff.1 feed
    rw [← same, ← List.drop_eq_getElem_cons inside, List.take_append_drop]
  · rintro each front rest rfl
    have here := each front.length (by simp) (by simp)
    simpa using here

instance (text : Bytes) : Decidable (Joinable text) := decidable_of_iff' _ (joinable_iff text)

/-! ## One glyph -/

theorem survivors_cons (mode : Mode) (offset : Nat) (g : Glyph) (gs : List Glyph) :
    survivors mode offset (g :: gs)
      = survivors mode offset [g] ++ survivors (mode.after g) (offset + g.width) gs := by
  have whole := survivors_append mode offset [g] gs
  have width : (Text.ofGlyphs [g]).length = g.width := by
    rw [Text.ofGlyphs, List.flatMap_singleton, Glyph.width]
  rwa [width] at whole

/-- Which bytes are kept does not depend on the offset of the first. -/
theorem map_byte_survivors (mode : Mode) (offset offset' : Nat) (gs : List Glyph) :
    (survivors mode offset gs).map Kept.byte = (survivors mode offset' gs).map Kept.byte := by
  induction gs generalizing mode offset offset' with
  | nil => cases mode <;> rfl
  | cons g gs ih =>
    have first : (survivors mode offset [g]).map Kept.byte
        = (survivors mode offset' [g]).map Kept.byte := by
      cases mode <;> simp only [survivors]
      all_goals repeat' split
      all_goals simp [map_byte_keep]
    rw [survivors_cons mode offset, survivors_cons mode offset', List.map_append, List.map_append,
      first, ih _ (offset + g.width) (offset' + g.width)]

/-- A line feed is dropped as a blank is, but where it ends a comment. -/
theorem survivors_joinGlyph (offset : Nat) (stays : mode = .comment → g ≠ .char '\n') :
    survivors mode offset [Text.joinGlyph g] = survivors mode offset [g]
      ∧ mode.after (Text.joinGlyph g) = mode.after g := by
  by_cases feed : g = .char '\n'
  · subst feed
    cases mode with
    | code | opening => exact ⟨rfl, rfl⟩
    | comment => exact absurd rfl (stays rfl)
  · rw [Text.joinGlyph_of_ne feed]
    exact ⟨rfl, rfl⟩

/-- Joined lines stay in a comment that no other line break ends. -/
theorem survivors_comment_joined
    (only : ∀ g ∈ gs, g.isIn Text.isLineBreak = true → g = .char '\n') (offset : Nat) :
    survivors .comment offset (gs.map Text.joinGlyph) = [] := by
  induction gs generalizing offset with
  | nil => rfl
  | cons g gs ih =>
    obtain ⟨first, others⟩ := List.forall_mem_cons.1 only
    have inside : (Text.joinGlyph g).isIn Text.isLineBreak = false := by
      by_cases feed : g = .char '\n'
      · subst feed
        rfl
      · rw [Text.joinGlyph_of_ne feed]
        simpa using fun breaks => feed (first breaks)
    rw [List.map_cons, survivors, inside]
    exact ih others _

/-! ## All glyphs -/

/-- Joined lines keep the same bytes at the same offsets, if nothing is lost behind a comment. -/
theorem survivors_joined (lossless : ∀ front rest, gs = front ++ .char '\n' :: rest →
      front.foldl Mode.after mode = .comment → (survivors .code 0 rest).map Kept.byte = []
        ∧ ∀ g ∈ rest, g.isIn Text.isLineBreak = true → g = .char '\n') (offset : Nat) :
    survivors mode offset (gs.map Text.joinGlyph) = survivors mode offset gs := by
  induction gs generalizing mode offset with
  | nil => rfl
  | cons g gs ih =>
    rw [List.map_cons, survivors_cons, survivors_cons mode offset g, Text.width_joinGlyph]
    by_cases ends : mode = .comment ∧ g = .char '\n'
    · obtain ⟨rfl, rfl⟩ := ends
      obtain ⟨nothing, only⟩ := lossless [] gs rfl rfl
      have after : survivors .code (offset + (Glyph.char '\n').width) gs = [] := by
        rw [map_byte_survivors .code 0 (offset + (Glyph.char '\n').width)] at nothing
        exact List.map_eq_nil_iff.1 nothing
      exact (survivors_comment_joined only _).trans after.symm
    · obtain ⟨same, mode'⟩ := survivors_joinGlyph offset
        (fun comment feed => ends ⟨comment, feed⟩)
      rw [same, mode', ih fun front rest split into => lossless (g :: front) rest
        (by rw [split]; rfl) into]

/-- Where a line feed ends a comment, joined lines keep no more than what is before it. -/
theorem survivors_joined_front
    (only : ∀ g ∈ rest, g.isIn Text.isLineBreak = true → g = .char '\n')
    (only' : ∀ g ∈ front, g.isIn Text.isLineBreak = true → g = .char '\n')
    (ends : front.foldl Mode.after mode = .comment) (offset : Nat) :
    survivors mode offset ((front ++ .char '\n' :: rest).map Text.joinGlyph)
      <+: survivors mode offset front := by
  induction front generalizing mode offset with
  | nil =>
    obtain rfl : mode = .comment := ends
    have inside := survivors_comment_joined (List.forall_mem_cons.2 ⟨fun _ => rfl, only⟩) offset
    rw [List.nil_append, inside]
    exact List.nil_prefix
  | cons g front ih =>
    obtain ⟨first, others⟩ := List.forall_mem_cons.1 only'
    by_cases earlier : mode = .comment ∧ g = .char '\n'
    · obtain ⟨rfl, rfl⟩ := earlier
      have all : ∀ h ∈ .char '\n' :: front ++ .char '\n' :: rest,
          h.isIn Text.isLineBreak = true → h = .char '\n' :=
        List.forall_mem_append.2 ⟨only', List.forall_mem_cons.2 ⟨fun _ => rfl, only⟩⟩
      rw [survivors_comment_joined all]
      exact List.nil_prefix
    · obtain ⟨same, mode'⟩ := survivors_joinGlyph offset
        (fun comment feed => earlier ⟨comment, feed⟩)
      rw [List.cons_append, List.map_cons, survivors_cons, same, mode', Text.width_joinGlyph,
        survivors_cons mode offset g front]
      exact (List.prefix_append_right_inj _).2 (ih others ends _)

/-! ## Texts -/

theorem kept_append_feed (front rest : Bytes) :
    (ofSource (front ++ 10 :: rest)).kept = (ofSource front).kept
      ++ survivors (modeAfter front) front.length (.char '\n' :: Text.glyphs rest) := by
  rw [ofSource, ofSource, Text.glyphs_append_feed, survivors_append, Text.ofGlyphs_glyphs,
    Nat.zero_add, modeAfter]

/-- Where nothing is lost, joined lines keep the same bytes at the same offsets. -/
theorem kept_joinLines {text : Bytes} (joinable : Joinable text) :
    (ofSource (Text.joinLines text)).kept = (ofSource text).kept := by
  rw [ofSource, ofSource, Text.glyphs_joinLines]
  refine survivors_joined (fun gs hs split into => ?_) 0
  obtain ⟨front, rest, whole, rfl, rfl⟩ := Text.split_of_glyphs split
  exact joinable front rest whole into

theorem FeedsOnly.append_feed {front rest : Bytes} (only : FeedsOnly (front ++ 10 :: rest)) :
    FeedsOnly front ∧ FeedsOnly rest := by
  unfold FeedsOnly at only
  rw [Text.glyphs_append_feed, List.forall_mem_append, List.forall_mem_cons] at only
  exact ⟨only.1, only.2.2⟩

theorem kept_joinLines_feed {front rest : Bytes} (only : FeedsOnly (front ++ 10 :: rest))
    (ends : modeAfter front = .comment) :
    (ofSource (Text.joinLines (front ++ 10 :: rest))).kept <+: (ofSource front).kept := by
  obtain ⟨before, behind⟩ := only.append_feed
  rw [ofSource, ofSource, Text.glyphs_joinLines, Text.glyphs_append_feed]
  exact survivors_joined_front behind before ends 0

/-- Joined lines keep the front of what the text keeps, if it has only line feeds. -/
theorem kept_joinLines_front {text : Bytes} (only : FeedsOnly text) :
    (ofSource (Text.joinLines text)).kept <+: (ofSource text).kept := by
  by_cases ends : ∃ front rest, text = front ++ 10 :: rest ∧ modeAfter front = .comment
  · obtain ⟨front, rest, rfl, ends⟩ := ends
    rw [kept_append_feed]
    exact (kept_joinLines_feed only ends).trans (List.prefix_append _ _)
  · have whole := kept_joinLines fun front rest split into => absurd ⟨front, rest, split, into⟩ ends
    exact whole ▸ List.prefix_refl _

/-- Joined lines that keep as many bytes as the text lose nothing. -/
theorem joinable_of_length {text : Bytes} (only : FeedsOnly text)
    (full : (ofSource text).kept.length ≤ (ofSource (Text.joinLines text)).kept.length) :
    Joinable text := by
  rintro front rest rfl ends
  have short := kept_joinLines_feed only ends
  have breaks : (Glyph.char '\n').isIn Text.isLineBreak = true := rfl
  have all := kept_append_feed front rest
  rw [ends, survivors, if_pos breaks] at all
  have none : survivors .code (front.length + (Glyph.char '\n').width) (Text.glyphs rest) = [] := by
    have lengths := congrArg List.length all
    have bound := short.length_le
    rw [List.length_append] at lengths
    exact List.length_eq_zero_iff.1 (by omega)
  refine ⟨?_, only.append_feed.2⟩
  rw [strip, text, ofSource,
    map_byte_survivors .code 0 (front.length + (Glyph.char '\n').width), none]
  rfl

end Stripped

end EggLang
