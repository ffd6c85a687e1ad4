import EggLang.Text.Blank

/-!
# Tokens of a stripped program

A stripped text is a sequence of quoted strings, digit runs, words, parentheses and commas. A
digit run is a number only when no letter, digit or underscore follows it, so `12ab` is a word.
At anything else, such as a quote without its partner, the sequence ends in a `junk` token.
-/

namespace EggLang

inductive Token where
  | quoted (content : Bytes)
  | digits (ds : Bytes)
  | word (name : Bytes)
  | openParen
  | closeParen
  | comma
  | junk
  deriving DecidableEq, Repr

/-- A token and the index of its first byte in the stripped text. -/
structure Lexeme where
  index : Nat
  token : Token
  deriving DecidableEq, Repr

namespace Token

/-- Whether a byte right after a digit run makes it part of a word. -/
def extendsNumber (b : UInt8) : Bool :=
  b = 95 || Bytes.isDigit b || (97 ≤ b && b ≤ 122) || (65 ≤ b && b ≤ 90)

/-- Whether a character has a meaning of its own, so that no word holds it. -/
def isReserved (c : Char) : Bool := c ∈ ['(', ')', ',', '#', '"']

/-- Whether a glyph belongs to a word. A stray byte does. -/
def isWordGlyph (g : Glyph) : Bool := !(g.isIn Text.isBlank || g.isIn isReserved)

def wordRun (text : Bytes) : Bytes := Text.ofGlyphs ((Text.glyphs text).takeWhile isWordGlyph)

/-- Whether a digit run before this text ends there. -/
def endsNumber : Bytes → Bool
  | [] => true
  | b :: _ => !extendsNumber b

/-- The number or the word at the front of a text, and the text after it. -/
def numberOrWord (text : Bytes) : Token × Bytes :=
  if text.takeWhile Bytes.isDigit ≠ [] ∧ endsNumber (text.dropWhile Bytes.isDigit) then
    (.digits (text.takeWhile Bytes.isDigit), text.dropWhile Bytes.isDigit)
  else if wordRun text = [] then (.junk, [])
  else (.word (wordRun text), text.drop (wordRun text).length)

/-- The token at the front of a text that is not empty, and the text after it. -/
def next (b : UInt8) (rest : Bytes) : Token × Bytes :=
  if b = 40 then (.openParen, rest)
  else if b = 41 then (.closeParen, rest)
  else if b = 44 then (.comma, rest)
  else if b = 34 then
    match Bytes.cut [34] rest with
    | some (content, after) => (.quoted content, after)
    | none => (.junk, [])
  else numberOrWord (b :: rest)

end Token

/-- What follows the first quote of a text is shorter than the text. -/
theorem Token.cut_length {text before after : Bytes}
    (h : Bytes.cut [34] text = some (before, after)) : after.length < text.length := by
  induction text generalizing before after with
  | nil => simp [Bytes.cut] at h
  | cons c text ih =>
    unfold Bytes.cut at h
    split at h
    · rename_i rest heq
      simp only [Bytes.dropLead?] at heq
      split at heq
      · simp_all
      · cases heq
    · obtain ⟨⟨p, q⟩, hq, heq⟩ := Option.map_eq_some_iff.1 h
      cases heq
      have := ih hq
      simp only [List.length_cons]
      omega

/-- Reading a number or a word uses up at least one byte. -/
theorem Token.numberOrWord_length {text : Bytes} (h : text ≠ []) :
    (Token.numberOrWord text).2.length < text.length := by
  have hlen : 0 < text.length := List.length_pos_iff.2 h
  unfold Token.numberOrWord
  split
  · rename_i hd
    have hsum := congrArg List.length
      (List.takeWhile_append_dropWhile (p := Bytes.isDigit) (l := text))
    have hpos := List.length_pos_iff.2 hd.1
    simp only [List.length_append] at hsum
    show (text.dropWhile Bytes.isDigit).length < text.length
    omega
  · split
    · simpa using hlen
    · rename_i hw
      have hpos := List.length_pos_iff.2 hw
      simp only [List.length_drop]
      omega

/-- Reading one token uses up at least one byte. -/
theorem Token.next_length (b : UInt8) (rest : Bytes) :
    (Token.next b rest).2.length < (b :: rest).length := by
  unfold Token.next
  repeat' split
  all_goals try (simp only [List.length_cons, List.length_nil]; omega)
  · rename_i h
    have := cut_length h
    simp only [List.length_cons]
    omega
  · exact numberOrWord_length (by simp)

/-- The lexemes of a text whose first byte has the given index. -/
def Lexeme.scan (index : Nat) (text : Bytes) : List Lexeme :=
  match text with
  | [] => []
  | b :: rest =>
    let read := Token.next b rest
    ⟨index, read.1⟩ :: Lexeme.scan (index + (rest.length + 1 - read.2.length)) read.2
termination_by text.length
decreasing_by exact Token.next_length b rest

end EggLang
