import EggLang.Expr.Parser
import EggLang.Proofs.Text.Utf8

/-!
# The grammar of programs

The grammar is stated on the bytes of a stripped text, without the reader and its tokens:

    expr := atom call*        call := '(' args ')'        args := ε | expr | expr ',' args

so an argument list is `[expr {',' expr} [',']]`. An atom may depend on what follows it, so a
derivation relates a text to the text after what it derives. Derivations are data: a `Phrase` says
which rules were used, and a text has at most one phrase that derives all of it.
-/

namespace EggLang.Grammar

/-- The bytes that may not follow a number: letters, digits and the underscore. -/
def IsWordByte (b : UInt8) : Prop :=
  65 ≤ b ∧ b ≤ 90 ∨ 97 ≤ b ∧ b ≤ 122 ∨ 48 ≤ b ∧ b ≤ 57 ∨ b = 95

/-- A text starts with a run of digits that no word byte follows. -/
structure NumberAt (text digits rest : Bytes) : Prop where
  text_eq : text = digits ++ rest
  nonempty : digits ≠ []
  digit : ∀ b ∈ digits, 48 ≤ b ∧ b ≤ 57
  boundary : ∀ b ∈ rest.head?, ¬ IsWordByte b

/-- A glyph that may stand in a word: a character that is neither blank nor reserved, or a byte
that belongs to no character. -/
def InWord (g : Glyph) : Prop :=
  ∀ c, g = .char c → Text.isBlank c = false ∧ c ∉ ['(', ')', ',', '#', '"']

/-- A text starts with a run of glyphs that may stand in a word, and the run is maximal. -/
def RunAt (text run rest : Bytes) : Prop :=
  ∃ gs hs, Text.glyphs text = gs ++ hs ∧ (∀ g ∈ gs, InWord g) ∧ (∀ g ∈ hs.head?, ¬ InWord g) ∧
    run = Text.ofGlyphs gs ∧ rest = Text.ofGlyphs hs

/-- The phrases that are not calls. -/
inductive Atom where
  | quoted (content : Bytes)
  | digits (ds : Bytes)
  | word (name : Bytes)
  deriving DecidableEq, Repr

/-- `atom.At text rest`: the text starts with the atom, and `rest` is what follows it. -/
inductive Atom.At : Atom → Bytes → Bytes → Prop where
  | quoted {content rest : Bytes} : 34 ∉ content →
      At (.quoted content) (34 :: content ++ 34 :: rest) rest
  | digits {text ds rest : Bytes} : NumberAt text ds rest → At (.digits ds) text rest
  | word {text name rest : Bytes} : name ≠ [] → RunAt text name rest →
      (¬ ∃ ds after, NumberAt text ds after) → At (.word name) text rest

mutual

/-- `expr := atom call*` -/
inductive Phrase where
  | mk (atom : Atom) (calls : Calls)

/-- `call*`, where `call := '(' args ')'` -/
inductive Calls where
  | nil
  | call (args : Args) (more : Calls)

/-- `args := ε | expr | expr ',' args` -/
inductive Args where
  | nil
  | last (arg : Phrase)
  | more (arg : Phrase) (args : Args)

end

mutual

/-- `p.Derives text rest`: the phrase derives the front of `text` and leaves `rest`. -/
inductive Phrase.Derives : Phrase → Bytes → Bytes → Prop where
  | mk {atom : Atom} {calls : Calls} {text mid rest : Bytes} :
      atom.At text mid → calls.Derives mid rest → (Phrase.mk atom calls).Derives text rest

inductive Calls.Derives : Calls → Bytes → Bytes → Prop where
  | nil {text : Bytes} : Calls.nil.Derives text text
  | call {args : Args} {calls : Calls} {text mid rest : Bytes} :
      args.Derives text (41 :: mid) → calls.Derives mid rest →
      (Calls.call args calls).Derives (40 :: text) rest

inductive Args.Derives : Args → Bytes → Bytes → Prop where
  | nil {text : Bytes} : Args.nil.Derives text text
  | last {arg : Phrase} {text rest : Bytes} :
      arg.Derives text rest → (Args.last arg).Derives text rest
  | more {arg : Phrase} {args : Args} {text mid rest : Bytes} :
      arg.Derives text (44 :: mid) → args.Derives mid rest →
      (Args.more arg args).Derives text rest

end

theorem Phrase.derives_mk_iff {atom : Atom} {calls : Calls} {text rest : Bytes} :
    (Phrase.mk atom calls).Derives text rest ↔
      ∃ mid, atom.At text mid ∧ calls.Derives mid rest := by
  constructor
  · intro h
    cases h with
    | mk hatom hcalls => exact ⟨_, hatom, hcalls⟩
  · rintro ⟨mid, hatom, hcalls⟩
    exact .mk hatom hcalls

theorem Calls.derives_nil_iff {text rest : Bytes} :
    Calls.nil.Derives text rest ↔ text = rest := by
  constructor
  · intro h
    cases h
    rfl
  · rintro rfl
    exact .nil

theorem Calls.derives_call_iff {args : Args} {calls : Calls} {text rest : Bytes} :
    (Calls.call args calls).Derives text rest ↔
      ∃ inner mid, text = 40 :: inner ∧ args.Derives inner (41 :: mid) ∧
        calls.Derives mid rest := by
  constructor
  · intro h
    cases h with
    | call hargs hcalls => exact ⟨_, _, rfl, hargs, hcalls⟩
  · rintro ⟨inner, mid, rfl, hargs, hcalls⟩
    exact .call hargs hcalls

theorem Args.derives_nil_iff {text rest : Bytes} :
    Args.nil.Derives text rest ↔ text = rest := by
  constructor
  · intro h
    cases h
    rfl
  · rintro rfl
    exact .nil

theorem Args.derives_last_iff {arg : Phrase} {text rest : Bytes} :
    (Args.last arg).Derives text rest ↔ arg.Derives text rest := by
  constructor
  · intro h
    cases h with
    | last harg => exact harg
  · exact .last

theorem Args.derives_more_iff {arg : Phrase} {args : Args} {text rest : Bytes} :
    (Args.more arg args).Derives text rest ↔
      ∃ mid, arg.Derives text (44 :: mid) ∧ args.Derives mid rest := by
  constructor
  · intro h
    cases h with
    | more harg hargs => exact ⟨_, harg, hargs⟩
  · rintro ⟨mid, harg, hargs⟩
    exact .more harg hargs

end EggLang.Grammar
