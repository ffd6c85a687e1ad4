import EggLang.Data.Reader
import EggLang.Proofs.Text.Pieces

/-!
# Bytes of JSON texts

No reader of a JSON text passes a zero byte: it is no gap, it belongs to no token, and a string does
not hold it as it is. So a JSON text has none.
-/

namespace EggLang.Data.Reader

variable {text rest after : Bytes} {b : UInt8}

/-- The rest of a text behind bytes other than zero. -/
def Takes (text rest : Bytes) : Prop := ∃ taken, text = taken ++ rest ∧ 0 ∉ taken

theorem Takes.refl (text : Bytes) : Takes text text := ⟨[], rfl, nofun⟩

theorem Takes.trans (h : Takes text rest) (g : Takes rest after) : Takes text after := by
  obtain ⟨front, rfl, clear⟩ := h
  obtain ⟨back, rfl, clear'⟩ := g
  exact ⟨front ++ back, (List.append_assoc ..).symm,
    fun mem => (List.mem_append.1 mem).elim clear clear'⟩

theorem Takes.cons (other : b ≠ 0) (h : Takes text rest) : Takes (b :: text) rest := by
  obtain ⟨front, rfl, clear⟩ := h
  exact ⟨b :: front, rfl, fun mem => (List.mem_cons.1 mem).elim (fun same => other same.symm) clear⟩

theorem Takes.zero_notMem (h : Takes text rest) (clear : 0 ∉ rest) : 0 ∉ text := by
  obtain ⟨front, rfl, clear'⟩ := h
  exact fun mem => (List.mem_append.1 mem).elim clear' clear

theorem zero_notMem_takeWhile {p : UInt8 → Bool} (none : p 0 = false) (text : Bytes) :
    0 ∉ text.takeWhile p := by
  intro mem
  rw [List.all_eq_true.1 List.all_takeWhile 0 mem] at none
  cases none

theorem takes_skip (text : Bytes) : Takes text (skip text) :=
  ⟨text.takeWhile isGap, List.takeWhile_append_dropWhile.symm, zero_notMem_takeWhile rfl text⟩

theorem takes_digits (text : Bytes) :
    Takes text (text.drop (text.takeWhile Bytes.isDigit).length) :=
  ⟨text.takeWhile Bytes.isDigit, (List.prefix_iff_eq_append.1 (List.takeWhile_prefix _)).symm,
    zero_notMem_takeWhile rfl text⟩

/-- What follows a gap and one more byte. -/
theorem takes_past (other : b ≠ 0) (h : skip text = b :: rest) : Takes text rest :=
  (takes_skip text).trans (h ▸ .cons other (.refl rest))

/-! ## Readers -/

/-- A reader takes no zero byte off a text. -/
def Passes {α : Type} (read : Bytes → Option (α × Bytes)) : Prop :=
  ∀ ⦃text a after⦄, read text = some (a, after) → Takes text after

theorem hexValue?_ne_zero {n : Nat} (h : hexValue? b = some n) : b ≠ 0 := by
  rintro rfl
  cases h

theorem letter?_ne_zero {u : UInt16} (h : letter? b = some u) : b ≠ 0 := by
  rintro rfl
  cases h

theorem unit?_ne_zero {a b c d : UInt8} {u : UInt16} (h : unit? a b c d = some u) :
    a ≠ 0 ∧ b ≠ 0 ∧ c ≠ 0 ∧ d ≠ 0 := by
  simp only [unit?, bind, Option.bind_eq_some_iff] at h
  obtain ⟨_, first, _, second, _, third, _, fourth, -⟩ := h
  exact ⟨hexValue?_ne_zero first, hexValue?_ne_zero second, hexValue?_ne_zero third,
    hexValue?_ne_zero fourth⟩

theorem passes_stringRest (raw : Bytes) : Passes (stringRest raw) := by
  intro text units after h
  fun_induction stringRest raw text generalizing units after with
  | case1 | case5 => cases h
  | case2 raw a b c d rest ih =>
    simp only [bind, Option.bind_eq_some_iff] at h
    obtain ⟨_, hexadecimal, ⟨_, after'⟩, read, same⟩ := h
    cases same
    obtain ⟨first, second, third, fourth⟩ := unit?_ne_zero hexadecimal
    exact .cons (by decide) (.cons (by decide)
      (.cons first (.cons second (.cons third (.cons fourth (ih read))))))
  | case3 raw b rest other ih =>
    simp only [bind, Option.bind_eq_some_iff] at h
    obtain ⟨_, escape, ⟨_, after'⟩, read, same⟩ := h
    cases same
    exact .cons (by decide) (.cons (letter?_ne_zero escape) (ih read))
  | case4 raw rest =>
    cases h
    exact .cons (by decide) (.refl _)
  | case6 raw b rest _ _ _ plain ih =>
    refine .cons ?_ (ih h)
    rintro rfl
    exact plain rfl

theorem takes_minus (text : Bytes) : Takes text (minus text).2 := by
  unfold minus
  split
  · exact .cons (by decide) (.refl _)
  · exact .refl _

theorem takes_signed (text : Bytes) : Takes text (signed text).2 := by
  unfold signed
  split
  · exact .cons (by decide) (.refl _)
  · exact .cons (by decide) (.refl _)
  · exact .refl _

theorem passes_fraction? : Passes fraction? := by
  intro text ds after h
  unfold fraction? at h
  split at h
  · dsimp only at h
    split at h
    · cases h
    · cases h
      exact .cons (by decide) (takes_digits _)
  · cases h
    exact .refl _

theorem passes_exponent? : Passes exponent? := by
  intro text n after h
  unfold exponent? at h
  split at h
  · next e rest =>
    split at h
    · next letter =>
      have other : e ≠ 0 := by
        rintro rfl
        cases letter
      dsimp only at h
      split at h
      · cases h
      · cases h
        exact .cons other ((takes_signed rest).trans (takes_digits _))
    · cases h
      exact .refl _
  · cases h
    exact .refl _

theorem passes_number : Passes Reader.number := by
  intro text d after h
  unfold Reader.number at h
  dsimp only at h
  split at h
  · cases h
  · simp only [bind, Option.bind_eq_some_iff] at h
    obtain ⟨⟨ds, rest⟩, fraction, ⟨n, rest'⟩, exponent, rounded⟩ := h
    have taken : Takes text rest' := (takes_minus text).trans ((takes_digits _).trans
      ((passes_fraction? fraction).trans (passes_exponent? exponent)))
    split at rounded
    · cases rounded
      exact taken
    · cases rounded

theorem passes_word : Passes word := by
  intro text d after h
  obtain ⟨⟨name, d'⟩, listed, found⟩ := List.exists_of_findSome?_eq_some h
  obtain ⟨rest, lead, same⟩ := Option.map_eq_some_iff.1 found
  cases same
  have clear : ∀ entry ∈ words, (0 : UInt8) ∉ entry.1 := by decide
  exact ⟨name, Bytes.dropLead?_eq_some_iff.1 lead, clear _ listed⟩

/-! ## Values -/

section

variable {fuel : Nat}

theorem passes_value (passesItems : ∀ depth, Passes (items fuel depth))
    (passesMembers : ∀ depth, Passes (members fuel depth)) (depth : Nat) :
    Passes (value (fuel + 1) depth) := by
  intro text d after h
  simp only [value] at h
  split at h
  · cases h
  · next b rest start =>
    split at h
    · next quote =>
      subst quote
      obtain ⟨⟨units, after'⟩, read, same⟩ := Option.map_eq_some_iff.1 h
      cases same
      exact (takes_past (by decide) start).trans (passes_stringRest [] read)
    · split at h
      · next bracket =>
        subst bracket
        refine (takes_past (by decide) start).trans ?_
        split at h
        · cases h
        · split at h
          · next close =>
            cases h
            exact takes_past (by decide) close
          · simp only [bind, Option.bind_eq_some_iff] at h
            obtain ⟨⟨ds, after'⟩, read, same⟩ := h
            cases same
            exact (takes_skip rest).trans (passesItems _ read)
      · split at h
        · next brace =>
          subst brace
          refine (takes_past (by decide) start).trans ?_
          split at h
          · cases h
          · split at h
            · next close =>
              cases h
              exact takes_past (by decide) close
            · simp only [bind, Option.bind_eq_some_iff] at h
              obtain ⟨⟨ms, after'⟩, read, same⟩ := h
              cases same
              exact (takes_skip rest).trans (passesMembers _ read)
        · refine (takes_skip text).trans (start ▸ ?_)
          split at h
          · exact passes_number h
          · exact passes_word h

theorem passes_items (passesValue : ∀ depth, Passes (value fuel depth))
    (passesItems : ∀ depth, Passes (items fuel depth)) (depth : Nat) :
    Passes (items (fuel + 1) depth) := by
  intro text ds after h
  simp only [items, bind, Option.bind_eq_some_iff] at h
  obtain ⟨⟨first, rest⟩, read, h⟩ := h
  refine (passesValue _ read).trans ?_
  split at h
  · next close =>
    cases h
    exact takes_past (by decide) close
  · next comma =>
    simp only [Option.bind_eq_some_iff] at h
    obtain ⟨⟨others, after'⟩, more, same⟩ := h
    cases same
    exact (takes_past (by decide) comma).trans (passesItems _ more)
  · cases h

theorem passes_members (passesValue : ∀ depth, Passes (value fuel depth))
    (passesMembers : ∀ depth, Passes (members fuel depth)) (depth : Nat) :
    Passes (members (fuel + 1) depth) := by
  intro text ms after h
  simp only [members, bind] at h
  split at h
  · next quote =>
    obtain ⟨⟨name, rest⟩, read, h⟩ := Option.bind_eq_some_iff.1 h
    refine (takes_past (by decide) quote).trans ((passes_stringRest [] read).trans ?_)
    split at h
    · next colon =>
      obtain ⟨⟨first, rest'⟩, read', h⟩ := Option.bind_eq_some_iff.1 h
      refine (takes_past (by decide) colon).trans ((passesValue _ read').trans ?_)
      split at h
      · next close =>
        cases h
        exact takes_past (by decide) close
      · next comma =>
        obtain ⟨⟨others, after'⟩, more, same⟩ := Option.bind_eq_some_iff.1 h
        cases same
        exact (takes_past (by decide) comma).trans (passesMembers _ more)
      · cases h
    · cases h
  · cases h

end

/-- Values, items and members, whatever fuel they are read with. -/
theorem passes_all (fuel : Nat) :
    (∀ depth, Passes (value fuel depth)) ∧ (∀ depth, Passes (items fuel depth)) ∧
      ∀ depth, Passes (members fuel depth) := by
  induction fuel with
  | zero => exact ⟨fun _ => nofun, fun _ => nofun, fun _ => nofun⟩
  | succ fuel ih =>
    obtain ⟨ofValue, ofItems, ofMembers⟩ := ih
    exact ⟨passes_value ofItems ofMembers, passes_items ofValue ofItems,
      passes_members ofValue ofMembers⟩

end EggLang.Data.Reader

namespace EggLang.Data

/-- A JSON text has no zero byte. -/
theorem zero_notMem_of_ofJson? {text : Bytes} {d : Data} (h : ofJson? text = some d) :
    0 ∉ text := by
  unfold ofJson? at h
  split at h
  · next d' rest read =>
    split at h
    · next ended =>
      have blank : 0 ∉ Reader.skip rest := by simp [List.isEmpty_iff.1 ended]
      exact ((Reader.passes_all _).1 _ read).zero_notMem
        ((Reader.takes_skip rest).zero_notMem blank)
    · cases h
  · cases h

end EggLang.Data
