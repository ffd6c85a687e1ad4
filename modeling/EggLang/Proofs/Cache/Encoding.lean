import EggLang.Cache.Basic
import EggLang.Proofs.Expr.Names
import EggLang.Proofs.Text.Pieces

/-!
# Keys and rows of a cache

The text of a key gives back the indentation, the registered names and the source that it was
made of: each part has its length before it, and the names are told apart by the commas between
them. For the same reason the names of a row are what was stored, and the file of a cache gives
back its rows.
-/

namespace EggLang

namespace Bytes

theorem toNat_toDigits {c : Char} {n : Nat} (h : c ∈ Nat.toDigits 10 n) :
    c.toNat.toUInt8.toNat = c.toNat ∧ 48 ≤ c.toNat ∧ c.toNat ≤ 57 := by
  have digit := Nat.isDigit_of_mem_toDigits (by omega) (by omega) h
  have range : 48 ≤ c.toNat ∧ c.toNat ≤ 57 := Char.isDigit_iff_toNat.mp digit
  refine ⟨?_, range⟩
  rw [Nat.toUInt8, UInt8.toNat_ofNat']
  omega

/-- The decimal digits of a number have its value. -/
theorem digitsValue_ofNat (n : Nat) : digitsValue (ofNat n) = n := by
  have value : ∀ (cs : List Char) (start : Nat), (∀ c ∈ cs, c ∈ Nat.toDigits 10 n) →
      (cs.map fun c => c.toNat.toUInt8).foldl (fun n b => 10 * n + (b.toNat - 48)) start
        = Nat.ofDigitChars 10 cs start := by
    intro cs
    induction cs with
    | nil => intro start _; rfl
    | cons c cs ih =>
      intro start mem
      rw [List.map_cons, List.foldl_cons, (toNat_toDigits (mem c (List.mem_cons_self ..))).1,
        ih _ fun c hc => mem c (List.mem_cons_of_mem _ hc)]
      rfl
  exact (value _ 0 fun _ h => h).trans Nat.ofDigitChars_ten_toDigits

theorem isDigit_of_mem_ofNat {n : Nat} {b : UInt8} (h : b ∈ ofNat n) : isDigit b = true := by
  obtain ⟨c, digit, rfl⟩ := List.mem_map.mp h
  obtain ⟨value, low, high⟩ := toNat_toDigits digit
  simp only [isDigit, Bool.and_eq_true, decide_eq_true_eq, UInt8.le_iff_toNat_le, value]
  exact ⟨low, high⟩

end Bytes

namespace CacheEntry

/-- Names that stay apart in one text: none is empty and none holds a comma. -/
def Separable (names : List Bytes) : Prop := ∀ n ∈ names, n ≠ [] ∧ 44 ∉ n

instance (names : List Bytes) : Decidable (Separable names) :=
  inferInstanceAs (Decidable (∀ n ∈ names, n ≠ [] ∧ 44 ∉ n))

variable {names : List Bytes}

theorem separable_of_words (words : ∀ n ∈ names, Grammar.IsWord n) : Separable names :=
  fun n mem => ⟨(words n mem).1, fun comma => (words n mem).2 44 comma (by decide)⟩

theorem splitOn_joinNames (apart : Separable names) (filled : names ≠ []) :
    Bytes.splitOn 44 (joinNames names) = names :=
  Bytes.splitOn_join filled fun n mem => (apart n mem).2

/-- Names come back from the text they are stored as. -/
theorem splitNames_joinNames (apart : Separable names) : splitNames (joinNames names) = names := by
  cases names with
  | nil => rfl
  | cons name rest =>
    have filled : joinNames (name :: rest) ≠ [] := by
      have first := (apart name (List.mem_cons_self ..)).1
      cases rest <;> simp [joinNames, Bytes.join, first]
    rw [splitNames, if_neg (by simpa using filled), splitOn_joinNames apart (by simp)]

/-- The row of an entry holds all of it. -/
theorem ofRow_toRow {e : CacheEntry} (apart : Separable e.functions) : ofRow e.toRow = e := by
  rw [ofRow, toRow, splitNames_joinNames apart]

end CacheEntry

namespace Cache

theorem keyPart_append (part rest : Bytes) :
    keyPart part ++ rest = Bytes.ofNat part.length ++ 58 :: (part ++ 59 :: rest) := by
  have colon : utf8 ":" = [58] := rfl
  have semicolon : utf8 ";" = [59] := rfl
  simp only [keyPart, colon, semicolon, List.append_assoc, List.cons_append, List.nil_append]

/-- A part is read back, whatever stands behind it. -/
theorem decodePart?_keyPart (part rest : Bytes) :
    decodePart? (keyPart part ++ rest) = some (part, rest) := by
  have digits : (keyPart part ++ rest).takeWhile Bytes.isDigit = Bytes.ofNat part.length := by
    rw [keyPart_append, List.takeWhile_append_of_pos fun b mem => Bytes.isDigit_of_mem_ofNat mem,
      List.takeWhile_cons_of_neg (by decide), List.append_nil]
  have behind : (keyPart part ++ rest).drop (Bytes.ofNat part.length).length
      = 58 :: (part ++ 59 :: rest) := by
    rw [keyPart_append, List.drop_left]
  have fits : part.length ≤ (part ++ 59 :: rest).length := by simp
  simp only [decodePart?, digits, behind, Bytes.digitsValue_ofNat, List.drop_left, List.take_left,
    if_pos fits]

/-- A part of a key's text ends where its length says. -/
theorem keyPart_append_inj {s t u v : Bytes} (h : keyPart s ++ u = keyPart t ++ v) :
    s = t ∧ u = v := by
  have read := congrArg decodePart? h
  rw [decodePart?_keyPart, decodePart?_keyPart] at read
  exact Prod.mk.inj (Option.some.inj read)

/-- The text of a key gives back all that the key is made of. -/
theorem keyText_inj {indent indent' source source' : Bytes} {names names' : List Bytes}
    (apart : CacheEntry.Separable names) (apart' : CacheEntry.Separable names')
    (h : keyText indent names source = keyText indent' names' source') :
    indent = indent' ∧ names = names' ∧ source = source' := by
  simp only [keyText, List.append_assoc] at h
  obtain ⟨hindent, h⟩ := keyPart_append_inj h
  obtain ⟨hnames, h⟩ := keyPart_append_inj h
  rw [← List.append_nil (keyPart source), ← List.append_nil (keyPart source')] at h
  refine ⟨hindent, ?_, (keyPart_append_inj h).1⟩
  rw [← CacheEntry.splitNames_joinNames apart, hnames, CacheEntry.splitNames_joinNames apart']

/-- A name with a comma in it reads as two. -/
example : keyText [] [utf8 "a,b"] [] = keyText [] [utf8 "a", utf8 "b"] [] := rfl

theorem encodeRow_append (row : Bytes × CacheRow) (rest : Bytes) :
    encodeRow row ++ rest
      = keyPart row.1 ++ (keyPart row.2.output ++ (keyPart row.2.functions ++ rest)) := by
  simp only [encodeRow, List.append_assoc]

theorem encodeRow_length_pos (row : Bytes × CacheRow) : 0 < (encodeRow row).length := by
  rw [← List.append_nil (encodeRow row), encodeRow_append, keyPart_append, List.length_append,
    List.length_cons]
  omega

theorem decodeRows?_encodeRow (fuel : Nat) (row : Bytes × CacheRow) (rest : Bytes) :
    decodeRows? (fuel + 1) (encodeRow row ++ rest) = (decodeRows? fuel rest).map (row :: ·) := by
  have filled : encodeRow row ++ rest ≠ [] :=
    List.append_ne_nil_of_left_ne_nil (List.ne_nil_of_length_pos (encodeRow_length_pos row)) rest
  rw [decodeRows?, List.isEmpty_eq_false_iff.2 filled, encodeRow_append]
  simp only [decodePart?_keyPart, Option.bind_eq_bind, Option.bind_some]
  cases decodeRows? fuel rest with
  | none => rfl
  | some rows => rfl

theorem decodeRows?_encoded (rows : List (Bytes × CacheRow)) {fuel : Nat}
    (enough : rows.length ≤ fuel) : decodeRows? fuel (rows.flatMap encodeRow) = some rows := by
  induction rows generalizing fuel with
  | nil => cases fuel <;> rfl
  | cons row rows ih =>
    cases fuel with
    | zero => simp at enough
    | succ fuel =>
      rw [List.flatMap_cons, decodeRows?_encodeRow, ih (Nat.le_of_succ_le_succ enough)]
      rfl

/-- The file of a cache gives back its rows. -/
theorem decodeFile?_encodeRows (rows : List (Bytes × CacheRow)) :
    decodeFile? (encodeRows rows) = some rows := by
  have enough : rows.length ≤ (rows.flatMap encodeRow).length := by
    induction rows with
    | nil => exact Nat.le_refl _
    | cons row rows ih =>
      have long := encodeRow_length_pos row
      rw [List.flatMap_cons, List.length_append, List.length_cons]
      omega
  rw [decodeFile?, encodeRows, Bytes.dropLead?_eq_some_iff.2 rfl, Option.bind_some]
  exact decodeRows?_encoded rows enough

theorem lookup_setRow (key k : Bytes) (row : CacheRow) (rows : List (Bytes × CacheRow)) :
    (setRow key row rows).lookup k = if k = key then some row else rows.lookup k := by
  induction rows with
  | nil => by_cases h : k = key <;> simp [setRow, h]
  | cons r rows ih =>
    obtain ⟨other, old⟩ := r
    by_cases hkey : other = key
    · subst hkey
      by_cases h : k = other
      · simp [setRow, h]
      · have later : (k == other) = false := by simpa using h
        simp [setRow, List.lookup_cons, later, h]
    · by_cases h : k = other
      · simp [setRow, hkey, h]
      · have later : (k == other) = false := by simpa using h
        simp [setRow, hkey, List.lookup_cons, later, ih]

end Cache

end EggLang
