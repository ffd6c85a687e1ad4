import EggLang.Proofs.Source.Positions

/-!
# The line table

The line of an offset can be looked up in a table of the offsets at which lines start. The number of
starts that are not behind the offset is the line, the last of them is inside the table, and from
there to the offset stands the part of the line that the column counts.
-/

namespace EggLang.Place

variable {source : Bytes} {offset : Nat}

/-- The offsets behind the line feeds of a text whose first byte has the given offset. -/
def startsBehind (offset : Nat) : Bytes → List Nat
  | [] => []
  | b :: rest =>
    if b = 10 then (offset + 1) :: startsBehind (offset + 1) rest
    else startsBehind (offset + 1) rest

/-- The offsets at which the lines of a text start. -/
def lineStarts (source : Bytes) : List Nat := 0 :: startsBehind 0 source

theorem lt_of_mem_startsBehind {start : Nat} (among : start ∈ startsBehind offset source) :
    offset < start := by
  induction source generalizing offset with
  | nil => cases among
  | cons b rest ih =>
    rw [startsBehind] at among
    split at among
    · rcases List.mem_cons.1 among with rfl | among
      · exact Nat.lt_succ_self _
      · exact Nat.lt_of_succ_lt (ih among)
    · exact Nat.lt_of_succ_lt (ih among)

/-- As many lines start up to some bytes behind the first as there are line feeds among these. -/
theorem findIdx_startsBehind (offset taken : Nat) (source : Bytes) :
    (startsBehind offset source).findIdx (offset + taken < ·) = (source.take taken).count 10 := by
  induction taken generalizing offset source with
  | zero =>
    rw [List.take_zero, List.count_nil]
    cases starts : startsBehind offset source with
    | nil => rfl
    | cons start later =>
      have among : start ∈ startsBehind offset source := starts ▸ List.mem_cons_self ..
      have behind : offset < start := lt_of_mem_startsBehind among
      rw [List.findIdx_cons, Nat.add_zero, decide_eq_true behind]
      rfl
  | succ taken ih =>
    cases source with
    | nil => rfl
    | cons b rest =>
      have shift : offset + (taken + 1) = offset + 1 + taken := by omega
      rw [startsBehind, List.take_succ_cons, shift]
      by_cases feed : b = 10
      · have passed : ¬ offset + 1 + taken < offset + 1 := by omega
        rw [if_pos feed, List.findIdx_cons, decide_eq_false passed, ih, feed, List.count_cons_self]
        rfl
      · rw [if_neg feed, ih, List.count_cons_of_ne feed]

theorem findIdx_lineStarts (source : Bytes) (offset : Nat) :
    (lineStarts source).findIdx (offset < ·) = (source.take offset).count 10 + 1 := by
  have counted := findIdx_startsBehind 0 offset source
  rw [Nat.zero_add] at counted
  rw [lineStarts, List.findIdx_cons, decide_eq_false (Nat.not_lt_zero offset), counted]
  rfl

/-! ## Where a line starts -/

theorem lastLine_of_not_mem {text : Bytes} (none : 10 ∉ text) : lastLine text = text := by
  have all : ∀ b ∈ text.reverse, (b != 10) = true := by
    intro b among
    rw [bne_iff_ne]
    rintro rfl
    exact none (List.mem_reverse.1 among)
  rw [lastLine, ← List.append_nil text.reverse, List.takeWhile_append_of_pos all,
    List.takeWhile_nil, List.append_nil, List.reverse_reverse]

theorem lastLine_cons {b : UInt8} {rest : Bytes} (later : b = 10 ∨ 10 ∈ rest) :
    lastLine (b :: rest) = lastLine rest := by
  rw [lastLine, lastLine, List.reverse_cons, List.takeWhile_append]
  split
  · next whole =>
    have same := (List.takeWhile_prefix (· != (10 : UInt8))).eq_of_length whole
    rcases later with rfl | among
    · rw [same, List.takeWhile_cons_of_neg (by decide), List.append_nil]
    · -- a line feed in the rest would have ended the run
      rw [← List.mem_reverse, ← same] at among
      cases List.all_eq_true.1 List.all_takeWhile 10 among
  · rfl

/-- The start that is looked up in the table is that of the line. -/
theorem getElem?_startsBehind (offset taken : Nat) (source : Bytes) :
    (offset :: startsBehind offset source)[(source.take taken).count 10]?
      = some (offset + ((source.take taken).length - (lastLine (source.take taken)).length)) := by
  induction source generalizing offset taken with
  | nil => simp [lastLine]
  | cons b rest ih =>
    cases taken with
    | zero => simp [lastLine]
    | succ taken =>
      have next := ih (offset + 1) taken
      have short : (lastLine (rest.take taken)).length ≤ (rest.take taken).length := by
        obtain ⟨lines, split, -, -⟩ := lastLine_split (rest.take taken)
        have lengths := congrArg List.length split
        rw [List.length_append] at lengths
        omega
      rw [List.take_succ_cons, startsBehind]
      by_cases feed : b = 10
      · subst feed
        rw [if_pos rfl, List.count_cons_self, List.getElem?_cons_succ, next,
          lastLine_cons (.inl rfl), List.length_cons]
        congr 1
        omega
      · rw [if_neg feed, List.count_cons_of_ne feed]
        by_cases later : 10 ∈ rest.take taken
        · obtain ⟨n, count⟩ := Nat.exists_eq_succ_of_ne_zero
            (Nat.ne_of_gt (List.count_pos_iff.2 later))
          rw [count, List.getElem?_cons_succ] at next ⊢
          rw [next, lastLine_cons (.inr later), List.length_cons]
          congr 1
          omega
        · have whole : lastLine (b :: rest.take taken) = b :: rest.take taken :=
            lastLine_of_not_mem (by simp [later, Ne.symm feed])
          rw [List.count_eq_zero.2 later, whole]
          simp

/-- The part of a line before an offset stands between the start of the line and the offset. -/
theorem lineStart_spec (inside : offset ≤ source.length) :
    ∃ start, (lineStarts source)[(source.take offset).count 10]? = some start ∧ start ≤ offset ∧
      (source.take offset).drop start = lastLine (source.take offset) := by
  obtain ⟨lines, split, -, -⟩ := lastLine_split (source.take offset)
  have before : (source.take offset).length - (lastLine (source.take offset)).length
      = lines.length := by
    have lengths := congrArg List.length split
    rw [List.length_append] at lengths
    omega
  refine ⟨lines.length, ?_, ?_, ?_⟩
  · rw [lineStarts, getElem?_startsBehind, before, Nat.zero_add]
  · have lengths := congrArg List.length split
    rw [List.length_append, List.length_take] at lengths
    omega
  · conv => lhs; rw [split]
    exact List.drop_left

end EggLang.Place
