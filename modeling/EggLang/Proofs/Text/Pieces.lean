import EggLang.Bytes

/-!
# Pieces between separators

Pieces that do not hold the separator are told apart by the separators between them. A mark of
several bytes cuts a text where it occurs first.
-/

namespace EggLang.Bytes

variable {sep : UInt8} {s t u v : Bytes} {pieces : List Bytes}

/-- What stands before the first separator and what stands after it. -/
theorem append_cons_inj (hs : sep ∉ s) (ht : sep ∉ t) (h : s ++ sep :: u = t ++ sep :: v) :
    s = t ∧ u = v := by
  induction s generalizing t with
  | nil =>
    cases t with
    | nil => exact ⟨rfl, (List.cons.inj h).2⟩
    | cons b t =>
      obtain ⟨rfl, _⟩ := List.cons.inj h
      exact absurd (List.mem_cons_self ..) ht
  | cons a s ih =>
    cases t with
    | nil =>
      obtain ⟨rfl, _⟩ := List.cons.inj h
      exact absurd (List.mem_cons_self ..) hs
    | cons b t =>
      obtain ⟨rfl, htail⟩ := List.cons.inj h
      obtain ⟨rfl, hrest⟩ := ih (fun m => hs (List.mem_cons_of_mem _ m))
        (fun m => ht (List.mem_cons_of_mem _ m)) htail
      exact ⟨rfl, hrest⟩

theorem splitOn_append (h : sep ∉ s) (t : Bytes) :
    splitOn sep (s ++ sep :: t) = s :: splitOn sep t := by
  induction s with
  | nil => simp [splitOn]
  | cons b s ih =>
    have different : b ≠ sep := fun same => h (same ▸ List.mem_cons_self ..)
    rw [List.cons_append, splitOn, if_neg different, ih fun m => h (List.mem_cons_of_mem _ m)]

theorem splitOn_of_not_mem (h : sep ∉ s) : splitOn sep s = [s] := by
  induction s with
  | nil => rfl
  | cons b s ih =>
    have different : b ≠ sep := fun same => h (same ▸ List.mem_cons_self ..)
    rw [splitOn, if_neg different, ih fun m => h (List.mem_cons_of_mem _ m)]

/-- Joined pieces come back. -/
theorem splitOn_join (filled : pieces ≠ []) (whole : ∀ piece ∈ pieces, sep ∉ piece) :
    splitOn sep (join [sep] pieces) = pieces := by
  induction pieces with
  | nil => exact absurd rfl filled
  | cons piece rest ih =>
    obtain ⟨first, others⟩ := List.forall_mem_cons.1 whole
    cases rest with
    | nil => exact splitOn_of_not_mem first
    | cons next later =>
      have written : join [sep] (piece :: next :: later)
          = piece ++ sep :: join [sep] (next :: later) := List.append_assoc piece [sep] _
      rw [written, splitOn_append first, ih (List.cons_ne_nil _ _) others]

/-- One more piece behind others. -/
theorem join_append_single (filled : pieces ≠ []) (mark piece : Bytes) :
    join mark (pieces ++ [piece]) = join mark pieces ++ mark ++ piece := by
  induction pieces with
  | nil => exact absurd rfl filled
  | cons first rest ih =>
    cases rest with
    | nil => rfl
    | cons next later =>
      have joined (others : List Bytes) : join mark (first :: next :: others)
          = first ++ mark ++ join mark (next :: others) := rfl
      rw [List.cons_append, List.cons_append, joined, joined, ← List.cons_append,
        ih (List.cons_ne_nil _ _)]
      simp only [List.append_assoc]

/-! ## The first occurrence of a mark -/

theorem dropLead?_eq_some_iff {lead text rest : Bytes} :
    dropLead? lead text = some rest ↔ text = lead ++ rest := by
  fun_induction dropLead? lead text with
  | case1 text => simp [eq_comm]
  | case2 a lead => simp
  | case3 a lead text ih => simp [ih]
  | case4 a lead b text different =>
    simp only [List.cons_append, List.cons.injEq, reduceCtorEq, false_iff, not_and]
    exact fun same => absurd same.symm different

/-- A text in which the mark occurs is cut there, whatever follows it. -/
theorem cut_append_of_infix {mark : Bytes} (occurs : mark <:+: s) :
    ∃ front back, ∀ rest, cut mark (s ++ rest) = some (front, back ++ rest) := by
  induction s with
  | nil =>
    obtain rfl := List.eq_nil_of_infix_nil occurs
    exact ⟨[], [], fun rest => by cases rest <;> rfl⟩
  | cons b s ih =>
    by_cases lead : mark <+: b :: s
    · obtain ⟨back, same⟩ := lead
      refine ⟨[], back, fun rest => ?_⟩
      have found : dropLead? mark (b :: (s ++ rest)) = some (back ++ rest) := by
        rw [dropLead?_eq_some_iff, ← List.cons_append, ← same, List.append_assoc]
      simp only [List.cons_append, cut, found]
    · have inside : mark <:+: s := (List.infix_cons_iff.1 occurs).resolve_left lead
      obtain ⟨front, back, later⟩ := ih inside
      refine ⟨b :: front, back, fun rest => ?_⟩
      have none : dropLead? mark (b :: (s ++ rest)) = none := by
        refine Option.eq_none_iff_forall_ne_some.2 fun after found => lead ?_
        refine List.prefix_of_prefix_length_le
          ⟨after, (dropLead?_eq_some_iff.1 found).symm⟩ (List.prefix_append (b :: s) rest) ?_
        exact Nat.le_succ_of_le inside.length_le
      rw [List.cons_append, cut, none]
      simp only [later, Option.map_some]

/-- A mark that begins with a byte it does not hold again is found behind a text in which it does
not occur: no occurrence begins in the text and ends in the mark. -/
theorem cut_of_not_infix {first : UInt8} {tail : Bytes} (once : first ∉ tail)
    (absent : ¬ first :: tail <:+: s) (t : Bytes) :
    cut (first :: tail) (s ++ first :: tail ++ t) = some (s, t) := by
  induction s with
  | nil =>
    have lead : dropLead? (first :: tail) (first :: (tail ++ t)) = some t :=
      dropLead?_eq_some_iff.2 rfl
    simp only [List.nil_append, List.cons_append, cut, lead]
  | cons b s ih =>
    have none : dropLead? (first :: tail) (b :: (s ++ first :: tail ++ t)) = none := by
      refine Option.eq_none_iff_forall_ne_some.2 fun rest lead => ?_
      have overlap : b :: s ++ first :: (tail ++ t) = first :: tail ++ rest := by
        simpa using dropLead?_eq_some_iff.1 lead
      obtain ⟨within, start, rest_eq⟩ | ⟨after, start, -⟩ := List.append_eq_append_iff.1 overlap
      · cases within with
        | nil =>
          rw [List.append_nil] at start
          exact absent (start ▸ List.infix_rfl)
        | cons b' within =>
          -- the mark would begin again inside itself
          obtain ⟨rfl, -⟩ := List.cons.inj rest_eq
          exact once ((List.cons.inj start).2 ▸ List.mem_append_right s (List.mem_cons_self ..))
      · exact absent (start ▸ (List.prefix_append _ _).isInfix)
    have later := ih fun occurs => absent (occurs.trans (List.suffix_cons b s).isInfix)
    simp only [List.cons_append, List.append_assoc] at later none ⊢
    rw [cut, none]
    simp only [later, Option.map_some]

end EggLang.Bytes
