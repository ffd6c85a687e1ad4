import EggLang.Disk.Basic
import EggLang.Proofs.Text.Pieces

/-!
# Paths from the root

The segments that cleaning leaves of a path from the root are names, so such a path is the path of
a place. The directory it stands in is the place without its last name; the root stands in itself.
-/

namespace EggLang

namespace Path

variable {path segment name : Bytes} {done pieces names front : List Bytes}

/-- A segment that stands for itself: not empty, not a dot segment, with no slash. -/
structure IsName (segment : Bytes) : Prop where
  filled : segment ≠ []
  not_here : segment ≠ here
  not_up : segment ≠ up
  whole : 47 ∉ segment

theorem slash_eq : utf8 "/" = [47] := rfl

/-- Pieces with a slash in front of each. -/
theorem join_nil_cons (pieces : List Bytes) :
    Bytes.join [47] ([] :: pieces) = pieces.flatMap (47 :: ·) := by
  induction pieces with
  | nil => rfl
  | cons piece rest ih =>
    have first : Bytes.join [47] ([] :: piece :: rest)
        = 47 :: Bytes.join [47] (piece :: rest) := rfl
    rw [first, List.flatMap_cons, ← ih]
    cases rest with
    | nil => simp [Bytes.join]
    | cons next later => simp [Bytes.join]

theorem segments_spread (whole : ∀ piece ∈ pieces, 47 ∉ piece) :
    segments (pieces.flatMap (47 :: ·)) = [] :: pieces := by
  rw [segments, ← join_nil_cons]
  refine Bytes.splitOn_join (List.cons_ne_nil _ _) fun piece among => ?_
  rcases List.mem_cons.1 among with rfl | among
  · exact List.not_mem_nil
  · exact whole piece among

theorem whole_of_mem_segments (path : Bytes) : ∀ piece ∈ segments path, 47 ∉ piece := by
  unfold segments
  induction path with
  | nil => simp [Bytes.splitOn]
  | cons b rest ih =>
    by_cases slash : b = 47
    · rw [Bytes.splitOn, if_pos slash]
      exact List.forall_mem_cons.2 ⟨List.not_mem_nil, ih⟩
    · rw [Bytes.splitOn, if_neg slash]
      have other : ¬ 47 = b := fun h => slash h.symm
      cases hp : Bytes.splitOn 47 rest with
      | nil => simpa using other
      | cons piece later =>
        obtain ⟨first, others⟩ := List.forall_mem_cons.1 (hp ▸ ih)
        exact List.forall_mem_cons.2 ⟨by simp [other, first], others⟩

/-! ## Cleaning -/

@[simp] theorem push_nil (rooted : Bool) (done : List Bytes) : push rooted done [] = done := rfl

theorem IsName.push_eq (named : IsName segment) (rooted : Bool) (done : List Bytes) :
    push rooted done segment = segment :: done := by
  simp [push, named.filled, named.not_here, named.not_up]

theorem foldl_push_nil {rooted : Bool} (empty : ∀ piece ∈ pieces, piece = []) :
    pieces.foldl (push rooted) done = done := by
  induction pieces with
  | nil => rfl
  | cons piece rest ih =>
    obtain ⟨rfl, others⟩ := List.forall_mem_cons.1 empty
    exact ih others

theorem foldl_push_names (named : ∀ s ∈ names, IsName s) (rooted : Bool) (done : List Bytes) :
    names.foldl (push rooted) done = names.reverse ++ done := by
  induction names generalizing done with
  | nil => rfl
  | cons name rest ih =>
    obtain ⟨first, others⟩ := List.forall_mem_cons.1 named
    rw [List.foldl_cons, first.push_eq, ih others, List.reverse_cons, List.append_assoc]
    rfl

/-- From the root, a step up takes a name away and never stays itself. -/
theorem push_named (named : ∀ s ∈ done, IsName s) (whole : 47 ∉ segment) :
    ∀ s ∈ push true done segment, IsName s := by
  unfold push
  by_cases still : (segment.isEmpty || segment = here) = true
  · rwa [if_pos still]
  · rw [if_neg still]
    simp only [Bool.or_eq_true, List.isEmpty_iff, decide_eq_true_eq, not_or] at still
    by_cases above : segment = up
    · rw [if_pos above]
      cases done with
      | nil => simp
      | cons last rest =>
        obtain ⟨first, others⟩ := List.forall_mem_cons.1 named
        simpa [first.not_up] using others
    · rw [if_neg above]
      exact List.forall_mem_cons.2 ⟨⟨still.1, still.2, above, whole⟩, named⟩

theorem foldl_push_named (whole : ∀ piece ∈ pieces, 47 ∉ piece) (named : ∀ s ∈ done, IsName s) :
    ∀ s ∈ pieces.foldl (push true) done, IsName s := by
  induction pieces generalizing done with
  | nil => exact named
  | cons piece rest ih =>
    obtain ⟨first, others⟩ := List.forall_mem_cons.1 whole
    exact ih others (push_named named first)

/-- What cleaning leaves of a path from the root are names. -/
theorem cleanSegments_named (rooted : isAbsolute path = true) :
    ∀ s ∈ cleanSegments path, IsName s := by
  intro s among
  rw [cleanSegments, rooted, List.mem_reverse] at among
  exact foldl_push_named (whole_of_mem_segments path) (fun _ none => absurd none List.not_mem_nil)
    s among

theorem clean_of_rooted (rooted : isAbsolute path = true) :
    clean path = Disk.pathOf (cleanSegments path) := by
  rw [clean, if_pos rooted, Disk.pathOf]

end Path

namespace Disk

open EggLang.Path

variable {names front pieces : List Bytes} {name : Bytes}

theorem pathOf_eq_spread (filled : names ≠ []) : pathOf names = names.flatMap (47 :: ·) := by
  cases names with
  | nil => exact absurd rfl filled
  | cons first rest =>
    rw [← join_nil_cons]
    rfl

theorem isAbsolute_pathOf (names : List Bytes) : isAbsolute (pathOf names) = true := by
  simp [pathOf, isAbsolute, slash_eq]

/-- Cleaning the names of a place, with empty pieces before and behind them, gives the names. -/
theorem cleanSegments_spread (named : ∀ s ∈ names, IsName s)
    (before behind : List Bytes) (empty : ∀ piece ∈ before ++ behind, piece = []) :
    cleanSegments ((before ++ names ++ behind).flatMap (47 :: ·)) = names := by
  have whole : ∀ piece ∈ before ++ names ++ behind, 47 ∉ piece := by
    intro piece among
    simp only [List.mem_append] at among empty
    rcases among with (among | among) | among
    · simp [empty piece (.inl among)]
    · exact (named piece among).whole
    · simp [empty piece (.inr among)]
  rw [cleanSegments, segments_spread whole, List.foldl_cons, push_nil, List.foldl_append,
    List.foldl_append, foldl_push_nil fun p among => empty p (List.mem_append_left _ among),
    foldl_push_names named, foldl_push_nil fun p among => empty p (List.mem_append_right _ among),
    List.append_nil, List.reverse_reverse]

theorem cleanSegments_pathOf (named : ∀ s ∈ names, IsName s) :
    cleanSegments (pathOf names) = names := by
  cases names with
  | nil => rfl
  | cons first rest =>
    rw [pathOf_eq_spread (List.cons_ne_nil _ _)]
    simpa using cleanSegments_spread named [] [] (by simp)

theorem clean_pathOf_spread (named : ∀ s ∈ names, IsName s) (before behind : List Bytes)
    (empty : ∀ piece ∈ before ++ behind, piece = []) (filled : before ++ names ++ behind ≠ []) :
    clean ((before ++ names ++ behind).flatMap (47 :: ·)) = pathOf names := by
  rw [clean_of_rooted, cleanSegments_spread named before behind empty]
  rw [← pathOf_eq_spread filled]
  exact isAbsolute_pathOf _

/-! ## Directories -/

theorem untilLastSlash_append (front : Bytes) (whole : 47 ∉ name) :
    untilLastSlash (front ++ 47 :: name) = front ++ [47] := by
  have skipped : ∀ b ∈ name.reverse, (b != 47) = true := by
    intro b among
    simpa using fun h : b = 47 => whole (h ▸ List.mem_reverse.1 among)
  rw [untilLastSlash, List.reverse_append, List.reverse_cons, List.append_assoc,
    List.dropWhile_append_of_pos skipped]
  simp

/-- The root stands in itself. -/
theorem parent_pathOf_nil : parent (pathOf []) = pathOf [] := by decide

/-- Any other place stands in the one without its last name. -/
theorem parent_pathOf_concat (named : ∀ s ∈ front ++ [name], IsName s) :
    parent (pathOf (front ++ [name])) = pathOf front := by
  obtain ⟨around, last⟩ := List.forall_mem_append.1 named
  have cut : untilLastSlash (pathOf (front ++ [name])) = (front ++ [[]]).flatMap (47 :: ·) := by
    rw [pathOf_eq_spread (by simp), List.flatMap_append, List.flatMap_singleton,
      untilLastSlash_append _ (last name (List.mem_singleton.2 rfl)).whole]
    simp
  rw [parent, cut]
  simpa using clean_pathOf_spread around [] [[]] (by simp) (by simp)

/-- A name below a place. -/
theorem join_pathOf (named : ∀ s ∈ names, IsName s) (last : IsName name) :
    join (pathOf names) name = pathOf (names ++ [name]) := by
  have all : ∀ s ∈ names ++ [name], IsName s :=
    List.forall_mem_append.2 ⟨named, by simpa using last⟩
  have parts : [pathOf names, name].filter (!·.isEmpty) = [pathOf names, name] := by
    simp [pathOf, slash_eq, last.filled]
  have joined : join (pathOf names) name = clean (pathOf names ++ 47 :: name) := by
    rw [join, parts]
    simp [Bytes.join, slash_eq]
  rw [joined]
  cases names with
  | nil => simpa [pathOf, slash_eq, Bytes.join] using clean_pathOf_spread all [[]] [] (by simp)
  | cons first rest =>
    rw [pathOf_eq_spread (List.cons_ne_nil _ _)]
    simpa using clean_pathOf_spread all [] [] (by simp)

/-- Seen from a working directory, a path is the path of a place. -/
theorem absolute_eq_pathOf {cwd : Bytes} (rooted : isAbsolute cwd = true) (path : Bytes) :
    ∃ names, (∀ s ∈ names, IsName s) ∧ absolute cwd path = pathOf names := by
  have cleaned {path : Bytes} (rooted : isAbsolute path = true) :
      ∃ names, (∀ s ∈ names, IsName s) ∧ clean path = pathOf names :=
    ⟨cleanSegments path, cleanSegments_named rooted, clean_of_rooted rooted⟩
  by_cases own : isAbsolute path = true
  · rw [absolute, if_pos own]
    exact cleaned own
  · obtain ⟨rest, rfl⟩ : ∃ rest, cwd = 47 :: rest := by
      cases cwd with
      | nil => cases rooted
      | cons b rest => exact ⟨rest, by simpa [isAbsolute] using rooted⟩
    rw [absolute, if_neg own, join]
    cases path with
    | nil => exact cleaned rooted
    | cons b path => exact cleaned rfl

end Disk

end EggLang
