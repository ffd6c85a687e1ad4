import EggLang.Scope.Registry

/-!
# Registries as sorted sets

Bytewise order is a strict total order, so a name has one place in a sorted list. Registering
keeps a list sorted and adds one name. The walk over two sorted lists gives what the second one has
beyond the first. A sorted list is determined by its names, hence the registry before a program and
the names the program added give back the registry after it.
-/

namespace EggLang

namespace Bytes

theorem before_irrefl (s : Bytes) : before s s = false := by
  induction s with
  | nil => rfl
  | cons a s ih => simp [before, ih]

theorem before_trans {s t u : Bytes} (hst : before s t = true) (htu : before t u = true) :
    before s u = true := by
  induction s generalizing t u with
  | nil =>
    cases t with
    | nil => simp [before] at hst
    | cons b t =>
      cases u with
      | nil => simp [before] at htu
      | cons c u => rfl
  | cons a s ih =>
    cases t with
    | nil => simp [before] at hst
    | cons b t =>
      cases u with
      | nil => simp [before] at htu
      | cons c u =>
        simp only [before] at hst htu ⊢
        grind

theorem before_asymm {s t : Bytes} (h : before s t = true) : before t s = false := by
  cases back : before t s with
  | false => rfl
  | true =>
    have loop := before_trans h back
    rw [before_irrefl] at loop
    contradiction

theorem before_total {s t : Bytes} (hst : before s t = false) (hne : s ≠ t) :
    before t s = true := by
  induction s generalizing t with
  | nil =>
    cases t with
    | nil => contradiction
    | cons b t => simp [before] at hst
  | cons a s ih =>
    cases t with
    | nil => rfl
    | cons b t =>
      simp only [before] at hst ⊢
      grind

theorem mem_insertSorted {name n : Bytes} {names : List Bytes} :
    n ∈ insertSorted name names ↔ n = name ∨ n ∈ names := by
  induction names with
  | nil => simp [insertSorted]
  | cons head rest ih =>
    simp only [insertSorted]
    split
    next => simp
    next =>
      split
      next same => simp [same]
      next =>
        rw [List.mem_cons, ih, List.mem_cons]
        exact or_left_comm

end Bytes

namespace Registry

/-- The names in bytewise order, each one once. -/
def Sorted (r : Registry) : Prop := r.names.Pairwise fun m n => Bytes.before m n = true

instance (r : Registry) : Decidable r.Sorted :=
  inferInstanceAs (Decidable (r.names.Pairwise fun m n => Bytes.before m n = true))

theorem has_iff {r : Registry} {name : Bytes} : r.has name = true ↔ name ∈ r.names := by
  simp [has]

theorem sorted_empty : empty.Sorted := List.Pairwise.nil

@[simp] theorem has_add (r : Registry) (name n : Bytes) :
    (r.add name).has n = (n == name || r.has n) := by
  rw [Bool.eq_iff_iff]
  simp [has_iff, add, Bytes.mem_insertSorted]

theorem Sorted.add {r : Registry} (h : r.Sorted) (name : Bytes) : (r.add name).Sorted := by
  obtain ⟨names⟩ := r
  unfold Sorted Registry.add at *
  induction names with
  | nil => simp [Bytes.insertSorted]
  | cons head rest ih =>
    obtain ⟨first, sorted⟩ := List.pairwise_cons.1 h
    simp only [Bytes.insertSorted]
    split
    next earlier =>
      refine List.pairwise_cons.2 ⟨fun n hn => ?_, h⟩
      rcases List.mem_cons.1 hn with rfl | hn
      · exact earlier
      · exact Bytes.before_trans earlier (first n hn)
    next notEarlier =>
      split
      next => exact h
      next different =>
        refine List.pairwise_cons.2 ⟨fun n hn => ?_, ih sorted⟩
        rcases Bytes.mem_insertSorted.1 hn with rfl | hn
        · exact Bytes.before_total (by simpa using notEarlier) different
        · exact first n hn

theorem Sorted.addAll {r : Registry} (h : r.Sorted) (names : List Bytes) :
    (r.addAll names).Sorted := by
  induction names generalizing r with
  | nil => exact h
  | cons name rest ih => exact ih (h.add name)

theorem mem_addAll {r : Registry} {names : List Bytes} {n : Bytes} :
    n ∈ (r.addAll names).names ↔ n ∈ names ∨ n ∈ r.names := by
  induction names generalizing r with
  | nil => simp [addAll]
  | cons name rest ih =>
    have step : n ∈ (r.add name).names ↔ n = name ∨ n ∈ r.names := Bytes.mem_insertSorted
    have rest_iff := ih (r := r.add name)
    rw [addAll] at rest_iff ⊢
    rw [List.foldl_cons, rest_iff, step, List.mem_cons]
    grind

theorem Sorted.nodup {r : Registry} (h : r.Sorted) : r.names.Nodup := by
  refine List.Pairwise.imp (fun {m n} earlier same => ?_) h
  rw [same, Bytes.before_irrefl] at earlier
  contradiction

/-- A sorted registry is determined by its names. -/
theorem Sorted.ext {r q : Registry} (hr : r.Sorted) (hq : q.Sorted)
    (h : ∀ n, n ∈ r.names ↔ n ∈ q.names) : r = q := by
  have perm : r.names.Perm q.names := (List.perm_ext_iff_of_nodup hr.nodup hq.nodup).2 h
  have same : r.names = q.names := by
    refine perm.eq_of_pairwise (fun m n _ _ earlier later => ?_) hr hq
    rw [Bytes.before_asymm earlier] at later
    contradiction
  exact congrArg Registry.mk same

theorem not_mem_of_before {name head : Bytes} {rest : List Bytes}
    (sorted : (Registry.mk (head :: rest)).Sorted) (earlier : Bytes.before name head = true) :
    name ∉ head :: rest := by
  obtain ⟨later, _⟩ := List.pairwise_cons.1 sorted
  intro mem
  have loop : Bytes.before name name = true := by
    rcases List.mem_cons.1 mem with rfl | mem
    · exact earlier
    · exact Bytes.before_trans earlier (later name mem)
  rw [Bytes.before_irrefl] at loop
  contradiction

/-- The walk over two sorted lists keeps, in order, the names that only the second one has. -/
theorem added_eq_filter {before after : List Bytes} (hb : (Registry.mk before).Sorted)
    (ha : (Registry.mk after).Sorted) : added before after = after.filter fun n => n ∉ before := by
  fun_induction added before after with
  | case1 before => rfl
  | case2 name after ih =>
    rw [ih hb (List.pairwise_cons.1 ha).2]
    simp
  | case3 b before name after earlier ih =>
    -- every name of the second list stands after `b`, so passing `b` loses nothing
    have passed := not_mem_of_before ha earlier
    rw [ih (List.pairwise_cons.1 hb).2 ha]
    refine List.filter_congr fun n mem => ?_
    have other : n ≠ b := fun same => passed (same ▸ mem)
    simp [other]
  | case4 b before after _ ih =>
    rw [ih hb (List.pairwise_cons.1 ha).2]
    simp
  | case5 b before name after notEarlier different ih =>
    have name_before_b : Bytes.before name b = true :=
      Bytes.before_total (by simpa using notEarlier) different
    have missing : name ∉ b :: before := not_mem_of_before hb name_before_b
    rw [ih hb (List.pairwise_cons.1 ha).2, List.filter_cons, if_pos (by simpa using missing)]

theorem mem_added {before after : List Bytes} {n : Bytes}
    (hb : (Registry.mk before).Sorted) (ha : (Registry.mk after).Sorted) :
    n ∈ added before after ↔ n ∈ after ∧ n ∉ before := by
  rw [added_eq_filter hb ha, List.mem_filter, decide_eq_true_iff]

/-- A registry that only grew is restored from what was there and what was added. -/
theorem Sorted.addAll_added {r q : Registry} (hr : r.Sorted) (hq : q.Sorted)
    (grew : ∀ n ∈ r.names, n ∈ q.names) : r.addAll (added r.names q.names) = q := by
  refine (hr.addAll _).ext hq fun n => ?_
  rw [mem_addAll, mem_added hr hq]
  grind

/-- The difference of two sorted lists of names is what the second one has beyond the first, each
name once and in its place. Where the second one has all names of the first, the difference is
just what is missing: put beside the first list or registered on top of it, it gives the second. -/
theorem added_difference {before after : List Bytes} (hb : (Registry.mk before).Sorted)
    (ha : (Registry.mk after).Sorted) :
    added before after = (after.filter fun n => n ∉ before)
    ∧ ((∀ n ∈ before, n ∈ after) →
        (before ++ added before after).Perm after
        ∧ (Registry.mk before).addAll (added before after) = Registry.mk after) := by
  refine ⟨added_eq_filter hb ha, fun contained => ⟨?_, hb.addAll_added ha contained⟩⟩
  have kept : (before ++ added before after).Nodup := by
    refine List.nodup_append.2 ⟨hb.nodup, ?_, fun m first n second same => ?_⟩
    · rw [added_eq_filter hb ha]
      exact ha.nodup.filter _
    · exact ((mem_added hb ha).1 second).2 (same ▸ first)
  refine (List.perm_ext_iff_of_nodup kept ha.nodup).2 fun n => ?_
  rw [List.mem_append, mem_added hb ha]
  grind

/-- Names on both sides of the first list, between its names and equal to them. -/
theorem added_difference_interleaved :
    let before := [utf8 "b", utf8 "bb", utf8 "d"]
    let after := [utf8 "a", utf8 "b", utf8 "ba", utf8 "bb", utf8 "c", utf8 "d", utf8 "d0"]
    (Registry.mk before).Sorted ∧ (Registry.mk after).Sorted ∧ (∀ n ∈ before, n ∈ after)
    ∧ added before after = [utf8 "a", utf8 "ba", utf8 "c", utf8 "d0"]
    ∧ (before ++ added before after).Perm after
    ∧ (Registry.mk before).addAll (added before after) = Registry.mk after := by
  intro before after
  have hb : (Registry.mk before).Sorted := by decide
  have ha : (Registry.mk after).Sorted := by decide
  have contained : ∀ n ∈ before, n ∈ after := by decide
  obtain ⟨filtered, grown⟩ := added_difference hb ha
  have kept : (after.filter fun n => n ∉ before) = [utf8 "a", utf8 "ba", utf8 "c", utf8 "d0"] := by
    decide
  exact ⟨hb, ha, contained, filtered.trans kept, grown contained⟩

end Registry

end EggLang
