import EggLang.Proofs.Expr.Reading

/-!
# The words of a program

The words of an expression are its names: what a compilation looks up, binds and registers. A
word that was read from a source is not empty and holds no byte with a meaning of its own, so
no comma either.
-/

namespace EggLang

namespace Expr

mutual

/-- Every word of an expression: bare words, targets and parameters, and the operators of
applications, those of special forms among them. -/
def names : Expr → List Bytes
  | number .. => []
  | string .. => []
  | word _ name => [name]
  | apply _ name args => name :: namesAll args
  | closure operator args => operator.names ++ namesAll args

/-- Every word of some expressions. -/
def namesAll : List Expr → List Bytes
  | [] => []
  | e :: rest => e.names ++ namesAll rest

end

theorem names_subset_namesAll {args : List Expr} {arg : Expr} (h : arg ∈ args) :
    arg.names ⊆ namesAll args := by
  induction args with
  | nil => cases h
  | cons e rest ih =>
    intro n hn
    rw [namesAll, List.mem_append]
    rcases List.mem_cons.1 h with rfl | h
    · exact Or.inl hn
    · exact Or.inr (ih h hn)

theorem mem_names_of_word? {e : Expr} {name : Bytes} (h : e.word? = some name) :
    name ∈ e.names := by
  cases e <;> simp_all [word?, names]

theorem mem_names_of_operator? {e : Expr} {name : Bytes} (h : e.operator? = some name) :
    name ∈ e.names := by
  cases e <;> simp_all [operator?, names]

end Expr

namespace Grammar

/-- A text that may stand as a word: not empty, and without reserved bytes. -/
def IsWord (name : Bytes) : Prop := name ≠ [] ∧ ∀ b ∈ name, b ∉ reserved

theorem Atom.At.isWord {name text rest : Bytes} (h : (Atom.word name).At text rest) :
    IsWord name := by
  cases h with
  | word hne hrun _ => exact ⟨hne, hrun.not_reserved⟩

mutual

/-- What holds of each word of a text holds of the names of the tree. -/
theorem Phrase.Derives.names {P : Bytes → Prop} {text rest : Bytes} {p : Phrase}
    (h : p.Derives text rest)
    (words : ∀ {name text rest : Bytes}, (Atom.word name).At text rest → P name)
    (place : Nat → Place) (index : Nat) : ∀ n ∈ (p.tree place index).names, P n := by
  match p with
  | .mk (.word name) .nil =>
    obtain ⟨mid, hatom, _⟩ := Phrase.derives_mk_iff.mp h
    simp only [Phrase.tree, Calls.closures, Atom.tree, Expr.names, List.mem_singleton]
    rintro n rfl
    exact words hatom
  | .mk (.word name) (.call args calls) =>
    obtain ⟨mid, hatom, hcalls⟩ := Phrase.derives_mk_iff.mp h
    obtain ⟨inner, after, _, hargs, hcalls⟩ := Calls.derives_call_iff.mp hcalls
    rw [Phrase.tree]
    refine hcalls.names words place _ fun n hn => ?_
    rcases List.mem_cons.mp hn with rfl | hn
    · exact words hatom
    · exact hargs.names words place _ n hn
  | .mk (.digits ds) calls =>
    obtain ⟨mid, _, hcalls⟩ := Phrase.derives_mk_iff.mp h
    rw [Phrase.tree]
    · exact hcalls.names words place _ (by simp [Atom.tree, Expr.names])
    · simp
  | .mk (.quoted content) calls =>
    obtain ⟨mid, _, hcalls⟩ := Phrase.derives_mk_iff.mp h
    rw [Phrase.tree]
    · exact hcalls.names words place _ (by simp [Atom.tree, Expr.names])
    · simp

theorem Calls.Derives.names {P : Bytes → Prop} {text rest : Bytes} {cs : Calls}
    (h : cs.Derives text rest)
    (words : ∀ {name text rest : Bytes}, (Atom.word name).At text rest → P name)
    (place : Nat → Place) (index : Nat) {operator : Expr}
    (hop : ∀ n ∈ operator.names, P n) :
    ∀ n ∈ (cs.closures place index operator).names, P n := by
  match cs with
  | .nil => exact hop
  | .call args calls =>
    obtain ⟨inner, mid, _, hargs, hcalls⟩ := Calls.derives_call_iff.mp h
    refine hcalls.names words place _ fun n hn => ?_
    rcases List.mem_append.mp hn with hn | hn
    · exact hop n hn
    · exact hargs.names words place _ n hn

theorem Args.Derives.names {P : Bytes → Prop} {text rest : Bytes} {as : Args}
    (h : as.Derives text rest)
    (words : ∀ {name text rest : Bytes}, (Atom.word name).At text rest → P name)
    (place : Nat → Place) (index : Nat) :
    ∀ n ∈ Expr.namesAll (as.trees place index), P n := by
  match as with
  | .nil => simp [Args.trees, Expr.namesAll]
  | .last arg =>
    simp only [Args.trees, Expr.namesAll, List.append_nil]
    exact (Args.derives_last_iff.mp h).names words place index
  | .more arg args =>
    obtain ⟨mid, harg, hargs⟩ := Args.derives_more_iff.mp h
    intro n hn
    rcases List.mem_append.mp hn with hn | hn
    · exact harg.names words place index n hn
    · exact hargs.names words place _ n hn

end

end Grammar

theorem names_of_parse {source : Bytes} {e : Expr} (h : parse source = .ok e) {P : Bytes → Prop}
    (words : ∀ {name text rest : Bytes}, (Grammar.Atom.word name).At text rest → P name) :
    ∀ n ∈ e.names, P n := by
  obtain ⟨p, hp, rfl⟩ := (Stripped.parse_eq_ok_iff _ _).mp ((parse_eq_ok_iff _ _).mp h)
  exact hp.names words _ 0

/-- The words of a program that was read may stand as words. -/
theorem isWord_of_parse {source : Bytes} {e : Expr} (h : parse source = .ok e) :
    ∀ n ∈ e.names, Grammar.IsWord n :=
  names_of_parse h fun atom => atom.isWord

/-- No word of a program that was read goes over a line feed. -/
theorem not_mem_of_parse {source : Bytes} {e : Expr} (h : parse source = .ok e) :
    ∀ n ∈ e.names, 10 ∉ n :=
  names_of_parse h fun atom => by
    cases atom with
    | word _ run _ => exact run.not_mem

end EggLang
