import EggLang.Proofs.Cache.Encoding

/-!
# What a cache gives back

A cache is written to, closed and opened again in any order. What it holds under a key is changed
by a writing under that key and by nothing else, so an entry is given back whole until another one
takes its place. With the texts of keys this says that a cache confuses nothing: neither two
compilations, short of two texts with one digest, nor the names that a compilation registered.
-/

namespace EggLang

namespace Cache

/-- What is done to a cache. -/
inductive Action where
  | put (key : Bytes) (entry : CacheEntry)
  | close
  | reopen

/-- The cache after an action; a closed cache takes nothing in. -/
def act (c : Cache) : Action → Cache
  | .put key entry =>
    match c.put key entry with
    | .ok stored => stored
    | .error _ => c
  | .close => c.close
  | .reopen => c.reopen

/-- The cache after some actions. -/
def run (c : Cache) (actions : List Action) : Cache := actions.foldl act c

/-- An action writes nothing under a key. -/
def Action.Spares (key : Bytes) : Action → Prop
  | put written _ => written ≠ key
  | close => True
  | reopen => True

instance (key : Bytes) : DecidablePred (Action.Spares key)
  | .put written _ => inferInstanceAs (Decidable (written ≠ key))
  | .close => inferInstanceAs (Decidable True)
  | .reopen => inferInstanceAs (Decidable True)

variable {c : Cache} {key : Bytes} {entry : CacheEntry}

theorem put_of_isOpen (isOpen : c.isOpen = true) (key : Bytes) (entry : CacheEntry) :
    c.put key entry = .ok { c with rows := setRow key entry.toRow c.rows } := by
  rw [put, if_pos isOpen]

theorem get_of_isOpen (isOpen : c.isOpen = true) (key : Bytes) :
    c.get key = .ok ((c.rows.lookup key).map .ofRow) := by
  rw [get, if_pos isOpen]

/-- An action that spares a key leaves its row. -/
theorem lookup_act {a : Action} (spares : a.Spares key) :
    (c.act a).rows.lookup key = c.rows.lookup key := by
  cases a with
  | close => rfl
  | reopen => rfl
  | put written entry =>
    cases isOpen : c.isOpen with
    | false => simp [act, put, isOpen]
    | true =>
      have other : key ≠ written := fun same => spares same.symm
      simp only [act, put_of_isOpen isOpen, lookup_setRow, if_neg other]

theorem lookup_run {later : List Action} (spared : ∀ a ∈ later, a.Spares key) :
    (c.run later).rows.lookup key = c.rows.lookup key := by
  induction later generalizing c with
  | nil => rfl
  | cons a later ih =>
    obtain ⟨first, others⟩ := List.forall_mem_cons.1 spared
    exact (ih others).trans (lookup_act first)

/-- A row that holds all of an entry gives the entry back. -/
theorem get_of_lookup (isOpen : c.isOpen = true) (apart : CacheEntry.Separable entry.functions)
    (found : c.rows.lookup key = some entry.toRow) : c.get key = .ok (some entry) := by
  rw [get_of_isOpen isOpen, found, Option.map_some, CacheEntry.ofRow_toRow apart]

/-- Nothing is lost in the texts of a cache. Names that are not empty and hold no comma, an
indentation and a source are told by the text of their key. An entry with such names is taken in by
an open cache, and from then on it is what the cache gives for its key whenever it is open, until
there is a writing under the same key. -/
theorem encodings_lossless :
    (∀ {indent indent' source source' : Bytes} {names names' : List Bytes},
      CacheEntry.Separable names → CacheEntry.Separable names' →
        (keyText indent names source = keyText indent' names' source'
          ↔ indent = indent' ∧ names = names' ∧ source = source'))
    ∧ ∀ (c : Cache) (key : Bytes) (entry : CacheEntry),
      c.isOpen = true → CacheEntry.Separable entry.functions →
        ∃ stored, c.put key entry = .ok stored ∧ stored.get key = .ok (some entry)
          ∧ ∀ later : List Action, (∀ a ∈ later, a.Spares key) → (stored.run later).isOpen = true →
              (stored.run later).get key = .ok (some entry) := by
  refine ⟨fun apart apart' => ⟨keyText_inj apart apart', ?_⟩, fun c key entry isOpen apart => ?_⟩
  · rintro ⟨rfl, rfl, rfl⟩
    rfl
  · have found : (setRow key entry.toRow c.rows).lookup key = some entry.toRow := by
      rw [lookup_setRow, if_pos rfl]
    refine ⟨_, put_of_isOpen isOpen key entry, get_of_lookup isOpen apart found, ?_⟩
    intro later spared openLater
    exact get_of_lookup openLater apart ((lookup_run spared).trans found)

/-- Two keys whose parts run into each other but for their lengths, and an entry with two names
that outlasts an entry under another key, a closing, a refused writing and the next opening. -/
theorem encodings_lossless_lookalikes :
    let key := utf8 "k"
    let entry : CacheEntry := ⟨utf8 "1", [utf8 "f", utf8 "g:1;"]⟩
    let later : List Action := [.put (utf8 "k2") ⟨[], []⟩, .close, .put (utf8 "k3") entry, .reopen]
    (CacheEntry.Separable [utf8 "f"] ∧ CacheEntry.Separable []
      ∧ keyText (utf8 "  ") [utf8 "f"] (utf8 "1:(;") ≠ keyText (utf8 "  f") [] (utf8 "1:(;"))
    ∧ (∃ stored, Cache.put { path := utf8 "egg.db" } key entry = .ok stored
      ∧ (∀ a ∈ later, a.Spares key) ∧ (stored.run later).isOpen = true
      ∧ (stored.run later).get key = .ok (some entry)) := by
  intro key entry later
  have one : CacheEntry.Separable [utf8 "f"] := by decide
  have noNames : CacheEntry.Separable [] := by decide
  have apart : CacheEntry.Separable entry.functions := by decide
  have spared : ∀ a ∈ later, a.Spares key := by decide
  refine ⟨⟨one, noNames, fun same => ?_⟩, ?_⟩
  · exact absurd ((encodings_lossless.1 one noNames).1 same).1 (by decide)
  · obtain ⟨stored, put, _, kept⟩ :=
      encodings_lossless.2 { path := utf8 "egg.db" } key entry rfl apart
    have openLater : (stored.run later).isOpen = true := rfl
    exact ⟨stored, put, spared, openLater, kept later spared openLater⟩

end Cache

end EggLang
