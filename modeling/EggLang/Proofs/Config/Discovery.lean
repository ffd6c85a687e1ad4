import EggLang.Config.Discovery
import EggLang.Proofs.Disk.Path

/-!
# The nearest document

The search for a document goes from a directory to the one it stands in, until that is the same
directory. On path texts, that is the loop `climb`; on the names of a place, it is `findUp`. The two
agree, the loop passes each directory on the way to the root once, and what it ends with is the
document of the deepest of them that has one.
-/

namespace EggLang.Config

variable {exists_ : Bytes → Bool} {dir start : Location} {path : Bytes} {answer : Option Bytes}

/-- The search over path texts, through at most so many directories. There is no answer when they
are not enough. -/
def climb (exists_ : Bytes → Bool) : Nat → Bytes → Option (Option Bytes)
  | 0, _ => none
  | rounds + 1, dir =>
    match findIn exists_ dir with
    | some path => some (some path)
    | none =>
      let above := Path.parent dir
      if above = dir then some none else climb exists_ rounds above

/-- The path of a document of some name in a directory. -/
def documentIn (dir : Location) (name : String) : Bytes := Disk.pathOf (dir ++ [utf8 name])

/-- A directory with no document. -/
def Bare (exists_ : Bytes → Bool) (dir : Location) : Prop :=
  exists_ (documentIn dir "eggc.yaml") = false ∧ exists_ (documentIn dir "eggc.yml") = false

/-- The document of a directory, the preferred one where there are two. -/
def IsDocument (exists_ : Bytes → Bool) (dir : Location) (path : Bytes) : Prop :=
  exists_ path = true ∧
    (path = documentIn dir "eggc.yaml" ∨
      path = documentIn dir "eggc.yml" ∧ exists_ (documentIn dir "eggc.yaml") = false)

theorem IsDocument.not_bare (h : IsDocument exists_ dir path) : ¬ Bare exists_ dir := by
  rintro ⟨noYaml, noYml⟩
  obtain ⟨there, rfl | ⟨rfl, _⟩⟩ := h
  · rw [noYaml] at there
    cases there
  · rw [noYml] at there
    cases there

theorem IsDocument.unique {other : Bytes} (h : IsDocument exists_ dir path)
    (h' : IsDocument exists_ dir other) : path = other := by
  obtain ⟨there, rfl | ⟨rfl, without⟩⟩ := h <;> obtain ⟨there', rfl | ⟨rfl, without'⟩⟩ := h'
  · rfl
  · rw [without'] at there
    cases there
  · rw [without] at there'
    cases there'
  · rfl

/-! ## One directory -/

theorem fileNames_named : ∀ name ∈ fileNames, Path.IsName name := by
  intro name among
  simp only [fileNames, List.mem_cons, List.not_mem_nil, or_false] at among
  rcases among with rfl | rfl <;> exact ⟨by decide, by decide, by decide, by decide⟩

theorem findIn_pathOf (named : ∀ s ∈ dir, Path.IsName s) :
    findIn exists_ (Disk.pathOf dir)
      = [documentIn dir "eggc.yaml", documentIn dir "eggc.yml"].find? exists_ := by
  have below (name : Bytes) (among : name ∈ fileNames) :
      Path.join (Disk.pathOf dir) name = Disk.pathOf (dir ++ [name]) :=
    Disk.join_pathOf named (fileNames_named name among)
  rw [findIn, fileNames, List.map_cons, List.map_singleton, below _ (by simp [fileNames]),
    below _ (by simp [fileNames])]
  rfl

/-- In one directory there is a document and it is found, or there is none. -/
theorem findIn_cases (exists_ : Bytes → Bool) (named : ∀ s ∈ dir, Path.IsName s) :
    (∃ path, findIn exists_ (Disk.pathOf dir) = some path ∧ IsDocument exists_ dir path) ∨
      (findIn exists_ (Disk.pathOf dir) = none ∧ Bare exists_ dir) := by
  rw [findIn_pathOf named]
  by_cases yaml : exists_ (documentIn dir "eggc.yaml") = true
  · exact .inl ⟨_, List.find?_cons_of_pos yaml, yaml, .inl rfl⟩
  · rw [List.find?_cons_of_neg yaml]
    by_cases yml : exists_ (documentIn dir "eggc.yml") = true
    · exact .inl ⟨_, List.find?_cons_of_pos yml, yml, .inr ⟨rfl, by simpa using yaml⟩⟩
    · exact .inr ⟨List.find?_cons_of_neg yml, by simpa using yaml, by simpa using yml⟩

/-! ## The way to the root -/

/-- An answer is what is nearest to a place: the document of the deepest directory, of the place
and those it stands in, that has one. -/
structure Nearest (exists_ : Bytes → Bool) (start : Location) (answer : Option Bytes) : Prop where
  /-- A path is the answer where it is the document of one of the directories and each deeper one
  has none. -/
  found : ∀ path, answer = some path ↔ ∃ dir, dir <+: start ∧ IsDocument exists_ dir path ∧
    ∀ deeper, deeper <+: start → dir.length < deeper.length → Bare exists_ deeper
  /-- There is no answer where none of the directories has a document. -/
  missing : answer = none ↔ ∀ dir, dir <+: start → Bare exists_ dir

/-- A document of the place itself is the nearest. -/
theorem Nearest.of_document (h : IsDocument exists_ start path) :
    Nearest exists_ start (some path) where
  found other := by
    constructor
    · rintro ⟨rfl⟩
      refine ⟨start, List.prefix_refl _, h, fun deeper begins longer => ?_⟩
      have := begins.length_le
      omega
    · rintro ⟨dir, begins, document, bare⟩
      by_cases shorter : dir.length < start.length
      · exact absurd (bare start (List.prefix_refl _) shorter) h.not_bare
      · obtain rfl : dir = start :=
          begins.eq_of_length (Nat.le_antisymm begins.length_le (Nat.le_of_not_lt shorter))
        rw [h.unique document]
  missing := ⟨(nomatch ·), fun bare => absurd (bare start (List.prefix_refl _)) h.not_bare⟩

/-- A place with no document has the nearest of the place it stands in. -/
theorem Nearest.concat {name : Bytes} (h : Nearest exists_ start answer)
    (bare : Bare exists_ (start ++ [name])) : Nearest exists_ (start ++ [name]) answer where
  found path := by
    rw [h.found]
    constructor
    · rintro ⟨dir, begins, document, deeperBare⟩
      refine ⟨dir, begins.trans (List.prefix_append _ _), document, fun deeper under longer => ?_⟩
      rcases List.prefix_concat_iff.1 under with rfl | under
      · exact bare
      · exact deeperBare deeper under longer
    · rintro ⟨dir, begins, document, deeperBare⟩
      rcases List.prefix_concat_iff.1 begins with rfl | begins
      · exact absurd bare document.not_bare
      · exact ⟨dir, begins, document, fun deeper under longer =>
          deeperBare deeper (under.trans (List.prefix_append _ _)) longer⟩
  missing := by
    rw [h.missing]
    constructor
    · intro all dir begins
      rcases List.prefix_concat_iff.1 begins with rfl | begins
      · exact bare
      · exact all dir begins
    · exact fun all dir begins => all dir (begins.trans (List.prefix_append _ _))

theorem Nearest.of_bare_root (bare : Bare exists_ []) : Nearest exists_ [] none where
  found path := by
    constructor
    · rintro ⟨⟩
    · rintro ⟨dir, begins, document, -⟩
      obtain rfl := List.prefix_nil.1 begins
      exact absurd bare document.not_bare
  missing := ⟨fun _ dir begins => List.prefix_nil.1 begins ▸ bare, fun _ => rfl⟩

theorem findUp_nearest (above : List Bytes) (named : ∀ s ∈ above.reverse, Path.IsName s) :
    Nearest exists_ above.reverse (findUp exists_ above) := by
  induction above with
  | nil =>
    rcases findIn_cases exists_ named with ⟨path, found, document⟩ | ⟨found, bare⟩
    · exact (congrArg (Nearest exists_ []) found).mpr (.of_document document)
    · exact (congrArg (Nearest exists_ []) found).mpr (.of_bare_root bare)
  | cons name above ih =>
    rcases findIn_cases exists_ named with ⟨path, found, document⟩ | ⟨found, bare⟩
    · rw [findUp, found]
      exact .of_document document
    · rw [findUp, found]
      rw [List.reverse_cons] at named bare ⊢
      exact (ih (List.forall_mem_append.1 named).1).concat bare

/-- A round at each directory on the way is enough. -/
theorem climb_pathOf (above : List Bytes) (named : ∀ s ∈ above.reverse, Path.IsName s)
    {rounds : Nat} (enough : above.length < rounds) :
    climb exists_ rounds (Disk.pathOf above.reverse) = some (findUp exists_ above) := by
  induction above generalizing rounds with
  | nil =>
    obtain ⟨rounds, rfl⟩ := Nat.exists_eq_add_of_lt enough
    rw [List.length_nil, Nat.zero_add, climb, findUp, List.reverse_nil, Disk.parent_pathOf_nil]
    cases findIn exists_ (Disk.pathOf []) with
    | none => rfl
    | some path => rfl
  | cons name above ih =>
    obtain ⟨rounds, rfl⟩ : ∃ n, rounds = n + 1 := ⟨rounds - 1, by omega⟩
    rw [List.length_cons] at enough
    rw [climb, findUp]
    cases findIn exists_ (Disk.pathOf (name :: above).reverse) with
    | some path => rfl
    | none =>
      rw [List.reverse_cons] at named ⊢
      have around : ∀ s ∈ above.reverse, Path.IsName s := (List.forall_mem_append.1 named).1
      have moves : Disk.pathOf above.reverse ≠ Disk.pathOf (above.reverse ++ [name]) := by
        intro same
        have names := congrArg Path.cleanSegments same
        rw [Disk.cleanSegments_pathOf around, Disk.cleanSegments_pathOf named] at names
        simpa using congrArg List.length names
      simp only [Disk.parent_pathOf_concat named, if_neg moves]
      exact ih around (by omega)

/-! ## The search from a directory -/

/-- A search from a directory, given by its absolute path and the names on it. -/
structure Search (exists_ : Bytes → Bool) (path : Bytes) (start : Location)
    (answer : Option Bytes) : Prop where
  /-- The path is that of the place. -/
  absolute : path = Disk.pathOf start
  /-- No segment of it is empty, a dot segment or holds a slash. -/
  named : ∀ s ∈ start, Path.IsName s
  /-- The loop ends with the answer, after no more rounds than there are directories on the way. -/
  ends : ∀ rounds, start.length < rounds → climb exists_ rounds path = some answer
  nearest : Nearest exists_ start answer

/-- Whatever exists and whichever directory the search starts from, it ends, and with the nearest
document. -/
theorem find_nearest (exists_ : Bytes → Bool) (cwd dir : Bytes)
    (rooted : Path.isAbsolute cwd = true) :
    Search exists_ (Path.absolute cwd dir) (Path.cleanSegments (Path.absolute cwd dir))
      (find exists_ cwd dir) := by
  obtain ⟨names, named, absolute⟩ := Disk.absolute_eq_pathOf rooted dir
  have segments : Path.cleanSegments (Path.absolute cwd dir) = names := by
    rw [absolute, Disk.cleanSegments_pathOf named]
  have reversed : ∀ s ∈ names.reverse.reverse, Path.IsName s := by
    rwa [List.reverse_reverse]
  rw [find, segments, absolute]
  refine ⟨rfl, named, fun rounds enough => ?_, ?_⟩
  · simpa using climb_pathOf names.reverse reversed (by simpa using enough)
  · simpa using findUp_nearest names.reverse reversed

/-- In a tree with a document of each name beside the directory above, from a path with dot segments
and doubled slashes. -/
theorem find_nearest_above :
    find (· ∈ [utf8 "/eggc.yaml", utf8 "/a/eggc.yml", utf8 "/a/eggc.yaml"]) (utf8 "/a//x")
        (utf8 "./../b//c/") = some (utf8 "/a/eggc.yaml") ∧
      Search (· ∈ [utf8 "/eggc.yaml", utf8 "/a/eggc.yml", utf8 "/a/eggc.yaml"])
        (utf8 "/a/b/c") [utf8 "a", utf8 "b", utf8 "c"] (some (utf8 "/a/eggc.yaml")) := by
  have path : Path.absolute (utf8 "/a//x") (utf8 "./../b//c/") = utf8 "/a/b/c" := by decide
  have segments : Path.cleanSegments (utf8 "/a/b/c") = [utf8 "a", utf8 "b", utf8 "c"] := by decide
  have found : find (· ∈ [utf8 "/eggc.yaml", utf8 "/a/eggc.yml", utf8 "/a/eggc.yaml"])
      (utf8 "/a//x") (utf8 "./../b//c/") = some (utf8 "/a/eggc.yaml") := by decide
  have search := find_nearest (· ∈ [utf8 "/eggc.yaml", utf8 "/a/eggc.yml", utf8 "/a/eggc.yaml"])
    (utf8 "/a//x") (utf8 "./../b//c/") (by decide)
  rw [found, path, segments] at search
  exact ⟨found, search⟩

end EggLang.Config
