import EggLang.Proofs.Cache.Encoding
import EggLang.Proofs.Session.Compilation

/-!
# A cache changes no answer

Sessions that share a cache are called in any order. Every row of the cache is the outcome of
some compilation: its key is that of a regular compiler with no change of the root counted, its
text is what that compiler gives for the source, and its names are those it registers on the way.
A session that meets the key again has the same compiler, unless two of the hashed texts have one
digest, so replaying the row is compiling.
-/

namespace EggLang

/-- No two of the texts have the same digest. -/
def Digest.CollisionFree (texts : List Bytes) : Prop :=
  ∀ a ∈ texts, ∀ b ∈ texts, hex a = hex b → a = b

instance (texts : List Bytes) : Decidable (Digest.CollisionFree texts) :=
  inferInstanceAs (Decidable (∀ a ∈ texts, ∀ b ∈ texts, Digest.hex a = Digest.hex b → a = b))

namespace Cache

/-- A row under a key is the outcome of a compilation whose key has its text among `texts`. -/
structure Recorded (texts : List Bytes) (key : Bytes) (row : CacheRow) (t : Compiler)
    (source output : Bytes) : Prop where
  regular : t.Regular
  clean : t.rootChanges = 0
  mem : keyText t.indent t.functions.names source ∈ texts
  key_eq : key = Cache.key t.indent t.functions.names source
  compiled : (t.compile source).1 = .ok output
  kept_clean : (t.compile source).2.rootChanges = 0
  row_eq : row = CacheEntry.toRow
    ⟨output, Registry.added t.functions.names (t.compile source).2.functions.names⟩

/-- Every row is the outcome of a compilation. -/
def Sound (texts : List Bytes) (c : Cache) : Prop :=
  ∀ key row, c.rows.lookup key = some row
    → ∃ t source output, Recorded texts key row t source output

variable {texts : List Bytes} {c : Cache} {key : Bytes} {row : CacheRow} {t u : Compiler}
  {source output : Bytes}

theorem Recorded.functions_eq (h : Recorded texts key row t source output) :
    t.functions.addAll (CacheEntry.ofRow row).functions = (t.compile source).2.functions := by
  have after := h.regular.compile source
  have words : ∀ n ∈ Registry.added t.functions.names (t.compile source).2.functions.names,
      Grammar.IsWord n := by
    intro n mem
    exact after.words n ((Registry.mem_added h.regular.sorted after.sorted).1 mem).1
  have stored := CacheEntry.splitNames_joinNames (CacheEntry.separable_of_words words)
  rw [h.row_eq, CacheEntry.toRow, CacheEntry.ofRow, stored]
  exact h.regular.sorted.addAll_added after.sorted fun n mem => Compiler.mem_compile mem source

/-- A compiler that has the key of a row is the one the row was made by. -/
theorem Recorded.same (h : Recorded texts key row t source output)
    (free : Digest.CollisionFree texts) {source' : Bytes} (regular : u.Regular)
    (clean : u.rootChanges = 0) (mem : keyText u.indent u.functions.names source' ∈ texts)
    (key_eq : key = Cache.key u.indent u.functions.names source') :
    t = u ∧ source = source' := by
  have texts_eq := free _ h.mem _ mem (h.key_eq.symm.trans key_eq)
  obtain ⟨indent, names, sources⟩ := keyText_inj
    (CacheEntry.separable_of_words h.regular.words)
    (CacheEntry.separable_of_words regular.words) texts_eq
  have functions : t.functions = u.functions := congrArg Registry.mk names
  exact ⟨h.regular.ext regular h.clean clean indent functions, sources⟩

/-- The row of a compilation that left the root alone may be stored. -/
theorem Sound.setRow (h : c.Sound texts) (recorded : Recorded texts key row t source output) :
    Sound texts { c with rows := Cache.setRow key row c.rows } := by
  intro k r found
  rw [lookup_setRow] at found
  split at found
  next same =>
    cases found
    exact ⟨t, source, output, same ▸ recorded⟩
  next => exact h k r found

end Cache

namespace Session

variable {texts : List Bytes} {s : Session} {c : Cache} {source : Bytes}

/-- The text that a cached `compile` hashes. -/
def keyText (s : Session) (source : Bytes) : Bytes :=
  Cache.keyText s.compiler.indent s.functions source

/-- What a call of `compile` gives and leaves of the session is what it would be without a cache,
and the cache it leaves is sound. -/
structure Transparent (texts : List Bytes) (done : Compiled)
    (afresh : Except Failure Bytes × Session) : Prop where
  answer : done.answer = afresh.1
  session : done.session = afresh.2
  cache : ∀ c, done.cache = some c → c.Sound texts

theorem sound_store (sound : c.Sound texts) (regular : s.compiler.Regular) (clean : s.mayCache)
    (mem : s.keyText source ∈ texts) {output : Bytes}
    (compiled : (s.compiler.compile source).1 = .ok output) :
    (store s { s with compiler := (s.compiler.compile source).2 } (s.key source) output
      c).1.Sound texts := by
  rw [store]
  split
  next kept_clean =>
    simp only [Cache.put]
    cases c.isOpen with
    | true =>
      have recorded : Cache.Recorded texts (s.key source) _ s.compiler source output :=
        { regular, mem, compiled
          clean := by simpa [mayCache] using clean
          key_eq := rfl
          kept_clean := by simpa [mayCache] using kept_clean
          row_eq := rfl }
      exact sound.setRow recorded
    | false => exact sound
  next => exact sound

theorem transparent_compileInto (sound : c.Sound texts) (regular : s.compiler.Regular)
    (clean : s.mayCache) (mem : s.keyText source ∈ texts) (path : Bytes) (log : List Bytes) :
    Transparent texts (s.compileInto c path source (s.key source) log)
      (s.compileAfresh path source) := by
  rw [compileInto, compileAfresh_eq]
  cases compiled : (s.compiler.compile source).1 with
  | error d =>
    refine ⟨rfl, rfl, fun c' h => ?_⟩
    cases h
    exact sound
  | ok output =>
    refine ⟨rfl, rfl, fun c' h => ?_⟩
    cases h
    exact sound_store sound regular clean mem compiled

/-- Replaying a row is compiling. -/
theorem transparent_replay (sound : c.Sound texts) (free : Digest.CollisionFree texts)
    (regular : s.compiler.Regular) (clean : s.mayCache) (mem : s.keyText source ∈ texts)
    (path : Bytes) {row : CacheRow} (found : c.rows.lookup (s.key source) = some row)
    (log : List Bytes) :
    Transparent texts
      ⟨.ok (CacheEntry.ofRow row).output, s.register (CacheEntry.ofRow row).functions, some c, log⟩
      (s.compileAfresh path source) := by
  have no_change : s.compiler.rootChanges = 0 := by simpa [mayCache] using clean
  obtain ⟨t, source', output, recorded⟩ := sound _ _ found
  obtain ⟨rfl, rfl⟩ := recorded.same free regular no_change mem rfl
  have output_eq : (CacheEntry.ofRow row).output = output := by
    rw [recorded.row_eq]
    rfl
  have compiler_eq : { s.compiler with
      functions := s.compiler.functions.addAll (CacheEntry.ofRow row).functions }
        = (s.compiler.compile source').2 := by
    rw [recorded.functions_eq, ← regular.compile_eq no_change recorded.kept_clean]
  rw [compileAfresh_eq, recorded.compiled]
  refine ⟨congrArg Except.ok output_eq, ?_, fun c' h => ?_⟩
  · rw [register, compiler_eq]
  · cases h
    exact sound

theorem transparent_compile (sound : c.Sound texts) (free : Digest.CollisionFree texts)
    (regular : s.compiler.Regular) (mem : s.mayCache → s.keyText source ∈ texts) (path : Bytes) :
    Transparent texts (s.compile (some c) path source) (s.compileAfresh path source) := by
  rw [compile]
  split
  next clean =>
    have hashed := mem clean
    simp only [Cache.get]
    split
    next entry found =>
      split at found
      · obtain ⟨row, lookup, rfl⟩ := Option.map_eq_some_iff.1 (Except.ok.inj found)
        exact transparent_replay sound free regular clean hashed path lookup _
      · cases found
    next => exact transparent_compileInto sound regular clean hashed path _
    next => exact transparent_compileInto sound regular clean hashed path _
  next =>
    refine ⟨rfl, rfl, fun c' h => ?_⟩
    cases h
    exact sound

end Session

/-- How a session is set up, and whether it is given the shared cache. -/
structure SessionSetup where
  indent : Bytes
  executor : Executor
  timeout : Int
  cached : Bool

/-- Some sessions, one for each index, and a cache that those marked as cached share. -/
structure Pool (ι : Type) where
  sessions : ι → Session
  cached : ι → Bool
  cache : Cache

namespace Pool

variable {ι : Type} [DecidableEq ι]

/-- New sessions. -/
def new (setup : ι → SessionSetup) (cache : Cache) : Pool ι where
  sessions i := .new (setup i).indent (setup i).executor (setup i).timeout
  cached i := (setup i).cached
  cache := cache

/-- A call on one of the sessions, or the closing of the cache. -/
inductive Call (ι : Type) where
  | compile (member : ι) (path source : Bytes)
  | run (member : ι) (path source : Bytes) (cancelled : Bool)
  | closeCache

/-- What a call on a session gives: code or a failure, or the result of a run and its failure. -/
inductive Answer where
  | code (answer : Except Failure Bytes)
  | run (answer : Option RunResult × Option Failure)

/-- What is seen of a call on a session: its answer, and the registered names after it. -/
structure Reply where
  answer : Answer
  functions : List Bytes

/-- The pool with one session replaced. -/
def setSession (p : Pool ι) (member : ι) (s : Session) : Pool ι :=
  { p with sessions := fun i => if i = member then s else p.sessions i }

/-- The cache that a call on a session is given. -/
def cacheOf (p : Pool ι) (member : ι) : Option Cache :=
  if p.cached member then some p.cache else none

/-- Makes one call. -/
def call (p : Pool ι) : Call ι → Option Reply × Pool ι
  | .compile member path source =>
    let done := (p.sessions member).compile (p.cacheOf member) path source
    (some ⟨.code done.answer, done.session.functions⟩,
      { p.setSession member done.session with cache := done.cache.getD p.cache })
  | .run member path source cancelled =>
    let (answer, s) := (p.sessions member).run path source cancelled
    (some ⟨.run answer, s.functions⟩, p.setSession member s)
  | .closeCache => (none, { p with cache := p.cache.close })

/-- What is seen of some calls in a row. -/
def replies (p : Pool ι) : List (Call ι) → List (Option Reply)
  | [] => []
  | c :: calls => (p.call c).1 :: (p.call c).2.replies calls

/-- The text that a call hashes, if it does. -/
def hashedBy (p : Pool ι) : Call ι → List Bytes
  | .compile member _ source =>
    let s := p.sessions member
    if p.cached member && s.mayCache then [s.keyText source] else []
  | _ => []

/-- The texts that are hashed by some calls in a row. -/
def hashed (p : Pool ι) : List (Call ι) → List Bytes
  | [] => []
  | c :: calls => p.hashedBy c ++ (p.call c).2.hashed calls

/-- A pool whose cache is sound, beside one with equal sessions that use none. -/
structure Mirrors (texts : List Bytes) (p q : Pool ι) : Prop where
  sessions : p.sessions = q.sessions
  uncached : ∀ i, q.cached i = false
  regular : ∀ i, (p.sessions i).compiler.Regular
  sound : p.cache.Sound texts

variable {texts : List Bytes} {p q : Pool ι}

theorem Mirrors.setSession (h : Mirrors texts p q) (member : ι) {s : Session}
    (regular : s.compiler.Regular) {c : Cache} (sound : c.Sound texts) (c' : Cache) :
    Mirrors texts { p.setSession member s with cache := c }
      { q.setSession member s with cache := c' } where
  sessions := by simp only [Pool.setSession, h.sessions]
  uncached := h.uncached
  regular i := by
    simp only [Pool.setSession]
    split
    · exact regular
    · exact h.regular i
  sound := sound

omit [DecidableEq ι] in
theorem Mirrors.transparent_compile (h : Mirrors texts p q) (free : Digest.CollisionFree texts)
    (member : ι) (path source : Bytes)
    (hashed : ∀ text ∈ p.hashedBy (.compile member path source), text ∈ texts) :
    Session.Transparent texts ((p.sessions member).compile (p.cacheOf member) path source)
      ((p.sessions member).compileAfresh path source) := by
  cases cached : p.cached member with
  | false =>
    rw [cacheOf, cached]
    exact ⟨rfl, rfl, by rintro c ⟨⟩⟩
  | true =>
    rw [cacheOf, cached]
    refine Session.transparent_compile h.sound free (h.regular member) (fun clean => ?_) path
    exact hashed _ (by simp [hashedBy, cached, clean])

/-- One call is answered alike with and without the cache, and the pools stay alike. -/
theorem Mirrors.call (h : Mirrors texts p q) (free : Digest.CollisionFree texts) (c : Call ι)
    (hashed : ∀ text ∈ p.hashedBy c, text ∈ texts) :
    (p.call c).1 = (q.call c).1 ∧ Mirrors texts (p.call c).2 (q.call c).2 := by
  cases c with
  | compile member path source =>
    have same : q.sessions member = p.sessions member := by rw [h.sessions]
    have regular := (h.regular member).compile source
    have done := h.transparent_compile free member path source hashed
    have without : (q.sessions member).compile (q.cacheOf member) path source
        = ⟨((p.sessions member).compileAfresh path source).1,
            ((p.sessions member).compileAfresh path source).2, none, []⟩ := by
      rw [cacheOf, h.uncached member, same]
      rfl
    constructor
    · simp only [Pool.call, without, done.answer, done.session]
    · simp only [Pool.call, without, done.session]
      refine h.setSession member ?_ ?_ q.cache
      · rw [Session.compileAfresh_eq]
        exact regular
      · cases left : ((p.sessions member).compile (p.cacheOf member) path source).cache with
        | none => exact h.sound
        | some c => exact done.cache c left
  | run member path source cancelled =>
    have same : q.sessions member = p.sessions member := by rw [h.sessions]
    have regular := (h.regular member).compile source
    constructor
    · simp only [Pool.call, same]
    · simp only [Pool.call, same, Session.run_session]
      exact h.setSession member regular h.sound q.cache
  | closeCache =>
    exact ⟨rfl, h.sessions, h.uncached, h.regular, h.sound⟩

theorem Mirrors.replies (h : Mirrors texts p q) (free : Digest.CollisionFree texts)
    (calls : List (Call ι)) (hashed : ∀ text ∈ p.hashed calls, text ∈ texts) :
    p.replies calls = q.replies calls := by
  induction calls generalizing p q with
  | nil => rfl
  | cons c calls ih =>
    obtain ⟨same, next⟩ := h.call free c fun text mem => hashed text (List.mem_append_left _ mem)
    rw [Pool.replies, Pool.replies, same,
      ih next fun text mem => hashed text (List.mem_append_right _ mem)]

/-- Whatever calls are made in whatever order on sessions of which some share a cache that is
empty at first, every call gives the same answer and leaves the same names registered as without
the cache, unless two of the texts that were hashed on the way have the same digest. -/
theorem cache_transparent (setup : ι → SessionSetup) (cache : Cache) (calls : List (Call ι))
    (empty : cache.rows = [])
    (free : Digest.CollisionFree ((new setup cache).hashed calls)) :
    (new setup cache).replies calls
      = (new (fun i => { setup i with cached := false }) cache).replies calls := by
  have start : Mirrors ((new setup cache).hashed calls) (new setup cache)
      (new (fun i => { setup i with cached := false }) cache) := {
    sessions := rfl
    uncached := fun _ => rfl
    regular := fun i => .new (setup i).indent
    sound := fun key row found => by simp [new, empty] at found }
  exact start.replies free calls fun _ mem => mem

/-- Two sessions that share a cache: the second one takes `f` from what the first one stored, the
first one rebinds `<` in a failing run and goes on without the cache, and the cache is closed. -/
theorem cache_transparent_shared :
    let setup : Bool → SessionSetup := fun _ => ⟨utf8 " ", ⟨utf8 "idle", fun _ _ => {}⟩, 0, true⟩
    let cache : Cache := { path := utf8 "egg.db" }
    let calls : List (Call Bool) :=
      [.compile false [] (utf8 "define(f,fun(1))"), .compile true [] (utf8 "define(f,fun(1))"),
        .run false [] (utf8 "do(set(<,2),g)") false, .compile false [] (utf8 "f()"),
        .compile true [] (utf8 "f()"), .closeCache, .compile true [] (utf8 "f()")]
    cache.rows = [] ∧ Digest.CollisionFree ((new setup cache).hashed calls)
      ∧ (new setup cache).replies calls
          = (new (fun i => { setup i with cached := false }) cache).replies calls := by
  intro setup cache calls
  have free : Digest.CollisionFree ((new setup cache).hashed calls) := by decide +kernel
  exact ⟨rfl, free, cache_transparent setup cache calls rfl free⟩

end Pool

end EggLang
