import EggLang.Proofs.Server.Ownership
import EggLang.Proofs.Session.Transparency

/-!
# Sessions do not influence each other

However the requests of the clients interleave, a session of the server is at any time what is
left of a new session without a cache after the requests that ran on it, and the replies to them
are the replies of that session. The one thing that sessions share is the cache, and a sound cache
changes no answer.
-/

namespace EggLang

namespace Session

/-- The answer to a request on a session that has no cache and no other user, and what is left of
the session: a source is compiled or run as by a call of the session. -/
def answer (s : Session) : Request → Reply × Session
  | .compile _ source =>
    let compiled := s.compile none [] source
    match compiled.answer with
    | .ok code => (.compiled code compiled.session.functions, compiled.session)
    | .error failure => (.ofFailure failure, compiled.session)
  | .run _ source =>
    let ((result, failure), after) := s.run [] source
    match failure, result with
    | some failure, _ => (.ofFailure failure, after)
    | none, none => (.ran [] [] (utf8 "null"), after)
    | none, some result =>
      match result.value.json with
      | .ok value => (.ran result.code result.output value, after)
      | .error u => (.failed .internal (utf8 "encoding result: " ++ u.message), after)
  | .openSession | .closeSession _ => (.closed s.functions, s)

/-- The answers to some requests, one after the other. -/
def answers (s : Session) : List Request → List Reply × Session
  | [] => ([], s)
  | r :: requests =>
    let (reply, s) := s.answer r
    let (replies, s) := s.answers requests
    (reply :: replies, s)

theorem answers_snoc (s : Session) (requests : List Request) (r : Request) :
    s.answers (requests ++ [r])
      = ((s.answers requests).1 ++ [((s.answers requests).2.answer r).1],
          ((s.answers requests).2.answer r).2) := by
  induction requests generalizing s with
  | nil => rfl
  | cons r' requests ih => simp only [List.cons_append, answers, ih]

theorem answer_compile (s : Session) (id source : Bytes) :
    (s.answer (.compile id source)).2 = (s.compile none [] source).session := by
  simp only [answer]
  split <;> rfl

theorem answer_run (s : Session) (id source : Bytes) :
    (s.answer (.run id source)).2 = (s.run [] source).2 := by
  rcases ran : s.run [] source with ⟨⟨result, failure⟩, after⟩
  cases failure with
  | some failure => simp only [answer, ran]
  | none =>
    cases result with
    | none => simp only [answer, ran]
    | some result => cases written : result.value.json <;> simp only [answer, ran, written]

/-- A request leaves a session in a state that a session can be in. -/
theorem regular_answer (r : Request) {s : Session} (h : s.compiler.Regular) :
    (s.answer r).2.compiler.Regular := by
  cases r with
  | openSession | closeSession => exact h
  | compile id source =>
    rw [answer_compile, Session.compile, Session.compileAfresh_eq]
    exact h.compile source
  | run id source =>
    rw [answer_run, Session.run_session]
    exact h.compile source

theorem regular_answers {s : Session} (h : s.compiler.Regular) (requests : List Request) :
    (s.answers requests).2.compiler.Regular := by
  induction requests generalizing s with
  | nil => exact h
  | cons r requests ih => exact ih (regular_answer r h)

/-- The texts that a request hashes on a session. -/
def hashedBy (s : Session) (cache : Option Cache) : Request → List Bytes
  | .compile _ source => if cache.isSome && s.mayCache then [s.keyText source] else []
  | _ => []

end Session

theorem Cache.Sound.mono {texts more : List Bytes} {c : Cache} (h : c.Sound texts)
    (sub : ∀ text ∈ texts, text ∈ more) : c.Sound more := by
  intro key row found
  obtain ⟨t, source, output, recorded⟩ := h key row found
  exact ⟨t, source, output, { recorded with mem := sub _ recorded.mem }⟩

namespace Server

variable {texts : List Bytes}

/-- A run has no use for the cache. -/
theorem serve_run (id source : Bytes) (s : Session) (cache : Option Cache) :
    serve (.run id source) s cache
      = ((s.answer (.run id source)).1, (s.answer (.run id source)).2, cache) := by
  rcases ran : s.run [] source with ⟨⟨result, failure⟩, after⟩
  cases failure with
  | some failure => simp only [serve, Session.answer, ran]
  | none =>
    cases result with
    | none => simp only [serve, Session.answer, ran]
    | some result =>
      cases written : result.value.json <;> simp only [serve, Session.answer, ran, written]

/-- Without a cache the server's part in a request is what the session answers. -/
theorem serve_eq_answer (r : Request) (s : Session) :
    serve r s none = ((s.answer r).1, (s.answer r).2, none) := by
  cases r with
  | openSession | closeSession => rfl
  | run id source => exact serve_run id source s none
  | compile id source =>
    have without : (s.compile none [] source).cache = none := rfl
    cases compiled : (s.compile none [] source).answer <;>
      simp only [serve, Session.answer, compiled, without]

theorem serve_compile (id source : Bytes) (s : Session) (cache : Option Cache) :
    (serve (.compile id source) s cache).2
      = ((s.compile cache [] source).session, (s.compile cache [] source).cache) := by
  simp only [serve]
  split <;> rfl

/-- A request that runs on a session with a sound cache gets the answer of the session that has
none. -/
theorem serve_transparent (r : Request) {s : Session} (regular : s.compiler.Regular)
    {cache : Option Cache} (sound : ∀ c, cache = some c → c.Sound texts)
    (free : Digest.CollisionFree texts) (hashed : ∀ text ∈ s.hashedBy cache r, text ∈ texts) :
    (serve r s cache).1 = (s.answer r).1 ∧ (serve r s cache).2.1 = (s.answer r).2
      ∧ ∀ c, (serve r s cache).2.2 = some c → c.Sound texts := by
  cases r with
  | openSession | closeSession => exact ⟨rfl, rfl, sound⟩
  | run id source =>
    rw [serve_run id source s cache]
    exact ⟨rfl, rfl, sound⟩
  | compile id source =>
    cases cache with
    | none =>
      rw [serve_eq_answer]
      exact ⟨rfl, rfl, nofun⟩
    | some c =>
      have mem : s.mayCache → s.keyText source ∈ texts := by
        intro clean
        exact hashed _ (by simp [Session.hashedBy, clean])
      have done := Session.transparent_compile (sound c rfl) free regular mem []
      have without : s.compile none [] source
          = ⟨(s.compileAfresh [] source).1, (s.compileAfresh [] source).2, none, []⟩ := rfl
      refine ⟨?_, ?_, ?_⟩
      · simp only [serve, Session.answer, without, ← done.answer, ← done.session]
        cases (s.compile (some c) [] source).answer <;> rfl
      · rw [serve_compile, Session.answer_compile, without, done.session]
      · rw [serve_compile]
        exact done.cache

/-- The texts that a move of a request hashes. -/
def hashedBy (srv : Server) : Phase → List Bytes
  | .waiting r =>
    match srv.factory with
    | .ok s => if r.id = [] then s.hashedBy srv.cache r else []
    | .error _ => []
  | .found r _ n =>
    match srv.hosted[n]? with
    | some h => if h.isClosed then [] else h.session.hashedBy srv.cache r
    | none => []
  | _ => []

/-- Whatever a move does, the ids and the way sessions are made stay the same, and no session is
forgotten. -/
theorem Move.kept {srv srv' : Server} {phase phase' : Phase} (move : Move srv phase srv' phase') :
    srv'.ids = srv.ids ∧ srv'.factory = srv.factory
      ∧ srv.hosted.length ≤ srv'.hosted.length := by
  cases move with
  | unmade | made | unknown | removed | found | refused | answered =>
    exact ⟨rfl, rfl, Nat.le_refl _⟩
  | nameless =>
    rw [serveAlone]
    split <;> exact ⟨rfl, rfl, Nat.le_refl _⟩
  | opened => exact ⟨rfl, rfl, by simp [insert]⟩
  | ran => exact ⟨rfl, rfl, by simp⟩
  | @closed n =>
    obtain ⟨same, length⟩ := srv.close_kept n
    exact ⟨by rw [same], by rw [same], Nat.le_of_eq length.symm⟩

namespace Traffic

/-- The texts that a turn hashes. -/
def hashedBy (t : Traffic) : Turn → List Bytes
  | .client i =>
    match t.clients[i]? with
    | some c => t.server.hashedBy c.phase
    | none => []
  | _ => []

/-- The texts that are hashed in some turns. -/
def hashed (t : Traffic) : List Turn → List Bytes
  | [] => []
  | turn :: turns => t.hashedBy turn ++ (t.turn turn).hashed turns

/-- What a reply to a client's request goes back to: work on a session that the client named was
turned away or is in the log, and a session that was closed is in the log. -/
structure Answered (t : Traffic) (i : Nat) (r : Request) (reply : Reply) : Prop where
  work : r.isWork → r.id ≠ [] → reply = .unknownSession r.id ∨ reply = .closedSession r.id
    ∨ ∃ n, t.server.ids n = r.id ∧ .ran i n r reply ∈ t.log
  close : ∀ functions, r.isWork = false → reply = .closed functions →
    ∃ n, r = .closeSession (t.server.ids n) ∧ .closed i n functions ∈ t.log

/-- What is known of a client by how far its request has come. -/
def Fits (t : Traffic) (i : Nat) (c : Client) : Prop :=
  match c.phase with
  | .waiting r => r = c.request
  | .made s => c.request = .openSession ∧ t.server.factory = .ok s
  | .found r id n => r = c.request ∧ r.isWork ∧ r.id = id ∧ t.server.ids n = id
  | .removed n => c.request = .closeSession (t.server.ids n)
  | .done reply => t.Answered i c.request reply

/-- What an event of the log goes back to. -/
def Traced (t : Traffic) : Event → Prop
  | .ran i n r reply =>
    t.clients[i]? = some ⟨r, .done reply⟩ ∧ r.isWork ∧ r.id = t.server.ids n
  | .closed i n functions =>
    t.clients[i]? = some ⟨.closeSession (t.server.ids n), .done (.closed functions)⟩
  | .dropped _ => True

/-- The table, the clients and the log belong together. -/
structure Booked (t : Traffic) : Prop where
  table : ∀ entry ∈ t.server.table, entry.1 = t.server.ids entry.2
  clients : ∀ i c, t.clients[i]? = some c → t.Fits i c
  traced : ∀ e ∈ t.log, t.Traced e
  born : ∀ e ∈ t.log, e.session < t.server.hosted.length
  once : (t.log.filterMap Event.client?).Nodup

variable {t t' : Traffic}

theorem Answered.unknown (r : Request) {i : Nat} : t.Answered i r (.unknownSession r.id) where
  work _ _ := .inl rfl
  close := by rintro _ _ ⟨⟩

/-- The reply to a request that does not work on a session and closes none. -/
theorem Answered.idle {i : Nat} {r : Request} {reply : Reply} (idle : r.isWork = false)
    (other : ∀ functions, reply ≠ .closed functions) : t.Answered i r reply where
  work work := by simp [idle] at work
  close functions _ closed := (other functions closed).elim

theorem Answered.worked {i : Nat} {r : Request} {reply : Reply} (work : r.isWork)
    (told : r.id ≠ [] → reply = .unknownSession r.id ∨ reply = .closedSession r.id
      ∨ ∃ n, t.server.ids n = r.id ∧ .ran i n r reply ∈ t.log) : t.Answered i r reply where
  work _ := told
  close _ idle := by simp [work] at idle

theorem Answered.mono {i : Nat} {r : Request} {reply : Reply} (h : t.Answered i r reply)
    (ids : t'.server.ids = t.server.ids) (log : ∀ e ∈ t.log, e ∈ t'.log) :
    t'.Answered i r reply where
  work work named := by
    rw [ids]
    rcases h.work work named with unknown | closed | ⟨n, at_n, mem⟩
    · exact .inl unknown
    · exact .inr (.inl closed)
    · exact .inr (.inr ⟨n, at_n, log _ mem⟩)
  close functions idle closed := by
    obtain ⟨n, at_n, mem⟩ := h.close functions idle closed
    exact ⟨n, ids ▸ at_n, log _ mem⟩

theorem Fits.mono {i : Nat} {c : Client} (h : t.Fits i c) (ids : t'.server.ids = t.server.ids)
    (factory : t'.server.factory = t.server.factory) (log : ∀ e ∈ t.log, e ∈ t'.log) :
    t'.Fits i c := by
  obtain ⟨r, phase⟩ := c
  cases phase with
  | waiting => exact h
  | made => exact ⟨h.1, factory ▸ h.2⟩
  | found => exact ⟨h.1, h.2.1, h.2.2.1, ids ▸ h.2.2.2⟩
  | removed n =>
    have named : r = .closeSession (t.server.ids n) := h
    exact named.trans (by rw [ids])
  | done reply => exact Answered.mono h ids log

theorem Booked.start (server : Server) (requests : List Request) (table : server.table = []) :
    (Traffic.start server requests).Booked where
  table entry mem := by simp [Traffic.start, table] at mem
  clients i c at_i := by
    obtain ⟨r, -, rfl⟩ := List.mem_map.1 (List.mem_of_getElem? at_i)
    rfl
  traced e mem := by cases mem
  born e mem := by cases mem
  once := .nil

theorem getElem?_set_client {clients : List Client} {i : Nat} {c : Client}
    (at_i : clients[i]? = some c) (d : Client) (j : Nat) :
    (clients.set i d)[j]? = if i = j then some d else clients[j]? := by
  have bound := (List.getElem?_eq_some_iff.1 at_i).1
  rw [List.getElem?_set, if_pos bound]

/-- A move of a request that has no reply yet. -/
theorem Booked.client (h : t.Booked) {i : Nat} {c : Client} (at_i : t.clients[i]? = some c)
    (unanswered : c.phase.isDone = false) {server : Server} {phase : Phase}
    {events : List Event}
    (kept : server.ids = t.server.ids ∧ server.factory = t.server.factory
      ∧ t.server.hosted.length ≤ server.hosted.length)
    (table : ∀ entry ∈ server.table, entry.1 = t.server.ids entry.2)
    (after : t' = { t with
      server, clients := t.clients.set i { c with phase }, log := t.log ++ events })
    (fits : t'.Fits i { c with phase })
    (single : events.length ≤ 1)
    (new : ∀ e ∈ events, e.client? = some i ∧ t'.Traced e ∧ e.session < server.hosted.length) :
    t'.Booked := by
  obtain ⟨ids, factory, longer⟩ := kept
  have at_set := getElem?_set_client at_i { c with phase }
  have fresh : ∀ e ∈ t.log, e.client? ≠ some i := by
    intro e mem same
    have traced := h.traced e mem
    cases e with
    | ran j n r reply =>
      cases same
      have seen := traced.1
      rw [at_i] at seen
      have phase : c.phase = .done reply := congrArg Client.phase (Option.some.inj seen)
      simp [phase, Phase.isDone] at unanswered
    | closed j n functions =>
      cases same
      have seen := at_i.symm.trans traced
      have phase : c.phase = .done (.closed functions) :=
        congrArg Client.phase (Option.some.inj seen)
      simp [phase, Phase.isDone] at unanswered
    | dropped n => cases same
  subst after
  refine ⟨fun entry mem => ids ▸ table entry mem, ?clients, ?traced, ?born, ?once⟩
  case clients =>
    intro j d at_j
    simp only [at_set] at at_j
    split at at_j
    next same =>
      cases at_j
      exact same ▸ fits
    next => exact (h.clients j d at_j).mono ids factory fun e mem => List.mem_append_left _ mem
  case traced =>
    intro e mem
    rcases List.mem_append.1 mem with old | mem
    · have elsewhere := fresh e old
      have traced := h.traced e old
      cases e with
      | ran j n r reply =>
        have other : i ≠ j := fun same => elsewhere (congrArg some same.symm)
        simp only [Traced, at_set, if_neg other, ids]
        exact traced
      | closed j n functions =>
        have other : i ≠ j := fun same => elsewhere (congrArg some same.symm)
        simp only [Traced, at_set, if_neg other, ids]
        exact traced
      | dropped n => trivial
    · exact (new e mem).2.1
  case born =>
    intro e mem
    rcases List.mem_append.1 mem with old | mem
    · exact Nat.lt_of_lt_of_le (h.born e old) longer
    · exact (new e mem).2.2
  case once =>
    rw [List.filterMap_append]
    refine List.nodup_append.2 ⟨h.once, ?_, ?_⟩
    · match events, single with
      | [], _ => exact .nil
      | [e], _ => simp [(new e (List.mem_singleton_self e)).1]
    · intro j old k mem
      obtain ⟨e, seen, by_j⟩ := List.mem_filterMap.1 old
      obtain ⟨e', mem', by_k⟩ := List.mem_filterMap.1 mem
      have same := (new e' mem').1
      rintro rfl
      exact fresh e seen (by_j.trans (by_k.symm.trans same))

/-- A move that is not seen on any session. -/
theorem Booked.quiet (h : t.Booked) {i : Nat} {c : Client} (at_i : t.clients[i]? = some c)
    (unanswered : c.phase.isDone = false) {server : Server} {phase : Phase}
    (kept : server.ids = t.server.ids ∧ server.factory = t.server.factory
      ∧ t.server.hosted.length ≤ server.hosted.length)
    (table : ∀ entry ∈ server.table, entry.1 = t.server.ids entry.2)
    (after : t' = { t with
      server, clients := t.clients.set i { c with phase }, log := t.log ++ [] })
    (fits : t'.Fits i { c with phase }) : t'.Booked :=
  h.client at_i unanswered kept table after fits (Nat.zero_le 1) (List.forall_mem_nil _)

/-- A move that is seen on a session. -/
theorem Booked.seen (h : t.Booked) {i : Nat} {c : Client} (at_i : t.clients[i]? = some c)
    (unanswered : c.phase.isDone = false) {server : Server} {phase : Phase} {e : Event}
    (kept : server.ids = t.server.ids ∧ server.factory = t.server.factory
      ∧ t.server.hosted.length ≤ server.hosted.length)
    (table : ∀ entry ∈ server.table, entry.1 = t.server.ids entry.2)
    (after : t' = { t with
      server, clients := t.clients.set i { c with phase }, log := t.log ++ [e] })
    (fits : t'.Fits i { c with phase }) (own : e.client? = some i) (traced : t'.Traced e)
    (born : e.session < t.server.hosted.length) : t'.Booked := by
  refine h.client at_i unanswered kept table after fits (Nat.le_refl 1) fun e' mem => ?_
  rw [List.mem_singleton.1 mem]
  exact ⟨own, traced, Nat.lt_of_lt_of_le born kept.2.2⟩

/-- A request that runs on a session. -/
theorem Booked.ran (h : t.Booked) {i n : Nat} {r : Request} {d : Hosted} {reply : Reply}
    {s : Session} {cache : Option Cache} (at_i : t.clients[i]? = some ⟨r, .found r r.id n⟩)
    (work : r.isWork) (at_n : t.server.ids n = r.id) (found : t.server.hosted[n]? = some d)
    (isOpen : d.isClosed = false) (served : serve r d.session t.server.cache = (reply, s, cache)) :
    Booked { t with
      server := { t.server with cache, hosted := t.server.hosted.set n { d with session := s } }
      clients := t.clients.set i ⟨r, .done reply⟩
      log := t.log ++ [.ran i n r reply] } := by
  have bound := (List.getElem?_eq_some_iff.1 found).1
  have at_set := (getElem?_set_client at_i ⟨r, .done reply⟩ i).trans (if_pos rfl)
  have logged := List.mem_append_right t.log (List.mem_singleton_self (.ran i n r reply))
  have move : Move t.server (.found r r.id n) _ _ := .ran found isOpen served
  refine h.seen (e := .ran i n r reply) at_i rfl move.kept h.table rfl ?_ rfl ?_ bound
  · exact .worked work fun _ => .inr (.inr ⟨n, at_n, logged⟩)
  · exact ⟨at_set, work, at_n.symm⟩

/-- A session that is closed for a client. -/
theorem Booked.closed (h : t.Booked) (owned : t.Owned) {i n : Nat}
    (at_i : t.clients[i]? = some ⟨.closeSession (t.server.ids n), .removed n⟩) :
    Booked { t with
      server := (t.server.close n).1
      clients := t.clients.set i
        ⟨.closeSession (t.server.ids n), .done (.closed (t.server.close n).2)⟩
      log := t.log ++ [.closed i n (t.server.close n).2] } := by
  have move : Move t.server (.removed n) (t.server.close n).1 _ := .closed
  have kept := move.kept
  have ids : (t.server.close n).1.ids = t.server.ids := kept.1
  have table : (t.server.close n).1.table = t.server.table := by rw [(t.server.close_kept n).1]
  have bound := (owned.held_of_takes at_i (beq_self_eq_true n)).2
  have at_set := (getElem?_set_client at_i
    ⟨.closeSession (t.server.ids n), .done (.closed (t.server.close n).2)⟩ i).trans (if_pos rfl)
  have logged := List.mem_append_right t.log
    (List.mem_singleton_self (.closed i n (t.server.close n).2))
  refine h.seen (e := .closed i n (t.server.close n).2) at_i rfl kept (table.symm ▸ h.table) rfl
    ?_ rfl ?_ bound
  · refine ⟨by rintro ⟨⟩, ?_⟩
    rintro functions - ⟨⟩
    exact ⟨n, by rw [ids], logged⟩
  · simp only [Traced, ids]
    exact at_set

/-- A session that is closed by the stopping server. -/
theorem Booked.drop (h : t.Booked) {n : Nat} {leaving : List Nat}
    (bound : n < t.server.hosted.length) :
    Booked { t with
      server := (t.server.close n).1, leaving, log := t.log ++ [.dropped n] } := by
  obtain ⟨same, length⟩ := t.server.close_kept n
  have ids : (t.server.close n).1.ids = t.server.ids := by rw [same]
  have factory : (t.server.close n).1.factory = t.server.factory := by rw [same]
  refine ⟨?table, ?clients, ?traced, ?born, ?once⟩
  case table =>
    rw [same]
    exact h.table
  case clients =>
    intro j c at_j
    exact (h.clients j c at_j).mono ids factory fun e mem => List.mem_append_left _ mem
  case traced =>
    intro e mem
    rcases List.mem_append.1 mem with old | new
    · have traced := h.traced e old
      cases e with
      | ran => exact ⟨traced.1, traced.2.1, ids ▸ traced.2.2⟩
      | closed =>
        simp only [Traced, ids]
        exact traced
      | dropped => trivial
    · rw [List.mem_singleton.1 new]
      trivial
  case born =>
    intro e mem
    rcases List.mem_append.1 mem with old | new
    · exact length ▸ h.born e old
    · rw [List.mem_singleton.1 new, length]
      exact bound
  case once =>
    rw [List.filterMap_append]
    exact (List.append_nil _).symm ▸ h.once

theorem Booked.turn (h : t.Booked) (owned : t.Owned) (turn : Turn) : (t.turn turn).Booked := by
  have at_table {id : Bytes} {n : Nat} (found : t.server.table.lookup id = some n) :
      id = t.server.ids n := by
    obtain ⟨before, after, split, -⟩ := List.lookup_eq_some_iff.1 found
    exact h.table (id, n) (by simp [split])
  refine t.turn_induction turn h ?client ?empty ?drop
  case client =>
    intro i c server phase _ at_i move
    have kept := move.kept
    obtain ⟨request, before⟩ := c
    have fits := h.clients i _ at_i
    cases move with
    | @answered reply =>
      have same : t.clients.set i ⟨request, .done reply⟩ = t.clients := by
        obtain ⟨bound, at_i⟩ := List.getElem?_eq_some_iff.1 at_i
        rw [← at_i, List.set_getElem_self]
      simpa [Event.ofMove, same] using h
    | unmade error =>
      cases fits
      exact h.quiet at_i rfl kept h.table rfl (.idle rfl (by rintro _ ⟨⟩))
    | made ok =>
      cases fits
      have made : Request.openSession = .openSession ∧ t.server.factory = .ok _ := ⟨rfl, ok⟩
      exact h.quiet at_i rfl kept h.table rfl made
    | @unknown r absent =>
      obtain rfl : r = request := fits
      exact h.quiet at_i rfl kept h.table rfl (.unknown r)
    | @removed id n found =>
      cases fits
      have named := congrArg Request.closeSession (at_table found)
      refine h.quiet at_i rfl kept (fun entry mem => ?_) rfl named
      exact h.table entry (List.mem_filter.1 mem).1
    | @nameless r work nameless =>
      obtain rfl : r = request := fits
      have table : (t.server.serveAlone r).1.table = t.server.table := by
        rw [serveAlone]
        split <;> rfl
      refine h.quiet at_i rfl kept (table.symm ▸ h.table) rfl (.worked work fun named => ?_)
      exact (named nameless).elim
    | @found r n work named found =>
      obtain rfl : r = request := fits
      have at_n := (at_table found).symm
      exact h.quiet at_i rfl kept h.table rfl ⟨rfl, work, rfl, at_n⟩
    | @opened s =>
      obtain ⟨rfl, -⟩ := fits
      refine h.quiet at_i rfl kept (fun entry mem => ?_) rfl (.idle rfl (by rintro _ ⟨⟩))
      rcases List.mem_cons.1 mem with rfl | old
      · rfl
      · exact h.table entry old
    | @refused r id n reply gone told =>
      obtain ⟨rfl, work, rfl, at_n⟩ := fits
      have isNotFound : reply.isNotFound = true := by
        rcases told with rfl | rfl <;> simp
      simp only [Event.ofMove, isNotFound, if_true]
      refine h.quiet at_i rfl kept h.table rfl (.worked work fun _ => ?_)
      rcases told with unknown | closed
      · exact .inl unknown
      · exact .inr (.inl closed)
    | @ran r id n d reply s cache found isOpen served =>
      obtain ⟨rfl, work, rfl, at_n⟩ := fits
      have isFound : reply.isNotFound = false := by
        have told := isNotFound_serve r d.session t.server.cache
        rwa [served] at told
      simp only [Event.ofMove, isFound, Bool.false_eq_true, if_false]
      exact h.ran at_i work at_n found isOpen served
    | @closed n =>
      cases fits
      exact h.closed owned at_i
  case empty =>
    refine ⟨List.forall_mem_nil _, fun j c at_j => ?_, fun e mem => ?_, h.born, h.once⟩
    · exact (h.clients j c at_j).mono rfl rfl fun _ mem => mem
    · cases e <;> exact h.traced _ mem
  case drop =>
    intro k n at_k
    exact h.drop (owned.held_of_leaving (List.mem_of_getElem? at_k)).2

/-- Every session of the server is what is left of a session that has no cache and no other user
after the requests that ran on it, and the replies are those of that session. -/
structure Faithful (texts : List Bytes) (fresh : Session) (t : Traffic) : Prop where
  factory : ∀ s, t.server.factory = .ok s → s = fresh
  sound : ∀ c, t.server.cache = some c → c.Sound texts
  session_eq : ∀ n h, t.server.hosted[n]? = some h →
    h.session = (fresh.answers (t.requestsOn n)).2
  replies_eq : ∀ n, t.repliesOn n = (fresh.answers (t.requestsOn n)).1
  functions_eq : ∀ i n functions, .closed i n functions ∈ t.log →
    functions = (fresh.answers (t.requestsOn n)).2.functions

variable {fresh : Session}

/-- A session on which nothing is seen to happen has no users. -/
theorem Booked.uses_unborn (h : t.Booked) {n : Nat} (unborn : t.server.hosted.length ≤ n) :
    t.uses n = [] := by
  refine List.filterMap_eq_nil_iff.2 fun e mem => ?_
  have born := h.born e mem
  cases e with
  | ran i m r reply =>
    simp only [Event.session] at born
    exact if_neg (by omega)
  | closed | dropped => rfl

/-- A turn in which no request runs on a session. -/
theorem Faithful.work (h : t.Faithful texts fresh)
    (factory : t'.server.factory = t.server.factory)
    (sound : ∀ c, t'.server.cache = some c → c.Sound texts)
    (uses : ∀ n, t'.uses n = t.uses n)
    (sessions : ∀ n d, t'.server.hosted[n]? = some d →
      d.session = (fresh.answers (t.requestsOn n)).2)
    (functions : ∀ i n functions, .closed i n functions ∈ t'.log →
      functions = (fresh.answers (t.requestsOn n)).2.functions) : t'.Faithful texts fresh := by
  have requests_eq : ∀ n, t'.requestsOn n = t.requestsOn n := fun n => by
    rw [requestsOn, uses n, requestsOn]
  have replies_eq : ∀ n, t'.repliesOn n = t.repliesOn n := fun n => by
    rw [repliesOn, uses n, repliesOn]
  refine ⟨fun s ok => h.factory s (factory ▸ ok), sound, fun n d found => ?_, fun n => ?_,
    fun i n fs mem => ?_⟩
  · rw [requests_eq]
    exact sessions n d found
  · rw [requests_eq, replies_eq]
    exact h.replies_eq n
  · rw [requests_eq]
    exact functions i n fs mem

/-- A session that is closed was used as it is in the log. -/
theorem Faithful.close (h : t.Faithful texts fresh) (owned : t.Owned) {n : Nat}
    (going : t.ends n = 0) (bound : n < t.server.hosted.length) :
    (t.server.close n).2 = (fresh.answers (t.requestsOn n)).2.functions
      ∧ ∀ m d, (t.server.close n).1.hosted[m]? = some d →
          d.session = (fresh.answers (t.requestsOn m)).2 := by
  obtain ⟨d, found⟩ : ∃ d, t.server.hosted[n]? = some d := ⟨_, List.getElem?_eq_getElem bound⟩
  have isOpen : ¬ d.isClosed = true := by
    rw [owned.isClosed_iff n d found, going]
    exact Nat.lt_irrefl 0
  rw [close_eq found isOpen]
  refine ⟨by rw [h.session_eq n d found], fun m d' found' => ?_⟩
  simp only [List.getElem?_set, bound, if_true] at found'
  split at found'
  next same =>
    cases found'
    exact same ▸ h.session_eq n d found
  next => exact h.session_eq m d' found'

theorem uses_append (t : Traffic) (n : Nat) (server : Server) (clients : List Client)
    (leaving : List Nat) (events : List Event) :
    uses { t with server, clients, leaving, log := t.log ++ events } n
      = t.uses n ++ events.filterMap (Event.use? n) := by
  rw [uses, uses, List.filterMap_append]

/-- A request that runs on a session gets the reply of the session that is alone. -/
theorem Faithful.ran (h : t.Faithful texts fresh) (owned : t.Owned)
    (regular : fresh.compiler.Regular) (free : Digest.CollisionFree texts) {i n : Nat}
    {r : Request} {d : Hosted} {reply : Reply} {s : Session} {cache : Option Cache}
    {clients : List Client} (found : t.server.hosted[n]? = some d) (isOpen : d.isClosed = false)
    (served : serve r d.session t.server.cache = (reply, s, cache))
    (hashed : ∀ text ∈ d.session.hashedBy t.server.cache r, text ∈ texts) :
    Faithful texts fresh { t with
      server := { t.server with cache, hosted := t.server.hosted.set n { d with session := s } }
      clients
      log := t.log ++ [.ran i n r reply] } := by
  have bound := (List.getElem?_eq_some_iff.1 found).1
  have going : t.ends n = 0 := by
    have closed := owned.isClosed_iff n d found
    simp only [isOpen, Bool.false_eq_true, false_iff] at closed
    omega
  have session := h.session_eq n d found
  have transparent :=
    serve_transparent r (session ▸ Session.regular_answers regular _) h.sound free hashed
  rw [served, session] at transparent
  obtain ⟨same_reply, same_session, sound⟩ := transparent
  simp only at same_reply same_session sound
  have use_n : List.filterMap (Event.use? n) [.ran i n r reply] = [(r, reply)] := by
    simp [Event.use?]
  have use_m : ∀ m, n ≠ m → List.filterMap (Event.use? m) [.ran i n r reply] = [] := by
    intro m other
    simp [Event.use?, other]
  refine ⟨h.factory, sound, fun m d' found' => ?_, fun m => ?_, fun j m functions mem => ?_⟩
  · simp only [List.getElem?_set, bound, if_true] at found'
    rw [requestsOn, uses_append]
    split at found'
    next same =>
      subst same
      cases found'
      rw [use_n, List.map_append, List.map_singleton, Session.answers_snoc]
      exact same_session
    next other =>
      rw [use_m m other, List.append_nil]
      exact h.session_eq m d' found'
  · rw [requestsOn, repliesOn, uses_append]
    by_cases same : n = m
    · subst same
      rw [use_n, List.map_append, List.map_append, List.map_singleton, List.map_singleton,
        Session.answers_snoc]
      exact congrArg₂ (· ++ [·]) (h.replies_eq n) same_reply
    · rw [use_m m same, List.append_nil]
      exact h.replies_eq m
  · have old : .closed j m functions ∈ t.log := by simpa using mem
    have other : n ≠ m := ends_eq_zero_iff.1 going _ old rfl
    rw [requestsOn, uses_append, use_m m other, List.append_nil]
    exact h.functions_eq j m functions old

theorem Faithful.turn (h : t.Faithful texts fresh) (owned : t.Owned) (booked : t.Booked)
    (regular : fresh.compiler.Regular) (free : Digest.CollisionFree texts) (turn : Turn)
    (hashed : ∀ text ∈ t.hashedBy turn, text ∈ texts) : (t.turn turn).Faithful texts fresh := by
  refine t.turn_induction turn h ?client ?empty ?drop
  case client =>
    rintro i ⟨request, before⟩ server phase rfl at_i move
    obtain ⟨-, factory, -⟩ := move.kept
    simp only [hashedBy, at_i] at hashed
    have same_uses : ∀ n, t.uses n ++ List.filterMap (Event.use? n) [] = t.uses n :=
      fun n => List.append_nil _
    have old_log {functions : List Bytes} {j m : Nat} (mem : .closed j m functions ∈ t.log ++ []) :=
      h.functions_eq j m functions (by simpa using mem)
    cases move with
    | unmade | made | unknown | found | removed | answered =>
      refine h.work factory h.sound (fun n => ?_) h.session_eq fun _ _ _ => old_log
      exact (t.uses_append n _ _ _ _).trans (same_uses n)
    | @nameless r work nameless =>
      refine h.work factory ?_ (fun n => ?_) ?_ fun _ _ _ => old_log
      · cases made : t.server.factory with
        | error reason =>
          simp only [serveAlone, made]
          exact h.sound
        | ok s =>
          obtain rfl := h.factory s made
          simp only [Server.hashedBy, made, nameless, if_true] at hashed
          simp only [serveAlone, made]
          exact (serve_transparent r regular h.sound free hashed).2.2
      · exact (t.uses_append n _ _ _ _).trans (same_uses n)
      · rw [serveAlone]
        split <;> exact h.session_eq
    | @opened s =>
      refine h.work factory h.sound (fun n => ?_) (fun n d found => ?_) fun _ _ _ => old_log
      · exact (t.uses_append n _ _ _ _).trans (same_uses n)
      · simp only [insert, List.getElem?_append, List.getElem?_singleton] at found
        split at found
        next => exact h.session_eq n d found
        next unborn =>
          split at found
          · cases found
            have unused := booked.uses_unborn (Nat.not_lt.1 unborn)
            rw [requestsOn, unused]
            exact h.factory s (booked.clients i _ at_i).2
          · cases found
    | @refused r id n reply gone told =>
      have isNotFound : reply.isNotFound = true := by
        rcases told with rfl | rfl <;> simp
      simp only [Event.ofMove, isNotFound, if_true]
      refine h.work factory h.sound (fun n => ?_) h.session_eq fun _ _ _ => old_log
      exact (t.uses_append n _ _ _ _).trans (same_uses n)
    | @ran r id n d reply s cache found isOpen served =>
      have isFound : reply.isNotFound = false := by
        have told := isNotFound_serve r d.session t.server.cache
        rwa [served] at told
      simp only [Event.ofMove, isFound, Bool.false_eq_true, if_false]
      simp only [Server.hashedBy, found, isOpen, Bool.false_eq_true, if_false] at hashed
      exact h.ran owned regular free found isOpen served hashed
    | @closed n =>
      obtain ⟨going, bound⟩ := owned.held_of_takes at_i (beq_self_eq_true n)
      obtain ⟨functions_eq, sessions⟩ := h.close owned going bound
      refine h.work factory ?_ (fun m => ?_) sessions fun j m functions mem => ?_
      · rw [(t.server.close_kept n).1]
        exact h.sound
      · exact (t.uses_append m _ _ _ _).trans (same_uses m)
      · rcases List.mem_append.1 mem with old | new
        · exact h.functions_eq j m functions old
        · cases List.mem_singleton.1 new
          exact functions_eq
  case empty =>
    exact h.work rfl h.sound (fun n => rfl) h.session_eq h.functions_eq
  case drop =>
    intro k n at_k
    obtain ⟨going, bound⟩ := owned.held_of_leaving (List.mem_of_getElem? at_k)
    have kept := (t.server.close_kept n).1
    refine h.work (by rw [kept]) ?_ (fun m => ?_) (h.close owned going bound).2
      fun j m functions mem => ?_
    · rw [kept]
      exact h.sound
    · exact (t.uses_append m _ _ _ _).trans (List.append_nil _)
    · exact h.functions_eq j m functions (by simpa using mem)

theorem Faithful.run (h : t.Faithful texts fresh) (owned : t.Owned) (booked : t.Booked)
    (regular : fresh.compiler.Regular) (free : Digest.CollisionFree texts) (turns : List Turn)
    (hashed : ∀ text ∈ t.hashed turns, text ∈ texts) :
    (t.run turns).Owned ∧ (t.run turns).Booked ∧ (t.run turns).Faithful texts fresh := by
  induction turns generalizing t with
  | nil => exact ⟨owned, booked, h⟩
  | cons turn turns ih =>
    have next := h.turn owned booked regular free turn fun text mem =>
      hashed text (List.mem_append_left _ mem)
    exact ih next (owned.turn turn) (booked.turn owned turn) fun text mem =>
      hashed text (List.mem_append_right _ mem)

theorem ids_turn (t : Traffic) (turn : Turn) : (t.turn turn).server.ids = t.server.ids := by
  refine t.turn_induction (motive := (·.server.ids = t.server.ids)) turn rfl ?_ rfl ?_
  · intro i c server phase _ _ move
    exact move.kept.1
  · intro k n _
    rw [(t.server.close_kept n).1]

theorem ids_run (t : Traffic) (turns : List Turn) : (t.run turns).server.ids = t.server.ids := by
  induction turns generalizing t with
  | nil => rfl
  | cons turn turns ih => exact (ih (t.turn turn)).trans (t.ids_turn turn)

/-- A session ends once. -/
theorem Owned.end_unique (h : t.Owned) {e e' : Event} (mem : e ∈ t.log) (mem' : e' ∈ t.log)
    (isEnd : e.isEnd) (isEnd' : e'.isEnd) (same : e.session = e'.session) : e = e' := by
  obtain ⟨p, bound, rfl⟩ := List.getElem_of_mem mem
  obtain ⟨q, bound', rfl⟩ := List.getElem_of_mem mem'
  have last := List.pairwise_iff_getElem.1 h.last
  rcases Nat.lt_trichotomy p q with before | rfl | after
  · exact (last p q bound bound' before isEnd same.symm).elim
  · rfl
  · exact (last q p bound' bound after isEnd' same).elim

/-- What the clients of a server see of its sessions, where `fresh` is a new one. -/
structure Isolated (fresh : Session) (t : Traffic) : Prop where
  /-- No request runs on a session that is over, and none closes it again. -/
  end_last : t.log.Pairwise fun earlier later => earlier.isEnd → later.session ≠ earlier.session
  /-- Of the requests that close the session under an id one succeeds. -/
  close_once : ∀ (i j : Nat) (id : Bytes) (functions functions' : List Bytes),
    t.clients[i]? = some ⟨.closeSession id, .done (.closed functions)⟩ →
    t.clients[j]? = some ⟨.closeSession id, .done (.closed functions')⟩ → i = j
  /-- It gets the names that all requests that ran on the session have registered. -/
  close_functions : ∀ (i : Nat) (id : Bytes) (functions : List Bytes),
    t.clients[i]? = some ⟨.closeSession id, .done (.closed functions)⟩ →
    ∃ n < t.server.hosted.length, t.server.ids n = id ∧ .closed i n functions ∈ t.log
      ∧ functions = (fresh.answers (t.requestsOn n)).2.functions
  /-- A request that names a session is told that it is gone, or has run on it. -/
  work_cases : ∀ (i : Nat) (r : Request) (reply : Reply),
    t.clients[i]? = some ⟨r, .done reply⟩ → r.isWork → r.id ≠ [] →
    reply = .unknownSession r.id ∨ reply = .closedSession r.id
      ∨ ∃ n < t.server.hosted.length, t.server.ids n = r.id ∧ .ran i n r reply ∈ t.log
  /-- What is in the log is what the clients have asked for and got, each of them once. -/
  log_traced : ∀ e ∈ t.log, t.Traced e
  log_once : (t.log.filterMap Event.client?).Nodup
  /-- The requests that ran on a session got the replies of a session that is alone. -/
  replies_eq : ∀ n, t.repliesOn n = (fresh.answers (t.requestsOn n)).1
  session_eq : ∀ n h, t.server.hosted[n]? = some h →
    h.session = (fresh.answers (t.requestsOn n)).2

/-- However the requests of any number of clients interleave, also with a stop of the server, the
sessions are isolated, if no two of the sessions that were opened have the same id and no two of
the texts that were hashed, now or for what was in the cache before, have the same digest. -/
theorem isolated (factory : Except Bytes Session) (cache : Option Cache) (ids : Nat → Bytes)
    (indent : Bytes) (executor : Executor) (timeout : Int) (requests : List Request)
    (turns : List Turn) (earlier : List Bytes)
    (new : ∀ s, factory = .ok s → s = .new indent executor timeout)
    (sound : ∀ c, cache = some c → c.Sound earlier)
    (free : Digest.CollisionFree
      (earlier ++ (start { factory, cache, ids } requests).hashed turns))
    (distinct : ∀ m < ((start { factory, cache, ids } requests).run turns).server.hosted.length,
      ∀ n < ((start { factory, cache, ids } requests).run turns).server.hosted.length,
        ids m = ids n → m = n) :
    Isolated (.new indent executor timeout)
      ((start { factory, cache, ids } requests).run turns) := by
  let start : Traffic := start { factory, cache, ids } requests
  let texts := earlier ++ start.hashed turns
  have faithful : start.Faithful texts (.new indent executor timeout) := {
    factory := new
    sound := fun c at_cache => (sound c at_cache).mono fun _ mem => List.mem_append_left _ mem
    session_eq := fun n h found => by cases found
    replies_eq := fun n => rfl
    functions_eq := fun i n functions mem => by cases mem }
  obtain ⟨owned, booked, faithful⟩ := faithful.run (.start _ requests rfl rfl)
    (.start _ requests rfl) (.new indent) free turns fun _ mem => List.mem_append_right _ mem
  have ids_eq : (start.run turns).server.ids = ids := start.ids_run turns
  have closing {i : Nat} {id : Bytes} {functions : List Bytes}
      (at_i : (start.run turns).clients[i]? = some ⟨.closeSession id, .done (.closed functions)⟩) :
      ∃ n, ids n = id ∧ .closed i n functions ∈ (start.run turns).log := by
    obtain ⟨n, at_n, mem⟩ := (booked.clients i _ at_i).close functions rfl rfl
    exact ⟨n, ids_eq ▸ (Request.closeSession.inj at_n).symm, mem⟩
  refine ⟨owned.last, ?_, ?_, ?_, booked.traced, booked.once, faithful.replies_eq,
    faithful.session_eq⟩
  · intro i j id functions functions' at_i at_j
    obtain ⟨n, at_n, mem⟩ := closing at_i
    obtain ⟨m, at_m, mem'⟩ := closing at_j
    have same := distinct n (booked.born _ mem) m (booked.born _ mem') (at_n.trans at_m.symm)
    have event := owned.end_unique mem mem' rfl rfl same
    exact (Event.closed.inj event).1
  · intro i id functions at_i
    obtain ⟨n, at_n, mem⟩ := closing at_i
    exact ⟨n, booked.born _ mem, by rw [ids_eq, at_n], mem, faithful.functions_eq i n _ mem⟩
  · intro i r reply at_i work named
    rcases (booked.clients i _ at_i).work work named with unknown | closed | ⟨n, at_n, mem⟩
    · exact .inl unknown
    · exact .inr (.inl closed)
    · exact .inr (.inr ⟨n, booked.born _ mem, at_n, mem⟩)

/-- An executor under which a program writes its own text. -/
def echo : Executor :=
  ⟨utf8 "echo", fun _ program => { execution := some { output := program } }⟩

/-- A server with an empty cache, and clients that open two sessions and use them. -/
def lateStart : Traffic :=
  start { factory := .ok (.new (utf8 " ") echo), cache := some { path := utf8 "egg.db" } }
    [.openSession, .openSession, .compile (standardId 1) (utf8 "define(f,fun(x,x))"),
      .compile (standardId 0) (utf8 "define(f,fun(x,x))"), .run (standardId 0) (utf8 "f(2)"),
      .closeSession (standardId 0), .compile [] (utf8 "define(f,fun(x,x))"),
      .run (standardId 1) (utf8 "f(1)")]

/-- Three requests find a session before the first of them uses it, and one of them comes too late:
the session is closed by then. The server is stopped in the end. -/
def lateTurns : List Turn :=
  [.client 0, .client 0, .client 1, .client 1, .client 2, .client 3, .client 4, .client 2,
    .client 6, .client 7, .client 3, .client 5, .client 5, .client 4, .client 7, .empty, .drop 0]

/-- The code that both sessions give for the function, one from the compiler and one from the
cache. -/
def lateCode : Bytes := utf8 "var f = function(x) \x7b
 if (arguments.length != 1) \x7b
  throw new TypeError(\"Wrong number of arguments\")
 \x7d
 return x
\x7d"

/-- What is seen of the two sessions. -/
def lateLog : List Event :=
  [.ran 2 1 (.compile (standardId 1) (utf8 "define(f,fun(x,x))")) (.compiled lateCode [utf8 "f"]),
    .ran 3 0 (.compile (standardId 0) (utf8 "define(f,fun(x,x))")) (.compiled lateCode [utf8 "f"]),
    .closed 5 0 [utf8 "f"],
    .ran 7 1 (.run (standardId 1) (utf8 "f(1)"))
      (.ran (utf8 "return f(1)") (utf8 "return f(1)") (utf8 "null")),
    .dropped 1]

/-- The second session stores what the first one then takes from the cache, the second one runs a
call of the function, and both end, the first one by its client. -/
theorem isolated_late_request :
    (∀ s, lateStart.server.factory = .ok s → s = .new (utf8 " ") echo)
      ∧ (∀ c, lateStart.server.cache = some c → c.Sound [])
      ∧ Digest.CollisionFree (lateStart.hashed lateTurns)
      ∧ (∀ m < (lateStart.run lateTurns).server.hosted.length,
          ∀ n < (lateStart.run lateTurns).server.hosted.length,
            standardId m = standardId n → m = n)
      ∧ (lateStart.run lateTurns).log = lateLog
      ∧ Isolated (.new (utf8 " ") echo) (lateStart.run lateTurns) := by
  have new : ∀ s, lateStart.server.factory = .ok s → s = .new (utf8 " ") echo := by
    rintro s ⟨⟩
    rfl
  have sound : ∀ c, lateStart.server.cache = some c → c.Sound [] := by
    rintro c ⟨⟩ key row found
    cases found
  obtain ⟨free, distinct, seen⟩ : Digest.CollisionFree (lateStart.hashed lateTurns)
      ∧ (∀ m < (lateStart.run lateTurns).server.hosted.length,
          ∀ n < (lateStart.run lateTurns).server.hosted.length,
            standardId m = standardId n → m = n)
      ∧ (lateStart.run lateTurns).log = lateLog := by decide +kernel
  exact ⟨new, sound, free, distinct, seen,
    isolated _ _ _ _ _ _ _ lateTurns [] new sound free distinct⟩

end Traffic

end Server

end EggLang
