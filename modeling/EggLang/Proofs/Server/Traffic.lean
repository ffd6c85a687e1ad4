import EggLang.Server.Basic

/-!
# Requests that interleave

Each client has one request under way, and the turns of the clients come in any order: a turn is
one move of one request, so between the move that finds a session and the move that uses it
anything may happen. The server may also be stopped at any time: the sessions of the table are
taken out of it in one turn and closed later, one in a turn.

The log tells from the outside what happened on the sessions. A request has run on the session it
had found if it was not told that the session is gone, and a session is over when the request that
took it out of the table is answered, or the stopping server has closed it.
-/

namespace EggLang

namespace Reply

/-- Whether a reply says that a session is not there. -/
def isNotFound : Reply → Bool
  | failed .notFound _ => true
  | _ => false

@[simp] theorem isNotFound_unknownSession (id : Bytes) : (unknownSession id).isNotFound = true :=
  rfl

@[simp] theorem isNotFound_closedSession (id : Bytes) : (closedSession id).isNotFound = true :=
  rfl

@[simp] theorem isNotFound_ofFailure (f : Failure) : (ofFailure f).isNotFound = false := by
  cases kind : f.kind <;> simp [ofFailure, isNotFound, kind, Status.ofKind]

end Reply

namespace Request

/-- The id that a request names; it is empty if the request names none. -/
def id : Request → Bytes
  | openSession => []
  | closeSession id | compile id _ | run id _ => id

/-- Whether a request has a part that happens on a session. -/
def isWork : Request → Bool
  | compile .. | run .. => true
  | _ => false

end Request

namespace Server

/-- What is seen to happen on a session, with the client whose request it was. -/
inductive Event where
  | ran (client session : Nat) (request : Request) (reply : Reply)
  | closed (client session : Nat) (functions : List Bytes)
  /-- The server was stopped and has closed the session. -/
  | dropped (session : Nat)
  deriving DecidableEq

namespace Event

/-- The session on which it happened. -/
def session : Event → Nat
  | ran _ n _ _ | closed _ n _ | dropped n => n

/-- The client whose request it was. -/
def client? : Event → Option Nat
  | ran i .. | closed i .. => some i
  | dropped _ => none

/-- Whether the session is over with it. -/
def isEnd : Event → Bool
  | ran .. => false
  | closed .. | dropped _ => true

/-- A request that ran on a session, with its reply. -/
def use? (n : Nat) : Event → Option (Request × Reply)
  | ran _ m request reply => if m = n then some (request, reply) else none
  | _ => none

/-- What is seen of a move of a client's request. -/
def ofMove (i : Nat) : Phase → Phase → List Event
  | .found r _ n, .done reply => if reply.isNotFound then [] else [ran i n r reply]
  | .removed n, .done (.closed functions) => [closed i n functions]
  | _, _ => []

end Event

/-- A client with its request. -/
structure Client where
  request : Request
  phase : Phase

/-- A server with its clients. -/
structure Traffic where
  server : Server
  clients : List Client
  /-- The sessions that the stopping server has taken out of the table and not yet closed. -/
  leaving : List Nat := []
  log : List Event := []

/-- One turn: a move of the request of a client, the emptying of the table by a server that is
stopped, or the closing of one of the sessions that were in it. -/
inductive Turn where
  | client (i : Nat)
  | empty
  | drop (k : Nat)

namespace Traffic

/-- A server before the first move of any request. -/
def start (server : Server) (requests : List Request) : Traffic where
  server
  clients := requests.map fun r => ⟨r, .waiting r⟩

def turn (t : Traffic) : Turn → Traffic
  | .client i =>
    match t.clients[i]? with
    | none => t
    | some c =>
      let (server, phase) := t.server.advance c.phase
      { t with
        server
        clients := t.clients.set i { c with phase }
        log := t.log ++ Event.ofMove i c.phase phase }
  | .empty =>
    { t with
      server := { t.server with table := [] }
      leaving := t.leaving ++ t.server.table.map (·.2) }
  | .drop k =>
    match t.leaving[k]? with
    | none => t
    | some n =>
      { t with
        server := (t.server.close n).1
        leaving := t.leaving.eraseIdx k
        log := t.log ++ [.dropped n] }

def run (t : Traffic) (turns : List Turn) : Traffic := turns.foldl turn t

@[simp] theorem run_nil (t : Traffic) : t.run [] = t := rfl

@[simp] theorem run_cons (t : Traffic) (turn : Turn) (turns : List Turn) :
    t.run (turn :: turns) = (t.turn turn).run turns := rfl

/-- The requests that ran on a session with their replies, in the order in which they got it. -/
def uses (t : Traffic) (n : Nat) : List (Request × Reply) := t.log.filterMap (Event.use? n)

/-- The requests that ran on a session. -/
def requestsOn (t : Traffic) (n : Nat) : List Request := (t.uses n).map (·.1)

/-- The replies of the requests that ran on a session. -/
def repliesOn (t : Traffic) (n : Nat) : List Reply := (t.uses n).map (·.2)

end Traffic

/-- What a move of a request may find, and what it makes of the server and of the request. -/
inductive Move (srv : Server) : Phase → Server → Phase → Prop where
  | unmade {reason : Bytes} : srv.factory = .error reason →
      Move srv (.waiting .openSession) srv (.done (.noSession reason))
  | made {s : Session} : srv.factory = .ok s → Move srv (.waiting .openSession) srv (.made s)
  | unknown {r : Request} : srv.table.lookup r.id = none → r ≠ .openSession →
      Move srv (.waiting r) srv (.done (.unknownSession r.id))
  | removed {id : Bytes} {n : Nat} : srv.table.lookup id = some n →
      Move srv (.waiting (.closeSession id)) { srv with table := srv.table.filter (·.1 != id) }
        (.removed n)
  | nameless {r : Request} : r.isWork → r.id = [] →
      Move srv (.waiting r) (srv.serveAlone r).1 (.done (srv.serveAlone r).2)
  | found {r : Request} {n : Nat} : r.isWork → r.id ≠ [] → srv.table.lookup r.id = some n →
      Move srv (.waiting r) srv (.found r r.id n)
  | opened {s : Session} : Move srv (.made s) (srv.insert s).1 (.done (srv.insert s).2)
  | refused {r : Request} {id : Bytes} {n : Nat} {reply : Reply} :
      (∀ h, srv.hosted[n]? = some h → h.isClosed) →
      reply = .unknownSession id ∨ reply = .closedSession id →
      Move srv (.found r id n) srv (.done reply)
  | ran {r : Request} {id : Bytes} {n : Nat} {h : Hosted} {reply : Reply} {s : Session}
      {cache : Option Cache} : srv.hosted[n]? = some h → h.isClosed = false →
      serve r h.session srv.cache = (reply, s, cache) →
      Move srv (.found r id n)
        { srv with cache, hosted := srv.hosted.set n { h with session := s } } (.done reply)
  | closed {n : Nat} :
      Move srv (.removed n) (srv.close n).1 (.done (.closed (srv.close n).2))
  | answered {reply : Reply} : Move srv (.done reply) srv (.done reply)

/-- A request that runs on a session is not told that the session is gone. -/
theorem isNotFound_serve (r : Request) (s : Session) (cache : Option Cache) :
    (serve r s cache).1.isNotFound = false := by
  cases r with
  | openSession | closeSession => rfl
  | compile id source =>
    simp only [serve]
    split
    · rfl
    · exact Reply.isNotFound_ofFailure _
  | run id source =>
    simp only [serve]
    split
    · exact Reply.isNotFound_ofFailure _
    · split <;> rfl
    · rfl

/-- The move of a request that names a session and works on it. -/
theorem move_lookUp (srv : Server) {r : Request} (work : r.isWork) (named : r.id ≠ []) :
    Move srv (.waiting r) srv (srv.lookUp r r.id) := by
  rw [lookUp]
  cases found : srv.table.lookup r.id with
  | none =>
    refine .unknown found ?_
    rintro rfl
    simp [Request.isWork] at work
  | some n => exact .found work named found

theorem move_useSession (srv : Server) (r : Request) (id : Bytes) (n : Nat) :
    Move srv (.found r id n) (srv.useSession r id n).1 (.done (srv.useSession r id n).2) := by
  rw [useSession]
  cases hosted : srv.hosted[n]? with
  | none => exact .refused (by simp [hosted]) (.inl rfl)
  | some h =>
    simp only
    split
    next isClosed => exact .refused (by simp [hosted, isClosed]) (.inr rfl)
    next isOpen => exact .ran hosted (Bool.not_eq_true _ ▸ isOpen) rfl

/-- Closing a session touches nothing but the session. -/
theorem close_kept (srv : Server) (n : Nat) :
    (srv.close n).1 = { srv with hosted := (srv.close n).1.hosted }
      ∧ (srv.close n).1.hosted.length = srv.hosted.length := by
  rw [close]
  split
  · exact ⟨rfl, rfl⟩
  · split
    · exact ⟨rfl, rfl⟩
    · exact ⟨rfl, List.length_set⟩

theorem close_eq {srv : Server} {n : Nat} {h : Hosted} (found : srv.hosted[n]? = some h)
    (isOpen : ¬ h.isClosed = true) :
    srv.close n = ({ srv with hosted := srv.hosted.set n { h with isClosed := true } },
      h.session.functions) := by
  simp only [close, found, if_neg isOpen]

theorem advance_move (srv : Server) (phase : Phase) :
    Move srv phase (srv.advance phase).1 (srv.advance phase).2 := by
  cases phase with
  | waiting r =>
    cases r with
    | openSession =>
      rw [advance]
      cases factory : srv.factory with
      | error reason => exact .unmade factory
      | ok s => exact .made factory
    | closeSession id =>
      rw [advance, remove]
      cases found : srv.table.lookup id with
      | none => exact .unknown (r := .closeSession id) found nofun
      | some n => exact .removed found
    | compile id source =>
      rw [advance]
      cases id with
      | nil => exact .nameless (r := .compile [] source) rfl rfl
      | cons b id => exact srv.move_lookUp (r := .compile (b :: id) source) rfl nofun
    | run id source =>
      rw [advance]
      cases id with
      | nil => exact .nameless (r := .run [] source) rfl rfl
      | cons b id => exact srv.move_lookUp (r := .run (b :: id) source) rfl nofun
  | made s => exact .opened
  | found r id n => exact srv.move_useSession r id n
  | removed n => exact .closed
  | done reply => exact .answered

namespace Traffic

/-- What holds of the traffic as it is, after a move of a request, after the emptying of the table
and after the closing of a session that was in it, holds after every turn. -/
theorem turn_induction {motive : Traffic → Prop} (t : Traffic) (turn : Turn) (idle : motive t)
    (client : ∀ i c server phase, turn = .client i → t.clients[i]? = some c →
      Move t.server c.phase server phase →
      motive { t with
        server
        clients := t.clients.set i { c with phase }
        log := t.log ++ Event.ofMove i c.phase phase })
    (empty : motive { t with
      server := { t.server with table := [] }
      leaving := t.leaving ++ t.server.table.map (·.2) })
    (drop : ∀ k n, t.leaving[k]? = some n →
      motive { t with
        server := (t.server.close n).1
        leaving := t.leaving.eraseIdx k
        log := t.log ++ [.dropped n] }) : motive (t.turn turn) := by
  cases turn with
  | client i =>
    rw [Traffic.turn]
    cases found : t.clients[i]? with
    | none => exact idle
    | some c => exact client i c _ _ rfl found (t.server.advance_move c.phase)
  | empty => exact empty
  | drop k =>
    rw [Traffic.turn]
    cases found : t.leaving[k]? with
    | none => exact idle
    | some n => exact drop k n found

theorem run_drops (t : Traffic) {leaving : List Nat} (left : t.leaving = leaving) :
    (t.run (List.replicate leaving.length (.drop 0))).server
      = leaving.foldl (fun srv n => (srv.close n).1) t.server := by
  induction leaving generalizing t with
  | nil => rfl
  | cons n leaving ih =>
    have dropped : t.turn (.drop 0) = { t with
        server := (t.server.close n).1, leaving, log := t.log ++ [.dropped n] } := by
      simp [turn, left]
    rw [List.length_cons, List.replicate_succ, run_cons, dropped, ih _ rfl, List.foldl_cons]

/-- Stopping a server while no request is under way is emptying the table and closing what was in
it, one session after the other. -/
theorem run_stop (t : Traffic) (settled : t.leaving = []) :
    (t.run (.empty :: List.replicate t.server.table.length (.drop 0))).server = t.server.stop := by
  have left : (t.turn .empty).leaving = t.server.table.map (·.2) := by
    simp [turn, settled]
  have drops := (t.turn .empty).run_drops left
  rw [List.length_map] at drops
  exact drops

end Traffic

end Server

end EggLang
