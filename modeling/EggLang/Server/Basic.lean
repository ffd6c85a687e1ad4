import EggLang.Data.Json
import EggLang.Session.Basic
import EggLang.Text.Quoted

/-!
# The server

The server keeps sessions in a table under their ids. A request is a sequence of moves, and each
move happens under one lock: the table is looked up or changed in one move, and a session is used
in another. Between two moves of a request others may happen, so a session that a request has
found can be closed before the request gets to use it. `advance` makes one move of one request;
`handle` makes all the moves of a request that is alone.
-/

namespace EggLang

/-- What a client asks for. An empty id asks for a session of its own that is given up at once. -/
inductive Request where
  | openSession
  | closeSession (id : Bytes)
  | compile (id source : Bytes)
  | run (id source : Bytes)
  deriving DecidableEq, Repr

/-- The classes of failed requests. -/
inductive Status where
  | invalidArgument
  | aborted
  | notFound
  | internal
  deriving DecidableEq, Repr

namespace Status

def name : Status → String
  | invalidArgument => "InvalidArgument"
  | aborted => "Aborted"
  | notFound => "NotFound"
  | internal => "Internal"

/-- The class under which a failure of a session is reported. -/
def ofKind : FailureKind → Status
  | .runtimeFailure => aborted
  | .unknown => internal
  | _ => invalidArgument

end Status

inductive Reply where
  | opened (id : Bytes)
  | closed (functions : List Bytes)
  | compiled (code : Bytes) (functions : List Bytes)
  /-- The code, what it wrote and the JSON text of its value. -/
  | ran (code output value : Bytes)
  | failed (status : Status) (message : Bytes)
  deriving DecidableEq, Repr

namespace Reply

/-- The reply to a request for a session that is not in the table. -/
def unknownSession (id : Bytes) : Reply :=
  failed .notFound (utf8 "unknown session " ++ Text.Quoted.encode id)

/-- The reply to a request that found a session which was closed before it could be used. -/
def closedSession (id : Bytes) : Reply :=
  failed .notFound (utf8 "session " ++ Text.Quoted.encode id ++ utf8 " is closed")

/-- The reply to a request for which no session can be made. -/
def noSession (reason : Bytes) : Reply := failed .internal (utf8 "creating session: " ++ reason)

def ofFailure (f : Failure) : Reply := failed (.ofKind f.kind) f.render

end Reply

/-- A session that the server has opened. -/
structure Hosted where
  session : Session
  isClosed : Bool := false

/-- The ids that a server gives to its sessions unless others are chosen. -/
def Server.standardId (n : Nat) : Bytes := utf8 "00000000-0000-4000-8000-" ++ Bytes.hex n 12

structure Server where
  /-- How a new session is made, or why it cannot be. -/
  factory : Except Bytes Session
  /-- The cache that all sessions share. -/
  cache : Option Cache := none
  /-- Every session that was ever opened, by its number. -/
  hosted : List Hosted := []
  /-- The ids of the sessions that are open, with their numbers. -/
  table : List (Bytes × Nat) := []
  /-- The id that the session with a number gets; no two are meant to be the same. -/
  ids : Nat → Bytes := Server.standardId

namespace Server

def openCount (srv : Server) : Nat := srv.table.length

/-- How far a request has come. -/
inductive Phase where
  | waiting (r : Request)
  /-- A new session is made and not yet in the table. -/
  | made (s : Session)
  /-- The session with this number was found in the table under the id of the request. -/
  | found (r : Request) (id : Bytes) (n : Nat)
  /-- The session with this number was taken out of the table. -/
  | removed (n : Nat)
  | done (reply : Reply)

/-- The part of a request that happens on a session: the reply, and what is left of the session
and of the cache. -/
def serve (r : Request) (s : Session) (cache : Option Cache) : Reply × Session × Option Cache :=
  match r with
  | .compile _ source =>
    let c := s.compile cache [] source
    match c.answer with
    | .ok code => (.compiled code c.session.functions, c.session, c.cache)
    | .error f => (.ofFailure f, c.session, c.cache)
  | .run _ source =>
    let ((result, failure), s') := s.run [] source
    match result, failure with
    | _, some f => (.ofFailure f, s', cache)
    | some res, none =>
      match res.value.json with
      | .ok value => (.ran res.code res.output value, s', cache)
      | .error u => (.failed .internal (utf8 "encoding result: " ++ u.message), s', cache)
    | none, none => (.ran [] [] (utf8 "null"), s', cache)
  | .openSession | .closeSession _ => (.closed s.functions, s, cache)

/-- Uses the session of a request that found it, unless it is closed by now. -/
def useSession (srv : Server) (r : Request) (id : Bytes) (n : Nat) : Server × Reply :=
  match srv.hosted[n]? with
  | none => (srv, .unknownSession id)
  | some h =>
    if h.isClosed then (srv, .closedSession id)
    else
      let (reply, s, cache) := serve r h.session srv.cache
      ({ srv with cache, hosted := srv.hosted.set n { h with session := s } }, reply)

def lookUp (srv : Server) (r : Request) (id : Bytes) : Phase :=
  match srv.table.lookup id with
  | some n => .found r id n
  | none => .done (.unknownSession id)

def serveAlone (srv : Server) (r : Request) : Server × Reply :=
  match srv.factory with
  | .error reason => (srv, .noSession reason)
  | .ok s =>
    let (reply, _, cache) := serve r s srv.cache
    ({ srv with cache }, reply)

def insert (srv : Server) (s : Session) : Server × Reply :=
  let n := srv.hosted.length
  ({ srv with hosted := srv.hosted ++ [{ session := s }], table := (srv.ids n, n) :: srv.table },
    .opened (srv.ids n))

def remove (srv : Server) (id : Bytes) : Server × Phase :=
  match srv.table.lookup id with
  | some n => ({ srv with table := srv.table.filter (·.1 != id) }, .removed n)
  | none => (srv, .done (.unknownSession id))

/-- Closes a session and gives the names it had registered; a session that is closed already
gives none. -/
def close (srv : Server) (n : Nat) : Server × List Bytes :=
  match srv.hosted[n]? with
  | none => (srv, [])
  | some h =>
    if h.isClosed then (srv, [])
    else ({ srv with hosted := srv.hosted.set n { h with isClosed := true } }, h.session.functions)

def advance (srv : Server) : Phase → Server × Phase
  | .waiting .openSession =>
    match srv.factory with
    | .ok s => (srv, .made s)
    | .error reason => (srv, .done (.noSession reason))
  | .waiting (.closeSession id) => srv.remove id
  | .waiting (.compile id source) =>
    if id.isEmpty then
      let (srv, reply) := srv.serveAlone (.compile id source)
      (srv, .done reply)
    else (srv, srv.lookUp (.compile id source) id)
  | .waiting (.run id source) =>
    if id.isEmpty then
      let (srv, reply) := srv.serveAlone (.run id source)
      (srv, .done reply)
    else (srv, srv.lookUp (.run id source) id)
  | .made s =>
    let (srv, reply) := srv.insert s
    (srv, .done reply)
  | .found r id n =>
    let (srv, reply) := srv.useSession r id n
    (srv, .done reply)
  | .removed n =>
    let (srv, functions) := srv.close n
    (srv, .done (.closed functions))
  | .done reply => (srv, .done reply)

/-- The most moves a request has. -/
def mostMoves : Nat := 2

def finish : (moves : Nat) → Server → Phase → Server × Phase
  | 0, srv, phase => (srv, phase)
  | moves + 1, srv, phase =>
    let (srv, phase) := srv.advance phase
    finish moves srv phase

def handle (srv : Server) (r : Request) : Server × Option Reply :=
  match finish mostMoves srv (.waiting r) with
  | (srv, .done reply) => (srv, some reply)
  | (srv, _) => (srv, none)

/-- Stops the server when no request is under way: the table is emptied and the sessions that
were in it are closed. -/
def stop (srv : Server) : Server :=
  (srv.table.map (·.2)).foldl (fun srv n => (srv.close n).1) { srv with table := [] }

end Server

end EggLang
