import EggLang.Proofs.Server.Ownership

/-!
# What a stop closes

Stopping empties the table first and closes what was in it when the requests under way are done.
Every session that was opened before the table was emptied has then been closed once, by a request
or by the stop. A request that makes a session before the table is emptied and enters it afterwards
escapes the stop: its session is in the table again, and only a request to close it will.
-/

namespace EggLang.Server

namespace Phase

theorem takes_of_isDone {phase : Phase} (answered : phase.isDone = true) (n : Nat) :
    phase.takes n = false := by
  cases phase with
  | done => rfl
  | waiting | made | found | removed => cases answered

end Phase

namespace Traffic

variable {t : Traffic}

/-- What a turn of a client changes of the owners of a session. -/
theorem owners_set_client {i : Nat} {c : Client} (at_i : t.clients[i]? = some c) (server : Server)
    (phase : Phase) (events : List Event) (n : Nat) :
    owners { t with
        server, clients := t.clients.set i { c with phase }, log := t.log ++ events } n
      + t.server.table.countP (·.2 == n) + (if c.phase.takes n then 1 else 0)
      = t.owners n + server.table.countP (·.2 == n) + (if phase.takes n then 1 else 0)
        + events.countP (Event.ends n) := by
  have counted := countP_set_client at_i (·.phase.takes n) { c with phase }
  simp only [owners, ends, List.countP_append] at counted ⊢
  omega

theorem owners_empty (t : Traffic) (n : Nat) :
    owners { t with
      server := { t.server with table := [] }
      leaving := t.leaving ++ t.server.table.map (·.2) } n = t.owners n := by
  have taken : (t.server.table.map (·.2)).count n = t.server.table.countP (·.2 == n) := by
    rw [List.count_eq_countP, List.countP_map]
    rfl
  simp only [owners, ends, List.countP_nil, List.count_append, taken]
  omega

/-- Every session that was opened is in the hands of someone, and the table has each session under
its own id. -/
structure Accounted (t : Traffic) : Prop where
  distinct : Function.Injective t.server.ids
  ids : ∀ entry ∈ t.server.table, entry.1 = t.server.ids entry.2
  owned : ∀ n < t.server.hosted.length, 0 < t.owners n

theorem Accounted.start (server : Server) (requests : List Request) (hosted : server.hosted = [])
    (table : server.table = []) (distinct : Function.Injective server.ids) :
    (Traffic.start server requests).Accounted := by
  refine ⟨distinct, fun entry mem => ?_, fun n opened => ?_⟩
  · simp [Traffic.start, table] at mem
  · simp [Traffic.start, hosted] at opened

/-- Taking an id out of the table leaves the sessions with other ids in it. -/
theorem Accounted.countP_remove (h : t.Accounted) {id : Bytes} {n m : Nat}
    (found : t.server.table.lookup id = some n) (other : m ≠ n) :
    (t.server.table.filter (·.1 != id)).countP (·.2 == m) = t.server.table.countP (·.2 == m) := by
  obtain ⟨before, after, split, -⟩ := List.lookup_eq_some_iff.1 found
  have id_eq : id = t.server.ids n := h.ids (id, n) (by simp [split])
  rw [List.countP_filter]
  refine List.countP_congr fun entry mem => ?_
  have kept : entry.2 = m → entry.1 ≠ id := by
    rintro rfl same
    rw [h.ids entry mem, id_eq] at same
    exact other (h.distinct same)
  simpa using kept

/-- A move that leaves the table, the number of sessions and the ids alone, and takes no session. -/
theorem Accounted.work (h : t.Accounted) {i : Nat} {c : Client} (at_i : t.clients[i]? = some c)
    {server : Server} {phase : Phase} (events : List Event)
    (takes : ∀ n, c.phase.takes n = false) (table : server.table = t.server.table)
    (hosted : server.hosted.length = t.server.hosted.length) (ids : server.ids = t.server.ids) :
    Accounted { t with
      server, clients := t.clients.set i { c with phase }, log := t.log ++ events } := by
  refine ⟨ids ▸ h.distinct, fun entry mem => ?_, fun n opened => ?_⟩
  · rw [ids]
    exact h.ids entry (table ▸ mem)
  · have changed := owners_set_client at_i server phase events n
    rw [takes, table] at changed
    have before := h.owned n (hosted ▸ opened)
    simp only [Bool.false_eq_true, if_false] at changed
    omega

/-- The closing of a session by one of its owners. -/
theorem Accounted.closing (h : t.Accounted) {server : Server} {clients : List Client}
    {leaving : List Nat} {log : List Event}
    (same : server = { t.server with hosted := server.hosted })
    (length : server.hosted.length = t.server.hosted.length)
    (owners_eq : ∀ m, owners { t with server, clients, leaving, log } m = t.owners m) :
    Accounted { t with server, clients, leaving, log } := by
  have ids : server.ids = t.server.ids := by rw [same]
  have table : server.table = t.server.table := by rw [same]
  refine ⟨ids ▸ h.distinct, fun entry mem => ?_, fun m opened => ?_⟩
  · rw [ids]
    exact h.ids entry (table ▸ mem)
  · rw [owners_eq]
    exact h.owned m (length ▸ opened)

/-- A request takes a session out of the table to close it. -/
theorem Accounted.removing (h : t.Accounted) {i : Nat} {request : Request} {id : Bytes} {n : Nat}
    (at_i : t.clients[i]? = some ⟨request, .waiting (.closeSession id)⟩)
    (found : t.server.table.lookup id = some n) :
    Accounted { t with
      server := { t.server with table := t.server.table.filter (·.1 != id) }
      clients := t.clients.set i ⟨request, .removed n⟩
      log := t.log ++ Event.ofMove i (.waiting (.closeSession id)) (.removed n) } := by
  refine ⟨h.distinct, fun entry mem => h.ids entry (List.mem_filter.1 mem).1, fun m opened => ?_⟩
  have changed := owners_set_client at_i
    { t.server with table := t.server.table.filter (·.1 != id) } (.removed n)
    (Event.ofMove i (.waiting (.closeSession id)) (.removed n)) m
  have before : 0 < t.owners m := h.owned m opened
  simp only [Phase.takes_waiting, Phase.takes_removed, beq_iff_eq, Bool.false_eq_true,
    if_false] at changed
  by_cases same : n = m
  · have counted : t.server.table.countP (·.2 == m) ≤ t.owners m := by
      simp only [owners]
      omega
    rw [if_pos same] at changed
    dsimp only at changed ⊢
    omega
  · have kept := h.countP_remove found fun other => same other.symm
    rw [kept] at changed
    dsimp only at changed ⊢
    omega

/-- A request enters the session that it made in the table. -/
theorem Accounted.entering (h : t.Accounted) {i : Nat} {request : Request} {s : Session}
    (at_i : t.clients[i]? = some ⟨request, .made s⟩) :
    Accounted { t with
      server := (t.server.insert s).1
      clients := t.clients.set i ⟨request, .done (t.server.insert s).2⟩
      log := t.log ++ Event.ofMove i (.made s) (.done (t.server.insert s).2) } := by
  refine ⟨h.distinct, fun entry mem => ?_, fun m opened => ?_⟩
  · rcases List.mem_cons.1 mem with rfl | mem
    · rfl
    · exact h.ids entry mem
  · have changed := owners_set_client at_i (t.server.insert s).1
      (.done (t.server.insert s).2)
      (Event.ofMove i (.made s) (.done (t.server.insert s).2)) m
    have entered : (t.server.insert s).1.table.countP (·.2 == m)
        = t.server.table.countP (·.2 == m) + if t.server.hosted.length = m then 1 else 0 := by
      simp [insert, List.countP_cons]
    have opened : m < t.server.hosted.length + 1 := by simpa [insert] using opened
    simp only [Phase.takes_made, entered, Bool.false_eq_true, if_false] at changed
    by_cases new : t.server.hosted.length = m
    · rw [if_pos new] at changed
      omega
    · have before := h.owned m (by omega)
      omega

theorem Accounted.turn (h : t.Accounted) (turn : Turn) : (t.turn turn).Accounted := by
  refine t.turn_induction turn h ?client ?empty ?drop
  case client =>
    intro i c server phase _ at_i move
    obtain ⟨request, before⟩ := c
    cases move with
    | unmade | made | unknown | found | answered | refused =>
      exact h.work at_i _ (fun n => rfl) rfl rfl rfl
    | nameless =>
      refine h.work at_i _ (fun n => rfl) ?_ ?_ ?_ <;>
      · rw [serveAlone]
        split <;> rfl
    | ran => exact h.work at_i _ (fun n => rfl) rfl List.length_set rfl
    | removed found => exact h.removing at_i found
    | opened => exact h.entering at_i
    | @closed n =>
      obtain ⟨same, length⟩ := t.server.close_kept n
      refine h.closing same length fun m => ?_
      have changed := owners_set_client at_i (t.server.close n).1
        (.done (.closed (t.server.close n).2))
        (Event.ofMove i (.removed n) (.done (.closed (t.server.close n).2))) m
      have ended : (Event.ofMove i (.removed n) (.done (.closed (t.server.close n).2))).countP
          (Event.ends m) = if n = m then 1 else 0 := by
        simp [Event.ofMove, Event.ends, Event.isEnd, Event.session, List.countP_singleton]
      have table : (t.server.close n).1.table = t.server.table := by rw [same]
      simp only [ended, table, Phase.takes_removed, Phase.takes_done, beq_iff_eq,
        Bool.false_eq_true, if_false] at changed
      dsimp only at changed ⊢
      omega
  case empty =>
    refine ⟨h.distinct, fun entry mem => by simp at mem, fun n opened => ?_⟩
    rw [owners_empty]
    exact h.owned n opened
  case drop =>
    intro k n at_k
    obtain ⟨same, length⟩ := t.server.close_kept n
    refine h.closing same length fun m => ?_
    have dropped := count_eraseIdx at_k m
    have ended : (t.log ++ [Event.dropped n]).countP (Event.ends m)
        = t.log.countP (Event.ends m) + if n = m then 1 else 0 := by
      rw [List.countP_append, List.countP_singleton]
      simp [Event.ends, Event.isEnd, Event.session]
    have table : (t.server.close n).1.table = t.server.table := by rw [same]
    simp only [owners, ends, ended, table]
    omega

theorem Accounted.run (h : t.Accounted) (turns : List Turn) : (t.run turns).Accounted := by
  induction turns generalizing t with
  | nil => exact h
  | cons turn turns ih => exact ih (h.turn turn)

/-- The table has later sessions only than the first `n`. -/
structure Past (n : Nat) (t : Traffic) : Prop where
  opened : n ≤ t.server.hosted.length
  later : ∀ entry ∈ t.server.table, n ≤ entry.2

theorem Past.turn {n : Nat} (h : Past n t) (turn : Turn) : Past n (t.turn turn) := by
  refine t.turn_induction turn h ?client ?empty ?drop
  case client =>
    intro i c server phase _ at_i move
    obtain ⟨request, before⟩ := c
    cases move with
    | unmade | made | unknown | found | answered | refused => exact ⟨h.opened, h.later⟩
    | nameless =>
      rw [serveAlone]
      split <;> exact ⟨h.opened, h.later⟩
    | ran => exact ⟨Nat.le_trans h.opened (Nat.le_of_eq List.length_set.symm), h.later⟩
    | removed => exact ⟨h.opened, fun entry mem => h.later entry (List.mem_filter.1 mem).1⟩
    | opened =>
      refine ⟨Nat.le_trans h.opened (by simp [insert]), fun entry mem => ?_⟩
      rcases List.mem_cons.1 mem with rfl | mem
      · exact h.opened
      · exact h.later entry mem
    | @closed n =>
      obtain ⟨same, length⟩ := t.server.close_kept n
      rw [same]
      exact ⟨length ▸ h.opened, h.later⟩
  case empty => exact ⟨h.opened, fun entry mem => by cases mem⟩
  case drop =>
    intro k n _
    obtain ⟨same, length⟩ := t.server.close_kept n
    rw [same]
    exact ⟨length ▸ h.opened, h.later⟩

theorem Past.run {n : Nat} (h : Past n t) (turns : List Turn) : Past n (t.run turns) := by
  induction turns generalizing t with
  | nil => exact h
  | cons turn turns ih => exact ih (h.turn turn)

/-- Once no session is on its way to be closed, every session has either been closed once or is in
the table. -/
theorem ends_settled (owned : t.Owned) (accounted : t.Accounted)
    (settled : ∀ c ∈ t.clients, ∀ n, c.phase.takes n = false) (left : t.leaving = []) {n : Nat}
    (opened : n < t.server.hosted.length) :
    t.ends n = if n ∈ t.server.table.map (·.2) then 0 else 1 := by
  have least := accounted.owned n opened
  have most := owned.one n
  have taken : t.clients.countP (·.phase.takes n) = 0 :=
    List.countP_eq_zero.2 fun c mem => by simp [settled c mem n]
  simp only [owners, taken, left, List.count_nil] at least most
  split
  next listed =>
    obtain ⟨entry, mem, rfl⟩ := List.mem_map.1 listed
    have tabled : 0 < t.server.table.countP (·.2 == entry.2) :=
      List.countP_pos_iff.2 ⟨entry, mem, beq_self_eq_true _⟩
    omega
  next untabled =>
    have none : t.server.table.countP (·.2 == n) = 0 := by
      refine List.countP_eq_zero.2 fun entry mem => ?_
      have other : entry.2 ≠ n := fun same => untabled (same ▸ List.mem_map_of_mem mem)
      simpa using other
    omega

/-- What a stop has made of a session once it is done: `emptied` is the state in which it emptied
the table. -/
structure Stopped (emptied t : Traffic) (n : Nat) : Prop where
  /-- A session that was there when the table was emptied has been closed once. -/
  before : n < emptied.server.hosted.length → t.ends n = 1
  /-- A session in the table has not been closed, any other has been closed once. -/
  ends : t.ends n = if n ∈ t.server.table.map (·.2) then 0 else 1
  isClosed : ∀ h, t.server.hosted[n]? = some h → (h.isClosed = true ↔ t.ends n = 1)

theorem Past.untabled {n : Nat} (h : Past (n + 1) t) : n ∉ t.server.table.map (·.2) := by
  intro listed
  obtain ⟨entry, mem, rfl⟩ := List.mem_map.1 listed
  exact Nat.lt_irrefl _ (h.later entry mem)

/-- All sessions have been closed once just in case none is in the table. -/
theorem all_ended_iff (owned : t.Owned) (ends : ∀ n < t.server.hosted.length,
    t.ends n = if n ∈ t.server.table.map (·.2) then 0 else 1) :
    (∀ n < t.server.hosted.length, t.ends n = 1) ↔ t.server.table = [] := by
  constructor
  · intro all
    by_contra some_entry
    obtain ⟨entry, mem⟩ := List.exists_mem_of_ne_nil _ some_entry
    have tabled : 0 < t.server.table.countP (·.2 == entry.2) :=
      List.countP_pos_iff.2 ⟨entry, mem, beq_self_eq_true _⟩
    have opened : entry.2 < t.server.hosted.length :=
      owned.lt_length (by simp only [owners]; omega)
    have none := ends entry.2 opened
    rw [if_pos (List.mem_map_of_mem mem), all entry.2 opened] at none
    cases none
  · intro empty n opened
    rw [ends n opened, empty]
    rfl

/-- A stop in the middle of any traffic: when no request is about to close a session and the stop
has closed what it took, all sessions opened before it emptied the table have been closed once.
The sessions that were entered later are open unless a request has closed them, so all sessions
are closed just in case the table is empty again. -/
theorem stopped (server : Server) (requests : List Request) (earlier later : List Turn)
    (hosted : server.hosted = []) (table : server.table = [])
    (distinct : Function.Injective server.ids)
    (settled : ∀ c ∈ ((start server requests).run (earlier ++ .empty :: later)).clients,
      ∀ n, c.phase.takes n = false)
    (left : ((start server requests).run (earlier ++ .empty :: later)).leaving = []) :
    let t := (start server requests).run (earlier ++ .empty :: later)
    (∀ n < t.server.hosted.length, Stopped ((start server requests).run earlier) t n)
      ∧ ((∀ n < t.server.hosted.length, t.ends n = 1) ↔ t.server.table = []) := by
  intro t
  have owned : t.Owned := (Owned.start server requests hosted table).run _
  have accounted : t.Accounted := (Accounted.start server requests hosted table distinct).run _
  have ends (n : Nat) (opened : n < t.server.hosted.length) :=
    ends_settled owned accounted settled left opened
  refine ⟨fun n opened => ⟨fun before => ?_, ends n opened, fun h found => ?_⟩,
    all_ended_iff owned ends⟩
  · have split : t = (((start server requests).run earlier).turn .empty).run later :=
      List.foldl_append
    have emptied : Past (n + 1) (((start server requests).run earlier).turn .empty) :=
      ⟨before, fun entry mem => by simp [turn] at mem⟩
    have past : Past (n + 1) t := split ▸ emptied.run later
    rw [ends n opened, if_neg past.untabled]
  · have ends := ends n opened
    rw [owned.isClosed_iff n h found]
    split at ends <;> omega

/-- Clients that open three sessions and close the first of them. -/
def stopStart : Traffic :=
  start { factory := .ok (.new (utf8 " ") ⟨utf8 "idle", fun _ _ => {}⟩),
          ids := fun n => List.replicate (n + 1) 97 }
    [.openSession, .openSession, .closeSession [97], .openSession]

/-- Two sessions are open, one of them is about to be closed, and a third one is made. -/
def stopEarlier : List Turn :=
  [.client 0, .client 0, .client 1, .client 1, .client 2, .client 3]

/-- The third session is entered after the stop has emptied the table. -/
def stopLater : List Turn := [.client 3, .client 2, .drop 0]

/-- All requests are done and the stop has closed what it took: the first session was closed by
its client and the second one by the stop, and the third one is in the table. -/
theorem stopped_three_sessions :
    let t := stopStart.run (stopEarlier ++ .empty :: stopLater)
    Function.Injective stopStart.server.ids
      ∧ (∀ c ∈ t.clients, ∀ n, c.phase.takes n = false) ∧ t.leaving = []
      ∧ t.log.map Event.session = [0, 1] ∧ t.server.table.map (·.2) = [2]
      ∧ (∀ n < t.server.hosted.length, Stopped (stopStart.run stopEarlier) t n)
      ∧ ((∀ n < t.server.hosted.length, t.ends n = 1) ↔ t.server.table = []) := by
  intro t
  have distinct : Function.Injective stopStart.server.ids := by
    intro m n same
    have lengths := congrArg List.length same
    simpa [stopStart, start] using lengths
  obtain ⟨done, left, ended, tabled⟩ : (∀ c ∈ t.clients, c.phase.isDone = true)
      ∧ t.leaving = [] ∧ t.log.map Event.session = [0, 1]
      ∧ t.server.table.map (·.2) = [2] := by decide +kernel
  have settled : ∀ c ∈ t.clients, ∀ n, c.phase.takes n = false :=
    fun c mem => Phase.takes_of_isDone (done c mem)
  exact ⟨distinct, settled, left, ended, tabled,
    stopped _ _ stopEarlier stopLater rfl rfl distinct settled left⟩

/-- The third session was made before the stop and is never closed. -/
theorem escapes_stop :
    let t := stopStart.run (stopEarlier ++ .empty :: stopLater)
    (∀ c ∈ t.clients, c.phase.isDone = true) ∧ t.leaving = []
      ∧ t.server.hosted.map (·.isClosed) = [true, true, false]
      ∧ ¬ ∀ n < t.server.hosted.length, t.ends n = 1 := by
  decide +kernel

end Traffic

end EggLang.Server
