import EggLang.Proofs.Server.Traffic
import Mathlib.Data.List.Perm.Basic

/-!
# A session has one owner

A session that is not over is in the hands of one party: the table, a request that took it out of
the table, or the stopping server. Only an owner closes a session, and the session is over then.
So a request that closes a session finds it open, a session is closed once, and nothing happens on
it afterwards.
-/

namespace EggLang.Server

namespace Phase

/-- Whether the request is answered. -/
def isDone : Phase → Bool
  | done _ => true
  | _ => false

/-- Whether a request has taken the session out of the table and is yet to close it. -/
def takes (n : Nat) : Phase → Bool
  | removed m => m == n
  | _ => false

variable (n : Nat)

@[simp] theorem takes_waiting (r : Request) : (waiting r).takes n = false := rfl

@[simp] theorem takes_made (s : Session) : (made s).takes n = false := rfl

@[simp] theorem takes_removed (m : Nat) : (removed m).takes n = (m == n) := rfl

@[simp] theorem takes_done (reply : Reply) : (done reply).takes n = false := rfl

end Phase

/-- Whether the session is over with an event. -/
def Event.ends (n : Nat) (e : Event) : Bool := e.isEnd && e.session == n

namespace Traffic

/-- How often a session was seen to end. -/
def ends (t : Traffic) (n : Nat) : Nat := t.log.countP (Event.ends n)

/-- How many parties a session is in the hands of; its end counts as one. -/
def owners (t : Traffic) (n : Nat) : Nat :=
  t.server.table.countP (·.2 == n) + t.clients.countP (·.phase.takes n) + t.leaving.count n
    + t.ends n

/-- What holds of the owners of sessions at any time. -/
structure Owned (t : Traffic) : Prop where
  one : ∀ n, t.owners n ≤ 1
  unborn : ∀ n, t.server.hosted.length ≤ n → t.owners n = 0
  isClosed_iff : ∀ n h, t.server.hosted[n]? = some h → (h.isClosed = true ↔ 0 < t.ends n)
  last : t.log.Pairwise fun earlier later => earlier.isEnd → later.session ≠ earlier.session

theorem ends_eq_zero_iff {t : Traffic} {n : Nat} :
    t.ends n = 0 ↔ ∀ e ∈ t.log, e.isEnd → n ≠ e.session := by
  rw [ends, List.countP_eq_zero]
  refine forall₂_congr fun e _ => ?_
  rw [Event.ends, Bool.and_eq_true, beq_iff_eq, not_and, ne_comm]

/-- Replacing a client changes a count by what the two clients count. -/
theorem countP_set_client {clients : List Client} {i : Nat} {c : Client}
    (at_i : clients[i]? = some c) (p : Client → Bool) (d : Client) :
    (clients.set i d).countP p + (if p c then 1 else 0)
      = clients.countP p + (if p d then 1 else 0) := by
  obtain ⟨bound, rfl⟩ := List.getElem?_eq_some_iff.1 at_i
  have counted : (if p clients[i] then 1 else 0) ≤ clients.countP p := by
    split
    · exact List.countP_pos_iff.2 ⟨_, clients.getElem_mem bound, ‹_›⟩
    · exact Nat.zero_le _
  rw [List.countP_set bound]
  omega

theorem count_eraseIdx {leaving : List Nat} {k n : Nat} (at_k : leaving[k]? = some n) (m : Nat) :
    (leaving.eraseIdx k).count m + (if n = m then 1 else 0) = leaving.count m := by
  obtain ⟨bound, rfl⟩ := List.getElem?_eq_some_iff.1 at_k
  have counted := (List.getElem_cons_eraseIdx_perm bound).count_eq m
  simpa [List.count_cons] using counted

/-- Taking an id out of the table gives up the session that was found under it. -/
theorem countP_filter_table {table : List (Bytes × Nat)} {id : Bytes} {n : Nat}
    (found : table.lookup id = some n) (m : Nat) :
    (table.filter (·.1 != id)).countP (·.2 == m) + (if n = m then 1 else 0)
      ≤ table.countP (·.2 == m) := by
  rw [List.countP_eq_countP_filter_add table _ (·.1 != id)]
  refine Nat.add_le_add_left ?_ _
  split
  next same =>
    obtain ⟨before, after, split, -⟩ := List.lookup_eq_some_iff.1 found
    refine List.countP_pos_iff.2 ⟨(id, n), ?_, by simp [same]⟩
    simp [split]
  next => exact Nat.zero_le _

variable {t : Traffic}

/-- An owned session is one that was opened. -/
theorem Owned.lt_length (h : t.Owned) {n : Nat} (owned : 0 < t.owners n) :
    n < t.server.hosted.length := by
  by_contra unborn
  have none := h.unborn n (by omega)
  omega

/-- A session that was taken out of the table and is not yet closed is not over. -/
theorem Owned.held (h : t.Owned) {n : Nat}
    (held : 0 < t.clients.countP (·.phase.takes n) + t.leaving.count n) :
    t.ends n = 0 ∧ n < t.server.hosted.length := by
  have one := h.one n
  simp only [owners] at one
  exact ⟨by omega, h.lt_length (by simp only [owners]; omega)⟩

theorem Owned.held_of_takes (h : t.Owned) {i n : Nat} {c : Client}
    (at_i : t.clients[i]? = some c) (takes : c.phase.takes n) :
    t.ends n = 0 ∧ n < t.server.hosted.length := by
  have counted : 0 < t.clients.countP (·.phase.takes n) :=
    List.countP_pos_iff.2 ⟨c, List.mem_of_getElem? at_i, takes⟩
  exact h.held (by omega)

theorem Owned.held_of_leaving (h : t.Owned) {n : Nat} (leaving : n ∈ t.leaving) :
    t.ends n = 0 ∧ n < t.server.hosted.length := by
  have counted := List.count_pos_iff.2 leaving
  exact h.held (by omega)

theorem Owned.start (server : Server) (requests : List Request) (hosted : server.hosted = [])
    (table : server.table = []) : (Traffic.start server requests).Owned := by
  have none : ∀ n, (Traffic.start server requests).owners n = 0 := by
    intro n
    have waiting : (Traffic.start server requests).clients.countP (·.phase.takes n) = 0 := by
      refine List.countP_eq_zero.2 fun c mem => ?_
      obtain ⟨r, -, rfl⟩ := List.mem_map.1 mem
      simp
    rw [owners, waiting]
    simp [Traffic.start, table, ends]
  exact {
    one := fun n => none n ▸ Nat.zero_le 1
    unborn := fun n _ => none n
    isClosed_iff := fun n h found => by simp [Traffic.start, hosted] at found
    last := .nil }

/-- The end of a session comes after everything else on it. -/
theorem Owned.last_append (h : t.Owned) {events : List Event}
    (single : events.length ≤ 1) (going : ∀ e ∈ events, t.ends e.session = 0) :
    (t.log ++ events).Pairwise fun earlier later =>
      earlier.isEnd → later.session ≠ earlier.session := by
  refine List.pairwise_append.2 ⟨h.last, ?_, ?_⟩
  · match events, single with
    | [], _ => exact .nil
    | [_], _ => exact List.pairwise_singleton _ _
  · intro earlier mem later new isEnd
    exact ends_eq_zero_iff.1 (going later new) earlier mem isEnd

/-- A move that neither opens nor closes a session nor takes one out of the table leaves its
owner as it is. -/
theorem Owned.work (h : t.Owned) {i : Nat} {c : Client} (at_i : t.clients[i]? = some c)
    {server : Server} {phase : Phase} {events : List Event}
    (takes : ∀ n, c.phase.takes n = false ∧ phase.takes n = false)
    (table : server.table = t.server.table)
    (hosted : ∀ n : Nat, server.hosted[n]?.map (·.isClosed) = t.server.hosted[n]?.map (·.isClosed))
    (single : events.length ≤ 1)
    (going : ∀ e ∈ events, e.isEnd = false ∧ t.ends e.session = 0) :
    Owned { t with
      server, clients := t.clients.set i { c with phase }, log := t.log ++ events } := by
  have ends_eq : ∀ n, (t.log ++ events).countP (Event.ends n) = t.ends n := by
    intro n
    have none : events.countP (Event.ends n) = 0 :=
      List.countP_eq_zero.2 fun e mem => by simp [Event.ends, (going e mem).1]
    rw [List.countP_append, none, ends, Nat.add_zero]
  have owners_eq : ∀ n, owners { t with
      server, clients := t.clients.set i { c with phase }, log := t.log ++ events } n
        = t.owners n := by
    intro n
    have counted := countP_set_client at_i (·.phase.takes n) { c with phase }
    simp only [(takes n).1, (takes n).2, Bool.false_eq_true, if_false, Nat.add_zero] at counted
    simp only [owners, ends, ends_eq n, table, counted]
  refine ⟨fun n => ?_, fun n long => ?_, fun n d found => ?_, ?_⟩
  · rw [owners_eq]
    exact h.one n
  · have same := hosted n
    rw [List.getElem?_eq_none long, Option.map_none, eq_comm, Option.map_eq_none_iff] at same
    rw [owners_eq]
    exact h.unborn n (List.getElem?_eq_none_iff.1 same)
  · have same := hosted n
    rw [found, Option.map_some, eq_comm, Option.map_eq_some_iff] at same
    obtain ⟨d', found', isClosed⟩ := same
    rw [← isClosed, ends, ends_eq n]
    exact h.isClosed_iff n d' found'
  · exact h.last_append single fun e mem => (going e mem).2

/-- What a party does that closes a session it owns. -/
theorem Owned.closing (h : t.Owned) {n : Nat} {clients : List Client} {leaving : List Nat}
    {e : Event} (isEnd : e.isEnd) (session : e.session = n)
    (handed : ∀ m, clients.countP (·.phase.takes m) + leaving.count m + (if n = m then 1 else 0)
      = t.clients.countP (·.phase.takes m) + t.leaving.count m) :
    Owned { t with server := (t.server.close n).1, clients, leaving, log := t.log ++ [e] } := by
  obtain ⟨going, born⟩ := h.held (n := n) (by
    have held := handed n
    rw [if_pos rfl] at held
    omega)
  obtain ⟨d, found⟩ : ∃ d, t.server.hosted[n]? = some d := ⟨_, List.getElem?_eq_getElem born⟩
  have isOpen : ¬ d.isClosed = true := by
    rw [h.isClosed_iff n d found, going]
    exact Nat.lt_irrefl 0
  have closed : t.server.close n
      = ({ t.server with hosted := t.server.hosted.set n { d with isClosed := true } },
          d.session.functions) := close_eq found isOpen
  have ends_eq : ∀ m, (t.log ++ [e]).countP (Event.ends m) = t.ends m + if n = m then 1 else 0 := by
    intro m
    rw [List.countP_append, List.countP_singleton, ends, Event.ends, isEnd, session]
    simp
  have owners_eq : ∀ m, owners { t with
      server := (t.server.close n).1, clients, leaving, log := t.log ++ [e] } m = t.owners m := by
    intro m
    have moved := handed m
    simp only [owners, ends, ends_eq m, closed] at moved ⊢
    omega
  refine ⟨fun m => ?_, fun m long => ?_, fun m d' found' => ?_, ?_⟩
  · rw [owners_eq]
    exact h.one m
  · rw [owners_eq]
    simp only [closed, List.length_set] at long
    exact h.unborn m long
  · simp only [closed, List.getElem?_set, born, if_true] at found'
    simp only [ends, ends_eq m]
    split at found'
    next same =>
      cases found'
      simp [same]
    next other =>
      rw [if_neg other, Nat.add_zero]
      exact h.isClosed_iff m d' found'
  · refine h.last_append (Nat.le_refl 1) fun e' mem => ?_
    rw [List.mem_singleton.1 mem, session]
    exact going

theorem Owned.turn (h : t.Owned) (turn : Turn) : (t.turn turn).Owned := by
  refine t.turn_induction turn h ?client ?empty ?drop
  case client =>
    intro i c server phase _ at_i move
    obtain ⟨request, before⟩ := c
    have unseen : ∀ e ∈ ([] : List Event), e.isEnd = false ∧ t.ends e.session = 0 := nofun
    cases move with
    | unmade | made | unknown | found | answered =>
      exact h.work at_i (fun n => ⟨rfl, rfl⟩) rfl (fun n => rfl) (Nat.zero_le 1) unseen
    | nameless =>
      refine h.work at_i (fun n => ⟨rfl, rfl⟩) ?_ (fun n => ?_) (Nat.zero_le 1) unseen
      · rw [serveAlone]
        split <;> rfl
      · rw [serveAlone]
        split <;> rfl
    | @refused r id n reply gone told =>
      have isNotFound : reply.isNotFound = true := by
        rcases told with rfl | rfl <;> simp
      simp only [Event.ofMove, isNotFound, if_true]
      exact h.work at_i (fun n => ⟨rfl, rfl⟩) rfl (fun n => rfl) (Nat.zero_le 1) unseen
    | @ran r id n d reply s cache found isOpen served =>
      have isFound : reply.isNotFound = false := by
        have told := isNotFound_serve r d.session t.server.cache
        rwa [served] at told
      simp only [Event.ofMove, isFound, Bool.false_eq_true, if_false]
      have going : t.ends n = 0 := by
        have closed := h.isClosed_iff n d found
        simp only [isOpen, Bool.false_eq_true, false_iff] at closed
        omega
      refine h.work at_i (fun n => ⟨rfl, rfl⟩) rfl (fun m => ?_) (Nat.le_refl 1) fun e mem => ?_
      · obtain ⟨bound, rfl⟩ := List.getElem?_eq_some_iff.1 found
        by_cases same : n = m
        · subst same
          simp [bound]
        · simp [List.getElem?_set_ne same]
      · rw [List.mem_singleton.1 mem]
        exact ⟨rfl, going⟩
    | @removed id n found =>
      have handed : ∀ m, owners { t with
          server := { t.server with table := t.server.table.filter (·.1 != id) }
          clients := t.clients.set i ⟨request, .removed n⟩ } m ≤ t.owners m := by
        intro m
        have counted := countP_set_client at_i (·.phase.takes m) ⟨request, .removed n⟩
        have given := countP_filter_table found m
        simp only [Phase.takes_waiting, Phase.takes_removed, beq_iff_eq, Bool.false_eq_true,
          if_false] at counted
        simp only [owners, ends]
        omega
      simp only [Event.ofMove, List.append_nil]
      refine ⟨fun m => Nat.le_trans (handed m) (h.one m), fun m long => ?_, h.isClosed_iff, h.last⟩
      exact Nat.le_zero.1 (h.unborn m long ▸ handed m)
    | @opened s =>
      have fresh := h.unborn t.server.hosted.length (Nat.le_refl _)
      have entered : ∀ m, owners { t with
          server := (t.server.insert s).1
          clients := t.clients.set i ⟨request, .done (t.server.insert s).2⟩ } m
            = t.owners m + if t.server.hosted.length = m then 1 else 0 := by
        intro m
        have counted := countP_set_client at_i (·.phase.takes m)
          ⟨request, .done (t.server.insert s).2⟩
        simp only [Phase.takes_made, Phase.takes_done, Bool.false_eq_true, if_false,
          Nat.add_zero] at counted
        simp only [owners, ends, counted]
        simp only [insert, List.countP_cons, beq_iff_eq]
        omega
      simp only [Event.ofMove, List.append_nil]
      refine ⟨fun m => ?_, fun m long => ?_, fun m d found => ?_, h.last⟩
      · rw [entered]
        have one := h.one m
        split
        next same =>
          have none : t.owners m = 0 := same ▸ fresh
          omega
        next => exact one
      · simp only [insert, List.length_append, List.length_singleton] at long
        rw [entered, if_neg (by omega)]
        exact h.unborn m (by omega)
      · simp only [insert, List.getElem?_append, List.getElem?_singleton] at found
        split at found
        next => exact h.isClosed_iff m d found
        next long =>
          split at found
          · cases found
            have none := h.unborn m (by omega)
            simp only [owners] at none
            simp only [ends] at none ⊢
            simp only [Bool.false_eq_true, false_iff]
            omega
          · cases found
    | @closed n =>
      simp only [Event.ofMove]
      refine h.closing (n := n) (e := .closed i n _) rfl rfl fun m => ?_
      have counted := countP_set_client at_i (·.phase.takes m)
        ⟨request, .done (.closed (t.server.close n).2)⟩
      simp only [Phase.takes_removed, Phase.takes_done, beq_iff_eq, Bool.false_eq_true,
        if_false] at counted
      omega
  case empty =>
    have same : ∀ m, owners { t with
        server := { t.server with table := [] }
        leaving := t.leaving ++ t.server.table.map (·.2) } m = t.owners m := by
      intro m
      have taken : (t.server.table.map (·.2)).count m = t.server.table.countP (·.2 == m) := by
        rw [List.count_eq_countP, List.countP_map]
        rfl
      simp only [owners, ends, List.countP_nil, List.count_append, taken]
      omega
    exact ⟨fun m => same m ▸ h.one m, fun m long => same m ▸ h.unborn m long, h.isClosed_iff,
      h.last⟩
  case drop =>
    intro k n at_k
    refine h.closing (n := n) (e := .dropped n) rfl rfl fun m => ?_
    have counted := count_eraseIdx at_k m
    omega

theorem Owned.run (h : t.Owned) (turns : List Turn) : (t.run turns).Owned := by
  induction turns generalizing t with
  | nil => exact h
  | cons turn turns ih => exact ih (h.turn turn)

end Traffic

end EggLang.Server
