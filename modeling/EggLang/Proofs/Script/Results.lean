import EggLang.Proofs.Script.Course
import EggLang.Script.Result

/-!
# What scripts give, in lockstep

The value of a script is made data without a word on the console, and so it is where more has been
executed before.
-/

namespace EggLang.Script.Shift

variable {w : Shift} {s t u v : Store} {n r i : Nat} {key : Key} {x x' : Value} {o o' : Object}

/-! ## Keys -/

theorem keys_of_members (h : w.Objects o o') :
    o'.members.toList.map (·.1) = o.members.toList.map (·.1) := by
  have members := h.members
  generalize o.members.toList = ms, o'.members.toList = ms' at members
  induction members with
  | nil => rfl
  | @cons e e' _ _ first _ ih =>
    rw [List.map_cons, List.map_cons, ih, first.1]

theorem Objects.indices (h : w.Objects o o') : o'.indices = o.indices := by
  have far : o'.members.toList.filterMap (·.1.index?)
      = o.members.toList.filterMap (·.1.index?) := by
    have same := congrArg (List.filterMap Key.index?) (keys_of_members h)
    rwa [List.filterMap_map, List.filterMap_map] at same
  have kind := h.kind
  rw [Object.indices, Object.indices, far]
  generalize o.kind = k, o'.kind = k' at kind
  cases kind with
  | @array es es' length fixed same =>
    have size : es'.size = es.size := by
      rw [← Array.length_toList, ← Array.length_toList, same.length_eq]
    have held : (fun i : Nat => (es'[i]?.join).isSome) = fun i : Nat => (es[i]?.join).isSome := by
      funext i
      have element := element_rel same i
      rw [Array.getElem?_toList, Array.getElem?_toList] at element
      generalize es[i]? = a, es'[i]? = b at element
      cases element with
      | none => rfl
      | some inner => cases inner <;> rfl
    dsimp only
    rw [size, held]
  | _ => rfl

theorem Objects.keys (h : w.Objects o o') : o'.keys = o.keys := by
  have kind := h.kind
  rw [Object.keys, Object.keys, h.indices, keys_of_members h]
  generalize o.kind = k, o'.kind = k' at kind
  cases kind <;> rfl

theorem follows_enumerableNames (m : w.Meet s t) (other : r ≠ w.host) :
    w.Follows n true Eq (Library.enumerableNames r) (Library.enumerableNames (w.ref r)) s t := by
  have same := m.heaps.object other
  refine .yields (fun _ _ => rfl) (fun _ _ => rfl) (.refl m ?_)
  dsimp only
  rw [same.keys]
  refine congrArg (List.filter · _) (funext fun key => ?_)
  have own := m.heaps.own? other key
  generalize s.own? r key = p, t.own? (w.ref r) key = p' at own
  cases own with
  | none => rfl
  | some same => rw [Option.map_some, Option.map_some, same.enumerable]

section

variable (handles : w.Handles n)

include handles

theorem follows_keyText (m : w.Meet s t) (key : Key) :
    w.Follows n true Eq (Action.keyText key) (Action.keyText key) s t := by
  cases key with
  | index i => exact .pure m rfl
  | name u => exact .pure m rfl
  | symbol id => exact follows_display handles m (.symbol id)

theorem follows_copy (depth : Nat) (m : w.Meet s t) (same : w.Values x x') :
    w.Follows n true Eq (Action.copy depth x) (Action.copy depth x') s t := by
  induction depth generalizing x x' s t with
  | zero =>
    cases same with
    | symbol id =>
      exact .bind (follows_display handles m (.symbol id)) fun a a' u v lands =>
        .pure lands.meet (by rw [lands.related])
    | _ => exact .pure m rfl
  | succ depth ih =>
    cases same with
    | symbol id =>
      exact .bind (follows_display handles m (.symbol id)) fun a a' u v lands =>
        .pure lands.meet (by rw [lands.related])
    | undefined | null | bool | number | string => all_goals exact .pure m rfl
    | @object r other =>
      have kind := (m.heaps.object other).kind
      refine .read_bind ?_
      generalize (s.object r).kind = k, (t.object (w.ref r)).kind = k' at kind
      cases kind with
      | closure | native => all_goals exact .pure m rfl
      | boxed primitive => exact ih m (values_of_primitive primitive)
      | array =>
        refine .bind (follows_lengthOf handles m other) fun l l' u v counted => ?_
        obtain rfl := counted.related
        refine .bind (follows_mapEach (R := Eq) (Q := Eq) (List.forall₂_refl _) counted.meet ?_)
          fun ds ds' u v lands => .pure lands.meet ?_
        · rintro i _ u v rfl m
          exact .bind (follows_get handles m other) fun a a' u v
            (lands : w.Lands _ (w.Reads (.ofNat i)) ..) => ih lands.meet lands.related.same
        · obtain rfl : ds = ds' := List.forall₂_eq_eq_eq ▸ lands.related
          rfl
      | plain | error =>
        all_goals
          refine .bind (follows_enumerableNames m other) fun ks ks' u v named => ?_
          obtain rfl := named.related
          refine .bind (follows_mapEach (R := Eq) (Q := Eq) (List.forall₂_refl _) named.meet ?_)
            fun ds ds' u v lands => .pure lands.meet ?_
          · rintro key _ u v rfl m
            refine .bind (follows_keyText handles m key) fun text text' u v lands => ?_
            obtain rfl := lands.related
            refine .bind (follows_get handles lands.meet other) fun a a' u v
              (lands : w.Lands _ (w.Reads key) ..) => ?_
            exact .bind (ih lands.meet lands.related.same) fun d d' u v lands =>
              .pure lands.meet (by rw [lands.related])
          · obtain rfl : ds = ds' := List.forall₂_eq_eq_eq ▸ lands.related
            rfl

theorem follows_toData (m : w.Meet s t) (same : w.Values x x') :
    w.Follows n true Eq (Action.toData x) (Action.toData x') s t := by
  refine .read_bind ?_
  rw [m.isCallable same]
  cases s.isCallable x with
  | true =>
    exact .bind (follows_display handles m same) fun a a' u v lands =>
      .pure lands.meet (by rw [lands.related])
  | false => exact follows_copy handles _ m same

end

/-! ## When the scope of the statements is given up -/

/-- What corresponds where the scope of the statements is not in both stores any more. -/
def closed (w : Shift) (moved : Nat) : Shift := { w with inner := 1, scopes := moved }

theorem Values.closed (h : w.Values x x') (moved : Nat) : (w.closed moved).Values x x' := by
  cases h with
  | undefined => exact .undefined
  | null => exact .null
  | bool b => exact .bool b
  | number a => exact .number a
  | string a => exact .string a
  | symbol id => exact .symbol id
  | object other => exact .object (w := w.closed moved) other

theorem Properties.closed {p p' : Property} (h : w.Properties p p') (moved : Nat) :
    (w.closed moved).Properties p p' := by
  refine ⟨?_, h.enumerable, h.configurable⟩
  have slot := h.slot
  generalize p.slot = z, p'.slot = z' at slot
  cases slot with
  | value b same => exact .value b (same.closed moved)
  | accessor below => exact .accessor (w := w.closed moved) below
  | unmade => exact .unmade

theorem Objects.closed (h : w.Objects o o') (moved : Nat) : (w.closed moved).Objects o o' := by
  refine ⟨?_, h.proto, h.below, h.members.imp fun _ _ same => ⟨same.1, same.2.closed moved⟩⟩
  have kind := h.kind
  generalize o.kind = k, o'.kind = k' at kind
  cases kind with
  | plain => exact .plain
  | closure f g i j => exact .closure f g i j
  | native f => exact .native f
  | boxed primitive => exact .boxed primitive
  | error => exact .error
  | array length fixed same =>
    refine .array length fixed (same.imp fun e e' rel => ?_)
    cases rel with
    | none => exact .none
    | some same => exact .some (same.closed moved)

theorem Heaps.closed (h : w.Heaps s t) (moved : Nat) : (w.closed moved).Heaps s t :=
  ⟨h.ready, h.more, h.size, h.kept, h.made, fun beyond => (h.objects beyond).closed moved⟩

theorem scopes_pop {s : Store} (two : s.scopes.size = 2)
    (outermost : s.scopes[0]? = some ({} : Scope)) :
    s.scopes.pop = #[({} : Scope)] := by
  refine Array.ext_getElem? fun i => ?_
  rw [Array.getElem?_pop, two]
  split_ifs with below
  · obtain rfl : i = 0 := by omega
    rw [outermost]
    rfl
  · rw [Array.getElem?_eq_none]
    simp only [List.size_toArray, List.length_cons, List.length_nil]
    omega

theorem closeScope_keeps (s : Store) (scope keepers : Nat) :
    (s.closeScope scope keepers).objects = s.objects
      ∧ (s.closeScope scope keepers).symbols = s.symbols
      ∧ (s.closeScope scope keepers).keepers = s.keepers
      ∧ (s.closeScope scope keepers).console = s.console := by
  rw [Store.closeScope]
  split <;> exact ⟨rfl, rfl, rfl, rfl⟩

theorem outermost_closeScope {s : Store} (two : 2 ≤ s.scopes.size) (keepers : Nat) :
    (s.closeScope 1 keepers).scopes[0]? = s.scopes[0]? := by
  rw [Store.closeScope]
  split
  · rw [Array.getElem?_pop, if_pos (by omega)]
  · rfl

/-- When the statements have been executed, their scope is given up if no function has been made
in it. What corresponds then is as before. -/
theorem Meet.close (m : w.Meet s t) (two : w.inner = 2) {keepers keepers' : Nat}
    (least : keepers ≤ s.keepers) (most : keepers' ≤ keepers + w.keepers)
    (unmade : s.keepers = keepers → ∀ r f i, w.host < r → (s.object r).kind ≠ .closure f i) :
    ∃ w' : Shift, w'.Meet (s.closeScope 1 keepers) (t.closeScope 1 keepers')
      ∧ (∀ x x', w.Values x x' → w'.Values x x') ∧ w'.written = w.written := by
  have enough := m.chains.enough
  have size := m.chains.size
  have kept := m.keepers
  by_cases last : s.keepers = keepers ∧ s.scopes.size = 2
  · have gone : (s.closeScope 1 keepers).scopes = #[({} : Scope)] := by
      rw [Store.closeScope, if_pos (by simpa using last)]
      exact scopes_pop last.2 m.chains.outermost.1
    have outermost : (t.closeScope 1 keepers').scopes[0]? = some ({} : Scope) :=
      (outermost_closeScope (by omega) keepers').trans m.chains.outermost.2
    have some_scope := Store.lt_size_of_scope outermost
    have only {i : Nat} {sc : Scope} (at_i : (s.closeScope 1 keepers).scopes[i]? = some sc) :
        i = 0 ∧ sc = {} := by
      rw [gone] at at_i
      obtain ⟨below, rfl⟩ := Array.getElem?_eq_some_iff.1 at_i
      obtain rfl : i = 0 := by simpa using below
      exact ⟨rfl, rfl⟩
    let moved := (t.closeScope 1 keepers').scopes.size - 1
    have chains : (w.closed moved).Chains (s.closeScope 1 keepers) (t.closeScope 1 keepers') := by
      refine ⟨Nat.one_pos, by rw [gone]; exact Nat.le_refl 1, ?_, ⟨by rw [gone]; rfl, outermost⟩,
        fun {i sc} at_i => ?_, fun {i sc} low at_i n _ => ?_,
        fun more => absurd more (Nat.lt_irrefl 1)⟩
      · rw [gone]
        change _ = 1 + moved
        omega
      · obtain ⟨rfl, rfl⟩ := only at_i
        exact ⟨{}, outermost, rfl, .none, fun _ => .none⟩
      · obtain ⟨rfl, rfl⟩ := only at_i
        rfl
    obtain ⟨objects, symbols, keepers_s, console⟩ := closeScope_keeps s 1 keepers
    obtain ⟨objects', symbols', keepers_t, console'⟩ := closeScope_keeps t 1 keepers'
    have object (r : Nat) : (s.closeScope 1 keepers).object r = s.object r := by
      rw [Store.object, objects, Store.object]
    refine ⟨w.closed moved, ⟨(m.heaps.closed moved).congr objects objects', chains,
      fun {r f i} beyond kind => absurd (object r ▸ kind) (unmade last.1 r f i beyond),
      ⟨symbols.trans m.symbols.1, symbols'.trans m.symbols.2⟩, ?_, ?_⟩,
      fun _ _ same => same.closed moved, rfl⟩
    · rw [keepers_s, keepers_t]
      exact m.keepers
    · rw [console, console']
      exact m.console
  · have last' : ¬ (t.keepers = keepers' ∧ t.scopes.size = 2) := by omega
    rw [Store.closeScope, Store.closeScope, if_neg (by simpa using last),
      if_neg (by simpa using last')]
    exact ⟨w, m, fun _ _ => id, rfl⟩

/-! ## The end of a script -/

/-- What follows on an exception that nothing catches. -/
def caught : Value → Store → Run := fun v s =>
  (Action.display v) (fun text s => .done (.thrown text) s) (fun _ s => .done (.thrown []) s) s

/-- What follows on the value of a script. -/
def finishing : Value → Store → Run := fun v s =>
  (Action.toData v) (fun d s => .done (.value d) s) caught s

theorem thrown_unsettled {text : Units} {e : Store} :
    ¬ (Run.done (.thrown text) s).Settles e n := by
  rintro (_ | ⟨quiet, -⟩)
  cases quiet

theorem hopeless_caught (w : Shift) : w.Hopeless caught := by
  intro x x' s t e n same meet settles
  have nothing : w.Hopeless fun _ s => .done (.thrown []) s := fun _ _ _ _ _ _ _ _ =>
    thrown_unsettled
  obtain ⟨j, le, a, b, u, v, -, runs, -⟩ := follows_display (handles_all w n) meet same n
    (Nat.le_refl n) _ _ e nothing settles
  have rest := settles.iterate le
  rw [caught, runs] at rest
  exact thrown_unsettled rest

/-- A script comes to the data of its value, and the same data is given where more has been
executed before. Nothing is written. -/
theorem finishing_settles (m : w.Meet s t) (same : w.Values x x') {e : Store}
    (settles : (finishing x s).Settles e n) : e.console = s.console
      ∧ ∃ j d v, v.console = t.console ∧ Run.step^[j] (finishing x' t) = .done (.value d) v := by
  obtain ⟨j, le, d, d', u, v, lands, runs, runs'⟩ := follows_toData (handles_all w n) m same n
    (Nat.le_refl n) _ _ e (hopeless_caught w) settles
  have rest := settles.iterate le
  rw [finishing, runs] at rest
  generalize n - j = l at rest
  obtain _ | ⟨quiet, -⟩ := rest
  · have silent := lands.console rfl
    refine ⟨silent, j, d', v, ?_, runs' _ _⟩
    rw [lands.meet.console, silent, m.console]
  · cases quiet

end EggLang.Script.Shift
