import EggLang.Proofs.Script.Results
import EggLang.Proofs.Script.Wrapped

/-!
# Scripts that are executed in turn

The statements of several scripts are put into one function. Each part is executed there as the
script on its own is, so that the whole writes what the scripts write, in their order.
-/

namespace EggLang.Script

open EggLang.Script.Parser (wrapper callOf)

variable {s t u v : Store} {ctx : Context} {others bound : List String} {ends : Bool}
  {b p : List Stmt} {start : Place} {extent : Nat}

/-! ## Parts -/

/-- The statements of a script, and those that stand for them among others. What a script does not
do but return is evaluated there. -/
inductive Part (others bound : List String) (ends : Bool) : List Stmt → List Stmt → Prop where
  | statements {b p : List Stmt} : Stmt.TwinsAll others ends bound b p → Part others bound ends b p
  | value {x y : Expr} : Expr.Twins others bound x y →
      Part others bound ends [.return x] [.expression y]

mutual

theorem Stmt.Twins.variables {others bound : List String} {ends : Bool} {x y : Stmt}
    (h : Stmt.Twins others ends bound x y) :
    y.variables_ = x.variables_ ∧ "arguments" ∉ x.variables_ :=
  match h with
  | .declare shared _ _ =>
    ⟨rfl, by simpa [Stmt.variables_, Expr.names] using shared.notArguments.symm⟩
  | .if _ yes no => by
    obtain ⟨same, free⟩ := yes.variables
    obtain ⟨same', free'⟩ := no.variables
    simp [Stmt.variables_, same, same', free, free']
  | .while _ body => by
    obtain ⟨same, free⟩ := body.variables
    simp [Stmt.variables_, same, free]
  | .block all => by
    obtain ⟨same, free⟩ := all.variables
    simp [Stmt.variables_, same, free]
  | .expression _ | .return _ | .throw _ | .empty => by simp [Stmt.variables_]

theorem Stmt.TwinsAll.variables {others bound : List String} {ends : Bool} {xs ys : List Stmt}
    (h : Stmt.TwinsAll others ends bound xs ys) :
    Stmt.variablesAll ys = Stmt.variablesAll xs ∧ "arguments" ∉ Stmt.variablesAll xs :=
  match h with
  | .nil => by simp [Stmt.variablesAll]
  | .cons first rest => by
    obtain ⟨same, free⟩ := first.variables
    obtain ⟨same', free'⟩ := rest.variables
    simp [Stmt.variablesAll, same, same', free, free']

end

theorem Part.variables (h : Part others bound ends b p) :
    Stmt.variablesAll p = Stmt.variablesAll b ∧ "arguments" ∉ Stmt.variablesAll b := by
  cases h with
  | statements all => exact all.variables
  | value => exact ⟨rfl, by simp [Stmt.variablesAll, Stmt.variables_]⟩

theorem Part.plain (h : Part others bound ends b p) :
    (blockVariables b = [] ∧ Stmt.functions b = [])
      ∧ blockVariables p = [] ∧ Stmt.functions p = [] := by
  cases h with
  | statements all => exact Shift.plain_of_twins all
  | value => exact ⟨⟨rfl, rfl⟩, rfl, rfl⟩

namespace Shift

variable {w : Shift} {n i : Nat}

/-- A script has come to its end, and its part has, too. It goes on with what follows unless it may
return. -/
def Ends (w : Shift) (ends : Bool) (c c' : Completion) : Prop :=
  ∃ x', w.Values c.result x' ∧ ((∃ v, c' = .normal v) ∨ ends = true ∧ c' = .returned x')

theorem follows_part (handles : w.Handles n) (part : Part w.others bound ends b p) (m : w.Meet s t)
    (binds : s.Binds i bound) (last last' : Option Value) :
    w.Follows n false (w.Ends ends) (Action.execAll (.within i) b last)
      (Action.execAll (.within (w.scope i)) p last') s t := by
  cases part with
  | statements all =>
    refine (follows_execAll handles all m binds last last').weaken fun c c' same => ?_
    cases same with
    | normal x x' => exact ⟨.undefined, .undefined, .inl ⟨x', rfl⟩⟩
    | returned is same => exact ⟨_, same, .inr ⟨is, rfl⟩⟩
  | value twins =>
    rw [Action.execAll, Action.execAll, Action.exec, Action.exec]
    have given : w.Follows n false (fun c c' => ∃ x x', w.Values x x'
        ∧ c = Completion.returned x ∧ c' = Completion.normal (some x')) _ _ s t :=
      .bind (follows_eval handles twins m binds) fun x x' u v lands =>
        .pure lands.meet ⟨x, x', lands.related, rfl, rfl⟩
    refine .bind given fun c c' u v lands => ?_
    obtain ⟨x, x', same, rfl, rfl⟩ := lands.related
    exact .pure lands.meet ⟨x', same, .inl ⟨_, rfl⟩⟩

end Shift

/-! ## Scripts -/

section

variable (s : Store) (f : Function)

/-- A store in which the function of a script has been made. -/
def hostStore : Store := (s.keepScope.alloc (Shift.closureOf f 0)).2

/-- The scope of the statements of a script. -/
def hostScope : Scope where
  variables_ := Shift.plainVariables f.info []
  outer := some 0
  frame := some { callee := s.objects.size, self := .object Intrinsic.global.ref }

/-- The store in which the first statement of a script is executed. -/
def entered : Store := ((hostStore s f).openScope (hostScope s f)).2

/-- The call of the function of a script. -/
def calling : Run :=
  .call s.objects.size .undefined [] none Shift.finishing Shift.caught (hostStore s f)

/-- What a script does with statements after those that have been executed. -/
def going (body : List Stmt) (last : Option Value) (t : Store) : Run :=
  Action.execAll (.within 1) body last
    (fun c u => Shift.finishing c.result (u.closeScope 1 (s.keepers + 1))) Shift.caught t

theorem kind_host : ((hostStore s f).object s.objects.size).kind = .closure f 0 := by
  have made := Store.object_alloc s.keepScope (Shift.closureOf f 0) s.objects.size
  rw [hostStore, made, if_pos (show s.objects.size = s.keepScope.objects.size from rfl)]
  rfl

end

theorem callFound_run {ref : Nat} (callable : s.isCallable (.object ref) = true) (self : Value)
    (args : List Value) (k h : Value → Store → Run) :
    Action.callFound (.value (.object ref)) self args k h s = .call ref self args none k h s := by
  have found : Action.callFound (.value (.object ref)) self args = (do
      if ← Action.read (·.isCallable (.object ref)) then Action.invoke ref self args
      else Action.failAbout "Not a function: " (← Action.toText (.object ref)) "") := rfl
  simp only [found, Action.bind_run, Action.read, callable, if_true, Action.invoke]

theorem runCode_callOf (idle : s.frame? 0 = none) (f : Function) (k : Completion → Store → Run)
    (h : Value → Store → Run) :
    Action.runCode (callOf f) 0 k h s
      = Action.eval (.within 0) (.call false (.function f) []) (fun v u => k (.normal (some v)) u)
          h s := by
  simp only [Action.runCode, Action.bind_run, Action.read, idle]
  rfl

/-- A script calls the function around its statements. -/
theorem call_host {f : Function} (idle : s.frame? 0 = none) (normal : f.info.kind = .normal)
    (nameless : f.info.name = none) (k : Completion → Store → Run) (h : Value → Store → Run) :
    Action.runCode (callOf f) 0 k h s = .call s.objects.size .undefined [] none
      (fun v u => k (.normal (some v)) u) h (hostStore s f) := by
  have callable : (hostStore s f).isCallable (.object s.objects.size) = true := by
    rw [Store.isCallable, Object.isCallable, kind_host]
  have other : Shift.IsOther (.function f) := trivial
  rw [runCode_callOf idle, Shift.eval_call_other other, Action.bind_run, Action.eval,
    Shift.functionValue_yields normal nameless]
  exact callFound_run callable _ _ _ _

/-- The function around the statements of a script executes them. -/
theorem host_reaches {f : Function} (scopes : s.scopes = #[({} : Scope)])
    (normal : f.info.kind = .normal) (simple : f.info.isSimple = true)
    (free : "arguments" ∉ f.info.variables_)
    (plain : blockVariables f.body = [] ∧ Stmt.functions f.body = []) :
    (calling s f).step = going s f.body none (entered s f) := by
  have size : (hostStore s f).scopes.size = 1 := by
    change s.scopes.size = 1
    rw [scopes]
    rfl
  have opened (k : Completion → Store → Run) (h : Value → Store → Run) :
      Action.enter s.objects.size f 0 (.object Intrinsic.global.ref) [] none k h (hostStore s f)
        = Action.execAll (.within (hostStore s f).scopes.size) f.body none
          (fun c u => k c (u.closeScope (hostStore s f).scopes.size (s.keepers + 1))) h
            (entered s f) := by
    rw [Shift.enter_eq normal simple free plain.1 plain.2]
    rfl
  rw [calling, call_run (kind_host s f) normal]
  refine (opened _ _).trans ?_
  rw [size]
  rfl

/-! ## Between two parts -/

theorem lookup_declareNew_of_mem {ns : List String} {name : String} (mem : name ∈ ns)
    {vs : List (String × Variable)} (fresh : ∀ x, vs.lookup name = some x → x = {}) :
    (declareNew ns vs).lookup name = some {} := by
  induction ns generalizing vs with
  | nil => cases mem
  | cons n ns ih =>
    have kept {ns : List String} (free : name ∉ ns) {vs : List (String × Variable)}
        (there : vs.lookup name = some {}) : (declareNew ns vs).lookup name = some {} := by
      rw [lookup_declareNew free, there]
    rw [declareNew, List.foldl_cons, ← declareNew]
    by_cases later : name ∈ ns
    · refine ih later fun x found => ?_
      split_ifs at found
      · exact fresh x found
      · rw [List.lookup_append, Option.or_eq_some_iff] at found
        rcases found with old | ⟨-, new⟩
        · exact fresh x old
        · rw [List.lookup_cons, List.lookup_nil] at new
          split at new
          · cases new
            rfl
          · cases new
    · obtain rfl : name = n := (List.mem_cons.1 mem).resolve_right later
      refine kept later ?_
      split_ifs with there
      · obtain ⟨x, found⟩ := Option.isSome_iff_exists.1 there
        rw [found, fresh x found]
      · rw [List.lookup_append, Option.not_isSome_iff_eq_none.1 there]
        simp

/-- The scope of statements some of which are still to come: the variables that these declare have
no value yet. -/
structure IsHome (left declared : List String) (sc : Scope) : Prop where
  outer : sc.outer = some 0
  frame : ∃ f, sc.frame = some f ∧ f.args = [] ∧ f.arguments = none
  unset {name : String} : name ∈ left → sc.variables_.lookup name = some {}
  undeclared {name : String} : name ∉ declared → sc.variables_.lookup name = none

theorem hostScope_isHome {f : Function} {names : List String} (nullary : f.info.parameters = [])
    (same : ∀ name, name ∈ f.info.variables_ ↔ name ∈ names) :
    IsHome names names (hostScope s f) := by
  have variables_ : (hostScope s f).variables_ = declareNew f.info.variables_ [] := by
    rw [hostScope, Shift.plainVariables, nullary, bindParameters]
  refine ⟨rfl, ⟨_, rfl, rfl, rfl⟩, fun mem => ?_, fun free => ?_⟩
  · rw [variables_]
    exact lookup_declareNew_of_mem ((same _).2 mem) (by simp)
  · rw [variables_, lookup_declareNew (mt (same _).1 free)]
    rfl

/-- A store between the parts of a script. What was there at the start is as it was. -/
structure Between (s : Store) (left declared : List String) (t : Store) : Prop where
  more : s.objects.size < t.objects.size
  kept {r : Nat} : r < s.objects.size → t.object r = s.object r
  enough : 2 ≤ t.scopes.size
  outermost : t.scopes[0]? = some ({} : Scope)
  home : ∃ sc, t.scopes[1]? = some sc ∧ IsHome left declared sc
  symbols : t.symbols = s.symbols
  keepers : s.keepers < t.keepers

section

variable {f : Function} {left declared rest names : List String}

theorem object_entered (s : Store) (f : Function) (r : Nat) :
    (entered s f).object r = if r = s.objects.size then Shift.closureOf f 0 else s.object r :=
  Store.object_alloc s.keepScope (Shift.closureOf f 0) r

theorem size_entered (s : Store) (f : Function) :
    (entered s f).objects.size = s.objects.size + 1 :=
  Store.size_alloc s.keepScope (Shift.closureOf f 0)

theorem scopes_entered (scopes : s.scopes = #[({} : Scope)]) (f : Function) :
    (entered s f).scopes = #[{}, hostScope s f] := by
  change s.scopes.push (hostScope s f) = _
  rw [scopes]
  rfl

theorem hostScope_cases {i : Nat} {sc : Scope} (at_i : #[{}, hostScope s f][i]? = some sc) :
    i = 0 ∧ sc = {} ∨ i = 1 ∧ sc = hostScope s f := by
  match i, at_i with
  | 0, rfl => exact .inl ⟨rfl, rfl⟩
  | 1, rfl => exact .inr ⟨rfl, rfl⟩

theorem console_of_silent (silent : s.output = []) : s.console = [] := by
  cases same : s.console with
  | nil => rfl
  | cons line lines =>
    rw [Store.output, same] at silent
    simp [utf8] at silent

/-- What corresponds when a script is about to be executed on its own, and as a part. -/
def Between.shift (s t : Store) (others : List String) (home : Scope) : Shift where
  start := s
  objects := t.objects.size - (s.objects.size + 1)
  scopes := t.scopes.size - 2
  keepers := t.keepers - (s.keepers + 1)
  inner := 2
  others
  home
  written := t.console

theorem object_entered_beyond (f : Function) {r : Nat} (beyond : s.objects.size < r) :
    (entered s f).object r = {} := by
  rw [object_entered, if_neg (Nat.ne_of_gt beyond),
    Store.object_of_size_le (Nat.le_of_lt beyond)]

theorem Between.heaps (ready : Start.IsReady s) (h : Between s left declared t) {home : Scope} :
    (Between.shift s t others home).Heaps (entered s f) t := by
  have more := h.more
  set w := Between.shift s t others home with shift
  have host : w.host = s.objects.size := rfl
  have nothing {r : Nat} (beyond : w.host < r) : (entered s f).object r = {} :=
    object_entered_beyond f (host ▸ beyond)
  have nothing' {r : Nat} (beyond : w.host < r) : t.object (w.ref r) = {} := by
    refine Store.object_of_size_le ?_
    rw [Shift.ref_of_le (Nat.le_of_lt beyond)]
    change t.objects.size ≤ r + (t.objects.size - (s.objects.size + 1))
    omega
  refine ⟨ready, ?_, ?_, fun {r} below => ⟨?_, h.kept below⟩, fun {r} beyond => ?_,
    fun {r} beyond => ?_⟩
  · rw [size_entered]
    exact Nat.lt_succ_self _
  · rw [size_entered]
    change t.objects.size = s.objects.size + 1 + (t.objects.size - (s.objects.size + 1))
    omega
  · rw [object_entered, if_neg (Nat.ne_of_lt (host ▸ below))]
    rfl
  · rw [nothing beyond]
    exact Shift.isMade_of_empty rfl
  · rw [nothing beyond, nothing' beyond]
    exact ⟨.plain, rfl, by simp, .nil⟩

theorem Between.chains (ready : Start.IsReady s) (h : Between s left declared t) {home : Scope}
    (at_home : t.scopes[1]? = some home) (isHome : IsHome left declared home)
    (alone : IsHome names names (hostScope s f)) (within : ∀ name ∈ names, name ∈ left)
    (apart : ∀ name ∈ names, name ∉ others)
    (all : ∀ name ∈ declared, name ∈ names ∨ name ∈ others) :
    (Between.shift s t others home).Chains (entered s f) t := by
  have enough := h.enough
  have scopes := scopes_entered ready.scopes f
  set w := Between.shift s t others home with shift
  refine ⟨Nat.two_pos, ?_, ?_, ⟨?_, h.outermost⟩, fun {i sc} at_i => ?_,
    fun {i sc} _ at_i name mem => ?_, fun _ => ⟨home, at_home, .refl home, fun _ _ => rfl⟩⟩
  · rw [scopes]
    exact Nat.le_refl 2
  · rw [scopes]
    change t.scopes.size = 2 + (t.scopes.size - 2)
    omega
  · rw [scopes]
    rfl
  · rw [scopes] at at_i
    rcases hostScope_cases at_i with ⟨rfl, rfl⟩ | ⟨rfl, rfl⟩
    · exact ⟨{}, h.outermost, rfl, .none, fun _ => .none⟩
    · refine ⟨home, at_home, ?_, ?_, fun {name} shown => ?_⟩
      · rw [alone.outer, isHome.outer]
        rfl
      · obtain ⟨a, frame, noArgs, unseen⟩ := alone.frame
        obtain ⟨b, frame', noArgs', unseen'⟩ := isHome.frame
        rw [frame, frame']
        exact .some ⟨by rw [noArgs, noArgs'], unseen, unseen'⟩
      · rw [Shift.hidden_of_lt (Nat.lt_succ_self 1)] at shown
        by_cases own : name ∈ names
        · rw [alone.unset own, isHome.unset (within name own)]
          exact .some ⟨.some .undefined, rfl⟩
        · rw [alone.undeclared own, isHome.undeclared fun mem => (all name mem).elim own shown]
          exact .none
  · rw [scopes] at at_i
    rcases hostScope_cases at_i with ⟨rfl, rfl⟩ | ⟨rfl, rfl⟩
    · rfl
    · exact alone.undeclared fun own => apart name own mem

theorem Between.meet (ready : Start.IsReady s) (h : Between s left declared t) {home : Scope}
    (at_home : t.scopes[1]? = some home) (isHome : IsHome left declared home)
    (alone : IsHome names names (hostScope s f)) (within : ∀ name ∈ names, name ∈ left)
    (apart : ∀ name ∈ names, name ∉ others)
    (all : ∀ name ∈ declared, name ∈ names ∨ name ∈ others) :
    (Between.shift s t others home).Meet (entered s f) t := by
  have keepers := h.keepers
  have chains := h.chains ready at_home isHome alone within apart all
  refine ⟨h.heaps ready, chains, fun {r g i} beyond kind => ?_, ⟨rfl, h.symbols⟩, ?_, ?_⟩
  · have nothing : (entered s f).object r = {} := object_entered_beyond f beyond
    rw [nothing] at kind
    cases kind
  · change t.keepers = s.keepers + 1 + (t.keepers - (s.keepers + 1))
    omega
  · change t.console = s.console ++ t.console
    rw [console_of_silent ready.silent, List.nil_append]

/-- After a part the next one is as it was: what the part has made is its own. -/
theorem Between.after (h : Between s left declared t) {home : Scope}
    (isHome : IsHome left declared home) (m : (Between.shift s t others home).Meet u v)
    (grows : (entered s f).Grows u) (less : ∀ name ∈ rest, name ∈ left ∧ name ∈ others) :
    Between s rest declared v := by
  have more := m.heaps.more
  have size := m.heaps.size
  have enough : 2 ≤ u.scopes.size := m.chains.enough
  have scopes := m.chains.size
  have keepers : v.keepers = u.keepers + (t.keepers - (s.keepers + 1)) := m.keepers
  have before := h.keepers
  have kept : s.keepers + 1 ≤ u.keepers := grows.keepers
  obtain ⟨sc, at_home, turns, same⟩ := m.chains.home (Nat.lt_succ_self 1)
  refine ⟨?_, fun below => (m.heaps.kept below).2, by omega, m.chains.outermost.2,
    ⟨sc, at_home, ?_, ?_, fun {name} mem => ?_, fun {name} free => ?_⟩, m.symbols.2, by omega⟩
  · change s.objects.size < u.objects.size at more
    omega
  · exact turns.outer.trans isHome.outer
  · rw [turns.frame]
    exact isHome.frame
  · obtain ⟨inside, other⟩ := less name mem
    exact (same name other).trans (isHome.unset inside)
  · have still := turns.names name
    change _ = (home.variables_.lookup name).isSome at still
    rw [isHome.undeclared free] at still
    exact Option.isNone_iff_eq_none.1 (by simpa using still)

/-! ## One part after the other -/

theorem execAll_append (p q : List Stmt) (last : Option Value) (k : Completion → Store → Run)
    (h : Value → Store → Run) (s : Store) :
    Action.execAll ctx (p ++ q) last k h s = Action.execAll ctx p last (fun c u => match c with
      | .normal x => Action.execAll ctx q x k h u
      | c => k c u) h s := by
  induction p generalizing last s with
  | nil => rfl
  | cons x p ih =>
    rw [List.cons_append, Action.execAll, Action.execAll, Action.bind_run, Action.bind_run]
    refine congrArg (fun k => Action.exec ctx [] x k h s) (funext fun c => funext fun u => ?_)
    cases c with
    | normal v => exact ih (v.or last) u
    | _ => rfl

/-- A part comes to its end if the script does, and it has written what the script writes. If it
does not go on, the value that it returns is that of a script. -/
theorem Between.part (ready : Start.IsReady s) (h : Between s left declared t)
    (alone : IsHome (Stmt.variablesAll b) (Stmt.variablesAll b) (hostScope s f))
    (part : Part others (Stmt.variablesAll b) ends b p)
    (within : ∀ name ∈ Stmt.variablesAll b, name ∈ left)
    (apart : ∀ name ∈ Stmt.variablesAll b, name ∉ others)
    (all : ∀ name ∈ declared, name ∈ Stmt.variablesAll b ∨ name ∈ others)
    (less : ∀ name ∈ rest, name ∈ left ∧ name ∈ others) {e : Store} {n : Nat}
    (settles : (going s b none (entered s f)).Settles e n) (last : Option Value) :
    ∃ j c v, (∀ k h, Run.step^[j] (Action.execAll (.within 1) p last k h t) = k c v)
      ∧ Between s rest declared v ∧ v.console = e.console ++ t.console
      ∧ ((∃ x, c = .normal x) ∨ ends = true ∧ ∃ i d y,
        Run.step^[i] (Shift.finishing c.result (v.closeScope 1 (s.keepers + 1)))
            = .done (.value d) y ∧ y.console = v.console) := by
  obtain ⟨home, at_home, isHome⟩ := h.home
  have meet := h.meet ready at_home isHome alone within apart all
  have scopes := scopes_entered ready.scopes f
  have binds : (entered s f).Binds 1 (Stmt.variablesAll b) := by
    refine ⟨by rw [scopes]; exact Nat.lt_succ_self 1, fun name mem _ => ⟨1, {}, ?_⟩⟩
    have at_1 : (entered s f).scopes[1]? = some (hostScope s f) := by
      rw [scopes]
      rfl
    rw [Store.find?, at_1]
    dsimp only
    rw [alone.unset mem]
  set w := Between.shift s t others home with shift
  obtain ⟨j, le, c, c', u, v, lands, runs, runs'⟩ :=
    Shift.follows_part (w := w) (Shift.handles_all w n) part meet binds none last n (Nat.le_refl n)
      _ _ e (Shift.hopeless_caught w) settles
  have ended := settles.iterate le
  rw [going, runs] at ended
  have unmade (same : u.keepers = s.keepers + 1) (r : Nat) (g : Function) (i : Nat)
      (beyond : w.host < r) : (u.object r).kind ≠ .closure g i := by
    intro kind
    have there := lands.grows.closures same r g i kind
    change s.objects.size < r at beyond
    rw [object_entered, if_neg (by omega), Store.object_of_size_le (by omega)] at there
    cases there
  have more := h.keepers
  have least : s.keepers + 1 ≤ u.keepers := lands.grows.keepers
  have most : s.keepers + 1 ≤ s.keepers + 1 + w.keepers := Nat.le_add_right _ _
  obtain ⟨w', close, closed, -⟩ := lands.meet.close rfl least most unmade
  obtain ⟨x', same, ends⟩ := lands.related
  obtain ⟨console, i, d, y, silent, finishes⟩ :=
    Shift.finishing_settles close (closed _ _ same) ended
  have line : v.console = e.console ++ t.console := by
    rw [console, (Shift.closeScope_keeps u 1 _).2.2.2]
    exact lands.meet.console
  refine ⟨j, c', v, runs', h.after isHome lands.meet lands.grows less, line, ends.imp_right ?_⟩
  rintro ⟨may, rfl⟩
  refine ⟨may, i, d, y, finishes, silent.trans ?_⟩
  exact (Shift.closeScope_keeps v 1 _).2.2.2

end

/-- The statements of scripts, and those that stand for each in one script. No name is declared by
two of them, and none but the last returns. -/
inductive Composed : List String → List (List Stmt) → List (List Stmt) → Prop where
  | nil {done : List String} : Composed done [] []
  | cons {done : List String} {b p : List Stmt} {bs ps : List (List Stmt)} :
      Part (done ++ bs.flatMap Stmt.variablesAll) (Stmt.variablesAll b) bs.isEmpty b p →
      (∀ name ∈ Stmt.variablesAll b, name ∉ done ++ bs.flatMap Stmt.variablesAll) →
      Composed (done ++ Stmt.variablesAll b) bs ps → Composed done (b :: bs) (p :: ps)

theorem variablesAll_append (p q : List Stmt) :
    Stmt.variablesAll (p ++ q) = Stmt.variablesAll p ++ Stmt.variablesAll q := by
  induction p with
  | nil => rfl
  | cons x p ih =>
    rw [List.cons_append, Stmt.variablesAll, Stmt.variablesAll, ih, List.append_assoc]

theorem functions_append (p q : List Stmt) :
    Stmt.functions (p ++ q) = Stmt.functions p ++ Stmt.functions q := by
  induction p with
  | nil => rfl
  | cons x p ih =>
    cases x with
    | labelled label x =>
      simp only [List.cons_append, Stmt.functions]
      split <;> simp [ih]
    | _ => simp [Stmt.functions, ih]

/-- The whole declares what the scripts declare. -/
theorem Composed.variables {done : List String} {bodies parts : List (List Stmt)}
    (h : Composed done bodies parts) :
    Stmt.variablesAll parts.flatten = bodies.flatMap Stmt.variablesAll
      ∧ "arguments" ∉ Stmt.variablesAll parts.flatten
      ∧ blockVariables parts.flatten = [] ∧ Stmt.functions parts.flatten = [] := by
  induction h with
  | nil => exact ⟨rfl, List.not_mem_nil, rfl, rfl⟩
  | cons part _ _ ih =>
    obtain ⟨all, free, locals, functions⟩ := ih
    obtain ⟨same, other⟩ := part.variables
    obtain ⟨-, first, second⟩ := part.plain
    refine ⟨?_, ?_, ?_, ?_⟩
    · rw [List.flatten_cons, variablesAll_append, same, all, List.flatMap_cons]
    · rw [List.flatten_cons, variablesAll_append, same, List.mem_append, not_or]
      exact ⟨other, free⟩
    · rw [List.flatten_cons, blockVariables, List.flatMap_append, ← blockVariables,
        ← blockVariables, first, locals, List.append_nil]
    · rw [List.flatten_cons, functions_append, second, functions, List.append_nil]

/-- A script whose function has been made executes its statements and comes to a value. All its
stops are quiet. -/
def WritesAlone (s : Store) (b : List Stmt) (text : Bytes) : Prop :=
  ∃ start extent n e, e.output = text ∧
    (calling s (wrapper start extent b)).Settles e n

theorem WritesAlone.going {text : Bytes} (h : WritesAlone s b text)
    (scopes : s.scopes = #[({} : Scope)]) (part : Part others bound ends b p) :
    ∃ f n e, IsHome (Stmt.variablesAll b) (Stmt.variablesAll b) (hostScope s f)
      ∧ e.output = text ∧ (going s b none (entered s f)).Settles e n := by
  obtain ⟨start, extent, n, e, output, settles⟩ := h
  have names (name : String) : name ∈ (wrapper start extent b).info.variables_
      ↔ name ∈ Stmt.variablesAll b := List.mem_eraseDups
  have free : "arguments" ∉ (wrapper start extent b).info.variables_ :=
    mt (names _).1 part.variables.2
  refine ⟨wrapper start extent b, n, e, hostScope_isHome rfl names, output, ?_⟩
  have runs : (calling s (wrapper start extent b)).step
      = EggLang.Script.going s b none (entered s (wrapper start extent b)) :=
    host_reaches scopes rfl rfl free part.plain.1
  cases settles with
  | step _ rest =>
    rw [runs] at rest
    exact rest.mono (Nat.le_succ _)

theorem output_closeScope (s : Store) (scope keepers : Nat) :
    (s.closeScope scope keepers).output = s.output := by
  rw [Store.closeScope]
  split <;> rfl

theorem output_of_console (same : v.console = u.console ++ t.console) :
    v.output = t.output ++ u.output := by
  simp [Store.output, same]

theorem finishing_undefined (s : Store) :
    Shift.finishing .undefined s = .done (.value .null) s := by
  simp [Shift.finishing, Action.toData, Action.bind_run, Action.read, Store.isCallable, Action.copy,
    Action.pure_run]

/-- Scripts are executed one after the other: what they write, the whole writes in their order. -/
theorem Composed.runs {done : List String} {bodies parts : List (List Stmt)}
    (composed : Composed done bodies parts) (ready : Start.IsReady s)
    (between : Between s (bodies.flatMap Stmt.variablesAll)
      (done ++ bodies.flatMap Stmt.variablesAll) t)
    {texts : List Bytes} (alone : List.Forall₂ (WritesAlone s) bodies texts)
    (last : Option Value) : ∃ j d v,
      Run.step^[j] (going s parts.flatten last t) = .done (.value d) v
        ∧ v.output = t.output ++ texts.flatten := by
  induction composed generalizing t texts last with
  | nil =>
    cases alone
    refine ⟨0, .null, t.closeScope 1 (s.keepers + 1), finishing_undefined _, ?_⟩
    rw [output_closeScope, List.flatten_nil, List.append_nil]
  | @cons done b p bs ps part apart composed ih =>
    rw [List.flatMap_cons, ← List.append_assoc] at between
    cases alone with
    | @cons _ text _ texts first others =>
    obtain ⟨f, n, e, home, rfl, settles⟩ := first.going ready.scopes part
    have all (name : String)
        (mem : name ∈ done ++ Stmt.variablesAll b ++ bs.flatMap Stmt.variablesAll) :
        name ∈ Stmt.variablesAll b ∨ name ∈ done ++ bs.flatMap Stmt.variablesAll := by
      simp only [List.mem_append] at mem ⊢
      tauto
    have less (name : String) (mem : name ∈ bs.flatMap Stmt.variablesAll) :
        name ∈ Stmt.variablesAll b ++ bs.flatMap Stmt.variablesAll
          ∧ name ∈ done ++ bs.flatMap Stmt.variablesAll :=
      ⟨List.mem_append_right _ mem, List.mem_append_right _ mem⟩
    obtain ⟨j, c, v, runs, after, console, ends⟩ := between.part ready home part
      (fun name mem => List.mem_append_left _ mem) apart all less settles last
    have output : v.output = t.output ++ e.output := output_of_console console
    have goes : Run.step^[j] (going s (p ++ ps.flatten) last t) = _ :=
      (congrArg (Run.step^[j]) (execAll_append p ps.flatten last _ _ t)).trans (runs _ _)
    rw [List.flatten_cons, List.flatten_cons, ← List.append_assoc, ← output]
    rcases ends with ⟨x, rfl⟩ | ⟨is_last, i, d, y, finishes, silent⟩
    · obtain ⟨i, d, y, done, written⟩ := ih after others x
      exact ⟨i + j, d, y, by rw [Function.iterate_add_apply, goes]; exact done, written⟩
    · obtain rfl : bs = [] := List.isEmpty_iff.1 is_last
      cases composed
      cases others
      have goes : Run.step^[j] (going s (p ++ [].flatten) last t)
          = Shift.finishing c.result (v.closeScope 1 (s.keepers + 1)) := by
        rw [goes]
        cases c <;> rfl
      refine ⟨i + j, d, y, by rw [Function.iterate_add_apply, goes, finishes], ?_⟩
      rw [List.flatten_nil, List.append_nil, Store.output, silent, Store.output]

end EggLang.Script
