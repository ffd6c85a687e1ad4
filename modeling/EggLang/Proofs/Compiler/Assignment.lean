import EggLang.Proofs.Compiler.Reachable
import EggLang.Proofs.Compiler.Registration

/-!
# What a name stands for after an assignment

A `set` records the value in the frame that owns the name, and so does the `define` of a name
that is new in its frame. From then on the name stands for the value. The definition of a function,
and a `define` of a name that the frame owns already, generate code that gives the name the value
but record nothing, so the name stands for what it stood for before.
-/

namespace EggLang

/-- What a word gives that is bound to the value: a primitive, or else the name itself. -/
def Binding.seenAs (name : Bytes) : Binding → Binding
  | primitive p => primitive p
  | code _ => code (.ident name)

namespace Compiler

variable {env target : Nat} {s t u : State} {x name : Bytes} {v b : Binding} {place at_ : Place}
  {value : Expr} {rest : List Expr}

/-- In the frame `env` the name stands for the value, as a word and as the operator of a call. -/
structure StandsFor (name : Bytes) (value : Binding) (env : Nat) (s : State) : Prop where
  word : ∀ place, evaluate (.word place name) env s = .ok (value.seenAs name) s
  call : SpecialForm.ofName? name = none → s.functions.has name = false → ∀ place args,
    evaluate (.apply place name args) env s = applyBinding value place name args env s

theorem StandsFor.of_get? (bound : s.frames.get? env name = some v) : StandsFor name v env s where
  word place := by
    rw [evaluate, evaluateWord_apply, bound]
    cases v <;> rfl
  call plain new place args := by
    have run : evaluateWord place name env s = .ok (v.seenAs name) s := by
      rw [evaluateWord_apply, bound]
      cases v <;> rfl
    rw [evaluate_apply plain, if_neg (by simp [new]), bind_ok run]
    cases v <;> rfl

/-! ## Bindings after an assignment -/

theorem get?_set_own (h : Ready env s) (name : Bytes) (v : Binding) :
    (s.frames.set env name v).get? env name = some v := by
  rw [Frames.get?, Frames.own?_set, if_pos ⟨rfl, rfl, h.made⟩]

/-- A look-up finds the value where a `set` of the name has put it. -/
theorem get?_set_target (h : Ready env s) (found : s.targetOf? env name = some target)
    (v : Binding) : (s.frames.set target name v).get? env name = some v := by
  have owner := targetOf?_owner h.formed found
  have made : target < s.frames.size := Nat.lt_of_le_of_lt (Frames.owner?_le owner) h.made
  have same : (s.frames.set target name v).owner? env name = some target := by
    rw [← owner]
    refine Frames.owner?_congr (fun i _ => Frames.outer?_set ..) fun i _ => ?_
    rw [Bool.eq_iff_iff, Frames.owns_set_iff]
    refine ⟨?_, .inl⟩
    rintro (owned | ⟨rfl, -, -⟩)
    · exact owned
    · exact Frames.owns_of_owner? owner
  rw [Frames.get?_eq_owner, same, Option.bind_some, Frames.own?_set, if_pos ⟨rfl, rfl, made⟩]

/-- Whether the form records the value it gives to a name. -/
def Records (form : SpecialForm) (name : Bytes) (value : Expr) (env : Nat) (s : State) : Prop :=
  form = .set ∨ value.isCallOf SpecialForm.fun.name = false ∧ s.frames.owns env name = false

/-- Wherever a program defines or sets a name and that succeeds, the value is recorded and the
name stands for it in the frame from then on; or else, when the name is defined as a function or
the frame owned it before, the state is the one that the value left. -/
theorem assigned_stands {t : Compiler} {e value : Expr} {form : SpecialForm} {place at_ : Place}
    {x : Bytes} {rest : List Expr} {env : Nat} {s u : State} {b : Binding}
    (visits : Visits e 1 t.start (.apply place form.name (.word at_ x :: value :: rest)) env s)
    (assigns : form = .define ∨ form = .set)
    (done : evaluate (.apply place form.name (.word at_ x :: value :: rest)) env s = .ok b u) :
    ∃ v s' s'', Begins (.apply place form.name (.word at_ x :: value :: rest)) env s [value] env s'
      ∧ evaluate value env s' = .ok v s''
      ∧ (Records form x value env s → StandsFor x v env u)
      ∧ (¬ Records form x value env s → u = s'') := by
  have rooted := visits.rooted t.rooted_start
  rcases assigns with rfl | rfl
  · have named := SpecialForm.define.ofName?_name
    rw [evaluate_form named] at done
    obtain ⟨_, _, _, v, s'', same, word, ⟨kind, run, -, rfl⟩ | ⟨kind, run, ends⟩⟩ :=
      lowerDefine_ok done
    all_goals
      cases same
      cases word
    · refine ⟨v, _, u, .defineFunction named rfl kind, run, fun records => ?_, fun _ => rfl⟩
      rcases records with other | ⟨plain, -⟩
      · cases other
      · rw [kind] at plain
        cases plain
    · refine ⟨v, s, s'', .define named rfl kind, run, fun records => ?_, fun silent => ?_⟩
      · rcases ends with ⟨owned, -, -⟩ | ⟨-, -, rfl⟩
        · rcases records with other | ⟨-, unowned⟩
          · cases other
          · rw [owned] at unowned
            cases unowned
        · exact .of_get? (get?_set_own (rooted.evaluate run).toReady x v)
      · rcases ends with ⟨-, -, rfl⟩ | ⟨unowned, -, -⟩
        · rfl
        · exact absurd (.inr ⟨kind, unowned⟩) silent
  · have named := SpecialForm.set.ofName?_name
    rw [evaluate_form named] at done
    obtain ⟨_, _, _, _, v, s'', target, same, word, run, found, -, rfl⟩ := lowerSet_ok done
    cases same
    cases word
    refine ⟨v, s, s'', .set named (.inr rfl), run, fun _ => ?_,
      fun silent => absurd (.inl rfl) silent⟩
    exact .of_get? (get?_set_target (rooted.evaluate run).toReady found v)

/-- A name that a `define` has bound to a primitive, and that a `set` gives a number. -/
theorem assigned_stands_set :
    let t := Compiler.new (utf8 "  ")
    let here : Place := ⟨0, 1, 1⟩
    let p := utf8 "p"
    let value := Expr.number here (utf8 "1")
    let first := Expr.apply here SpecialForm.define.name [.word here p, .word here (utf8 "array")]
    let second := Expr.apply here SpecialForm.set.name [.word here p, value]
    let e := Expr.apply here SpecialForm.do.name [first, second]
    let s := final (lowerAll [first] 1 t.start)
    let u := final (evaluate second 1 s)
    Visits e 1 t.start second 1 s ∧ (∃ b, evaluate second 1 s = .ok b u)
      ∧ ∃ v s' s'', Begins second 1 s [value] 1 s' ∧ evaluate value 1 s' = .ok v s''
        ∧ StandsFor p v 1 u := by
  intro t here p value first second e s u
  have run : ∃ codes, lowerAll [first] 1 t.start = .ok codes s := ⟨_, by with_unfolding_all rfl⟩
  obtain ⟨codes, run⟩ := run
  have visits : Visits e 1 t.start second 1 s :=
    .part (show Begins e 1 t.start ([first] ++ second :: []) 1 t.start from
      .do (SpecialForm.ofName?_name _)) run .here
  have done : ∃ b, evaluate second 1 s = .ok b u := ⟨_, by with_unfolding_all rfl⟩
  obtain ⟨b, done⟩ := done
  obtain ⟨v, s', s'', begins, valued, stands, -⟩ :=
    assigned_stands visits (.inr rfl) done
  exact ⟨visits, ⟨b, done⟩, v, s', s'', begins, valued, stands (.inl rfl)⟩

/-- A name is bound to a primitive and then given a number by a second `define`: it goes on to be
expanded, as a call and as a word, although a `set` in its place makes the call a failure. Given a
function, it still stands for the primitive as a word. -/
theorem redefinition_not_recorded :
    let t := Compiler.new (utf8 " ")
    let call := t.compile (utf8 "do(define(p,array),define(p,1),p(2))")
    let word := t.compile (utf8 "do(define(p,print),define(p,1),p)")
    let reset := t.compile (utf8 "do(define(p,array),set(p,1),p(2))")
    let function := t.compile (utf8 "do(define(p,array),define(p,fun(1)),array(p))")
    call.1 = .ok (utf8 "var p = array\np = 1\n[2]")
      ∧ word.1 = .ok (utf8 "var p = print\np = 1\nprint")
      ∧ reset.1 = .error (.ofFault (.notApplicable (utf8 "p")) ⟨28, 1, 29⟩)
      ∧ (function.1.toOption.map fun text => (utf8 "[array]").isSuffixOf text) = some true := by
  decide +kernel

end Compiler

end EggLang
