import EggLang.Proofs.Expr.Derivation

/-!
# The reader reads the grammar

The reader keeps the calls opened so far and has no notion of a derivation. Every derivation
takes it from a state that awaits an expression to the state after that expression. Conversely
each state it reaches has the derivations of all that it has read behind it: one for every
operator and argument of the open calls, and one for the expression read last. Hence the reader
accepts exactly the texts that the grammar derives, and gives the tree of the derivation.
-/

namespace EggLang

open Grammar

/-! ## The lexemes of what the grammar derives -/

theorem Lexeme.scan_cons (index : Nat) (b : UInt8) (text : Bytes) :
    Lexeme.scan index (b :: text) = ⟨index, (Token.next b text).1⟩ ::
      Lexeme.scan (index + (text.length + 1 - (Token.next b text).2.length))
        (Token.next b text).2 := by
  rw [Lexeme.scan]

theorem Lexeme.scan_atom {atom : Atom} {text rest : Bytes} (h : atom.At text rest) (index : Nat) :
    Lexeme.scan index text =
      ⟨index, atom.token⟩ :: Lexeme.scan (index + atom.written.length) rest := by
  have hlen := congrArg List.length h.text_eq
  obtain ⟨b, after, rfl, _⟩ := h.cons
  simp only [List.length_cons, List.length_append] at hlen
  rw [Lexeme.scan_cons, h.next_eq]
  have hw : after.length + 1 - rest.length = atom.written.length := by omega
  rw [hw]

theorem Lexeme.scan_open (index : Nat) (text : Bytes) :
    Lexeme.scan index (40 :: text) = ⟨index, .openParen⟩ :: Lexeme.scan (index + 1) text := by
  rw [Lexeme.scan_cons, show Token.next 40 text = (.openParen, text) from rfl]
  simp

theorem Lexeme.scan_close (index : Nat) (text : Bytes) :
    Lexeme.scan index (41 :: text) = ⟨index, .closeParen⟩ :: Lexeme.scan (index + 1) text := by
  rw [Lexeme.scan_cons, show Token.next 41 text = (.closeParen, text) from rfl]
  simp

theorem Lexeme.scan_comma (index : Nat) (text : Bytes) :
    Lexeme.scan index (44 :: text) = ⟨index, .comma⟩ :: Lexeme.scan (index + 1) text := by
  rw [Lexeme.scan_cons, show Token.next 44 text = (.comma, text) from rfl]
  simp

namespace Reading

/-! ## A derivation is read -/

variable {full : Bytes} {place : Nat → Place}

theorem run_cons {r t : Reading} {x : Lexeme} {rest : List Lexeme}
    (h : r.step? (place x.index) x.token = some t) :
    run full place r (x :: rest) = run full place t rest := by
  rw [run, h]

theorem run_open {e : Expr} {outer : List OpenCall} {index : Nat} {text : Bytes} :
    run full place (after e outer) (Lexeme.scan index (40 :: text)) =
      run full place (argument ⟨e, []⟩ outer) (Lexeme.scan (index + 1) text) := by
  rw [Lexeme.scan_open, run_cons (t := .argument ⟨e, []⟩ outer) rfl]

/-- Whether an expression may come next. -/
def Awaits : Reading → Prop
  | after _ _ => False
  | _ => True

theorem step?_atom {r : Reading} (h : r.Awaits) (at_ : Place) (atom : Atom) :
    r.step? at_ atom.token = some (after (atom.tree at_) r.calls) := by
  cases r with
  | start => cases atom <;> rfl
  | argument call outer => cases atom <;> rfl
  | after e calls => exact h.elim

end Reading

namespace Grammar

open Reading

variable {full : Bytes} {place : Nat → Place}

mutual

/-- Reading a phrase where an expression is awaited gives its tree. -/
theorem Phrase.Derives.run_eq {p : Phrase} {text rest : Bytes} (h : p.Derives text rest)
    {r : Reading} (hr : r.Awaits) (index : Nat) :
    run full place r (Lexeme.scan index text) =
      run full place (after (p.tree place index) r.calls)
        (Lexeme.scan (index + p.written.length) rest) := by
  match p with
  | .mk atom calls =>
    obtain ⟨mid, hatom, hcalls⟩ := Phrase.derives_mk_iff.mp h
    rw [Lexeme.scan_atom hatom, run_cons (step?_atom hr _ atom)]
    match atom, calls with
    | .word name, .nil =>
      obtain rfl := Calls.derives_nil_iff.mp hcalls
      simp only [Phrase.tree, Calls.closures, Phrase.written, Calls.written, List.append_nil]
    | .word name, .call args more =>
      obtain ⟨inner, mid, rfl, hargs, hmore⟩ := Calls.derives_call_iff.mp hcalls
      rw [run_open, hargs.run_eq, List.reverse_nil, List.nil_append,
        show ((Atom.word name).tree (place index)).call _ = .apply (place index) name _ from rfl,
        hmore.run_eq rfl]
      simp only [Phrase.tree, Phrase.written, Calls.written, Atom.written]
      have hinner : index + name.length + 1 + args.written.length + 1 =
          index + name.length + args.written.length + 2 := by omega
      have hend : index + name.length + args.written.length + 2 + more.written.length =
          index + (name ++ (40 :: args.written ++ 41 :: more.written)).length := by simp; omega
      rw [hinner, hend]
    | .digits ds, calls =>
      rw [hcalls.run_eq rfl]
      simp only [Phrase.tree, Phrase.written, List.length_append, Nat.add_assoc]
    | .quoted content, calls =>
      rw [hcalls.run_eq rfl]
      simp only [Phrase.tree, Phrase.written, List.length_append, Nat.add_assoc]

/-- Reading argument lists after anything but a word makes closure calls. -/
theorem Calls.Derives.run_eq {cs : Calls} {text rest : Bytes} (h : cs.Derives text rest)
    {e : Expr} (he : e.word? = none) {outer : List OpenCall} (index : Nat) :
    run full place (after e outer) (Lexeme.scan index text) =
      run full place (after (cs.closures place index e) outer)
        (Lexeme.scan (index + cs.written.length) rest) := by
  match cs with
  | .nil =>
    obtain rfl := Calls.derives_nil_iff.mp h
    rfl
  | .call args calls =>
    obtain ⟨inner, mid, rfl, hargs, hcalls⟩ := Calls.derives_call_iff.mp h
    rw [run_open, hargs.run_eq, List.reverse_nil, List.nil_append, call_eq_closure he,
      hcalls.run_eq rfl]
    simp only [Calls.closures, Calls.written]
    have hinner : index + 1 + args.written.length + 1 = index + args.written.length + 2 := by omega
    have hend : index + args.written.length + 2 + calls.written.length =
        index + (40 :: args.written ++ 41 :: calls.written).length := by simp; omega
    rw [hinner, hend]

/-- Reading arguments up to the closing parenthesis closes the call. -/
theorem Args.Derives.run_eq {as : Args} {text rest : Bytes} (h : as.Derives text (41 :: rest))
    {c : OpenCall} {outer : List OpenCall} (index : Nat) :
    run full place (argument c outer) (Lexeme.scan index text) =
      run full place (after (c.operator.call (c.args.reverse ++ as.trees place index)) outer)
        (Lexeme.scan (index + as.written.length + 1) rest) := by
  match as with
  | .nil =>
    obtain rfl := Args.derives_nil_iff.mp h
    rw [Lexeme.scan_close, run_cons (t := after (close c) outer) rfl]
    simp only [close, Args.trees, List.append_nil, Args.written, List.length_nil, Nat.add_zero]
  | .last arg =>
    rw [(Args.derives_last_iff.mp h).run_eq (r := argument c outer) trivial, Lexeme.scan_close,
      run_cons (t := after (close (push c (arg.tree place index))) outer) rfl]
    simp only [close, push, Args.trees, List.reverse_cons, Args.written]
  | .more arg args =>
    obtain ⟨mid, harg, hargs⟩ := Args.derives_more_iff.mp h
    rw [harg.run_eq (r := argument c outer) trivial, Lexeme.scan_comma,
      run_cons (t := argument (push c (arg.tree place index)) outer) rfl, hargs.run_eq]
    simp only [push, Args.trees, List.reverse_cons, Args.written, List.append_assoc,
      List.cons_append, List.nil_append]
    rw [show index + arg.written.length + 1 + args.written.length + 1 =
      index + (arg.written ++ 44 :: args.written).length + 1 by simp; omega]

end

end Grammar

namespace Reading

/-! ## What was read is derived -/

/-- The open calls lead from the start of the text to the index and the text left there: each
operator and each finished argument has a derivation. -/
inductive Opened (full : Bytes) (place : Nat → Place) : List OpenCall → Nat → Bytes → Prop where
  | start : Opened full place [] 0 full
  | call {calls : List OpenCall} {index : Nat} {text rest : Bytes} {p : Phrase} :
      Opened full place calls index text → p.Derives text (40 :: rest) →
      Opened full place (⟨p.tree place index, []⟩ :: calls) (index + p.written.length + 1) rest
  | argument {c : OpenCall} {calls : List OpenCall} {index : Nat} {text rest : Bytes}
      {p : Phrase} : Opened full place (c :: calls) index text → p.Derives text (44 :: rest) →
      Opened full place (push c (p.tree place index) :: calls) (index + p.written.length + 1) rest

/-- What a reading says about the text read so far, where the text left starts at the index. -/
def Holds (full : Bytes) (place : Nat → Place) : Reading → Nat → Bytes → Prop
  | after e calls, index, text => ∃ start before, ∃ p : Phrase,
      Opened full place calls start before ∧
      p.Derives before text ∧ e = p.tree place start ∧ index = start + p.written.length
  | r, index, text => Opened full place r.calls index text

variable {full : Bytes} {place : Nat → Place}

/-- When the arguments of the innermost call are completed, the call is a phrase. -/
theorem Opened.close {c : OpenCall} {calls : List OpenCall} {index : Nat} {text rest : Bytes}
    {args : Args} (h : Opened full place (c :: calls) index text)
    (ha : args.Derives text (41 :: rest)) :
    Holds full place (after (c.operator.call (c.args.reverse ++ args.trees place index)) calls)
      (index + args.written.length + 1) rest := by
  generalize hall : c :: calls = all at h
  induction h generalizing c args with
  | start => cases hall
  | @call calls' start text rest' p houter hp _ =>
    obtain ⟨rfl, rfl⟩ := List.cons.inj hall
    refine ⟨start, text, p.addCall args, houter, hp.addCall ha, ?_, ?_⟩
    · rw [Phrase.tree_addCall]
      simp
    · rw [Phrase.written_addCall]
      simp only [List.length_append, List.length_cons, List.length_nil]
      omega
  | @argument d calls' start text rest' p _ hp ih =>
    obtain ⟨rfl, rfl⟩ := List.cons.inj hall
    have h := ih (.more hp ha) rfl
    simp only [Args.trees, Args.written] at h
    simp only [push, List.reverse_cons, List.append_assoc, List.cons_append, List.nil_append]
    rw [show start + p.written.length + 1 + args.written.length + 1 =
      start + (p.written ++ 44 :: args.written).length + 1 by simp; omega]
    exact h

theorem Holds.step_open {r t : Reading} {index : Nat} {text : Bytes} {at_ : Place}
    (h : Holds full place r index (40 :: text)) (hs : r.step? at_ .openParen = some t) :
    Holds full place t (index + 1) text := by
  match r with
  | start => cases hs
  | argument _ _ => cases hs
  | after e calls =>
    obtain ⟨first, before, p, hopened, hp, rfl, rfl⟩ := h
    cases hs
    exact hopened.call hp

theorem Holds.step_close {r t : Reading} {index : Nat} {text : Bytes} {at_ : Place}
    (h : Holds full place r index (41 :: text)) (hs : r.step? at_ .closeParen = some t) :
    Holds full place t (index + 1) text := by
  match r with
  | start => cases hs
  | argument c outer =>
    cases hs
    have hc := Opened.close h (.nil : Args.nil.Derives (41 :: text) (41 :: text))
    simpa [Args.trees, Args.written, Reading.close] using hc
  | after e [] => cases hs
  | after e (c :: outer) =>
    obtain ⟨first, before, p, hopened, hp, rfl, rfl⟩ := h
    cases hs
    have hc := hopened.close (.last hp)
    simpa [Args.trees, Args.written, Reading.close, push] using hc

theorem Holds.step_comma {r t : Reading} {index : Nat} {text : Bytes} {at_ : Place}
    (h : Holds full place r index (44 :: text)) (hs : r.step? at_ .comma = some t) :
    Holds full place t (index + 1) text := by
  match r with
  | start => cases hs
  | argument _ _ => cases hs
  | after e [] => cases hs
  | after e (c :: outer) =>
    obtain ⟨first, before, p, hopened, hp, rfl, rfl⟩ := h
    cases hs
    exact hopened.argument hp

theorem Holds.step_atom {r t : Reading} {index : Nat} {text rest : Bytes} {atom : Atom}
    (h : Holds full place r index text) (ha : atom.At text rest)
    (hs : r.step? (place index) atom.token = some t) :
    Holds full place t (index + atom.written.length) rest := by
  have hphrase : (Phrase.mk atom .nil).Derives text rest := .mk ha .nil
  have hopened : r.Awaits ∧ Opened full place r.calls index text := by
    match r with
    | start => exact ⟨trivial, h⟩
    | argument _ _ => exact ⟨trivial, h⟩
    | after e [] => cases atom <;> cases hs
    | after e (_ :: _) => cases atom <;> cases hs
  obtain rfl := Option.some.inj ((step?_atom hopened.1 _ atom).symm.trans hs)
  exact ⟨index, text, .mk atom .nil, hopened.2, hphrase, by
      cases atom <;> rfl, by simp [Phrase.written, Calls.written]⟩

/-- One token keeps what a reading says about the text read so far. -/
theorem Holds.step {r t : Reading} {index : Nat} {b : UInt8} {text : Bytes}
    (h : Holds full place r index (b :: text))
    (hs : r.step? (place index) (Token.next b text).1 = some t) :
    Holds full place t (index + (text.length + 1 - (Token.next b text).2.length))
      (Token.next b text).2 := by
  have hone : text.length + 1 - text.length = 1 := by omega
  obtain ⟨rfl, hn⟩ | ⟨rfl, hn⟩ | ⟨rfl, hn⟩ | ⟨atom, rest, ha, hn⟩ | hn := next_cases b text
  · rw [hn] at hs ⊢
    rw [hone]
    exact h.step_open hs
  · rw [hn] at hs ⊢
    rw [hone]
    exact h.step_close hs
  · rw [hn] at hs ⊢
    rw [hone]
    exact h.step_comma hs
  · rw [hn] at hs ⊢
    have hlen := congrArg List.length ha.text_eq
    simp only [List.length_cons, List.length_append] at hlen
    have hwidth : text.length + 1 - rest.length = atom.written.length := by omega
    rw [hwidth]
    exact h.step_atom ha hs
  · rw [hn] at hs
    match r with
    | start => cases hs
    | argument _ _ => cases hs
    | after e [] => cases hs
    | after e (_ :: _) => cases hs

/-- A run that ends well has read a derivation of the whole text. -/
theorem Holds.run_ok {r : Reading} {index : Nat} {text : Bytes} {e : Expr}
    (h : Holds full place r index text)
    (hrun : run full place r (Lexeme.scan index text) = .ok e) :
    ∃ p : Phrase, p.Derives full [] ∧ e = p.tree place 0 := by
  induction hn : text.length using Nat.strongRecOn generalizing r index text with
  | ind n ih =>
    cases text with
    | nil =>
      match r with
      | start => simp [Lexeme.scan, run] at hrun
      | argument _ _ => simp [Lexeme.scan, run] at hrun
      | after _ (_ :: _) => simp [Lexeme.scan, run] at hrun
      | after e' [] =>
        obtain ⟨first, before, p, hopened, hp, rfl, _⟩ := h
        simp only [Lexeme.scan, run, Except.ok.injEq] at hrun
        subst hrun
        cases hopened
        exact ⟨p, hp, rfl⟩
    | cons b text =>
      rw [Lexeme.scan_cons] at hrun
      cases hs : r.step? (place index) (Token.next b text).1 with
      | none => simp [run, hs] at hrun
      | some t =>
        rw [run_cons hs] at hrun
        have hlt : (Token.next b text).2.length < n := hn ▸ Token.next_length b text
        exact ih _ hlt (h.step hs) hrun rfl

end Reading

/-- A stripped text is read as an expression exactly when it is the tree of a derivation of all
of the text. -/
theorem Stripped.parse_eq_ok_iff (s : Stripped) (e : Expr) :
    s.parse = .ok e ↔ ∃ p : Phrase, p.Derives s.text [] ∧ e = p.tree s.place 0 := by
  constructor
  · intro h
    exact Reading.Holds.run_ok (r := .start) Reading.Opened.start h
  · rintro ⟨p, hp, rfl⟩
    rw [Stripped.parse, hp.run_eq (r := .start) trivial, Lexeme.scan]
    rfl

/-- Only the failure of a program depends on more than its stripped text. -/
theorem parse_eq_ok_iff (source : Bytes) (e : Expr) :
    parse source = .ok e ↔ (Stripped.ofSource source).parse = .ok e := by
  show (Stripped.ofSource source).parse.mapError _ = .ok e ↔ _
  cases (Stripped.ofSource source).parse with
  | error stop => exact ⟨nofun, nofun⟩
  | ok tree =>
    constructor <;>
    · intro h
      exact congrArg Except.ok (Except.ok.inj h)

/-- A source is a program exactly when the grammar derives all of its stripped text. The
derivation is then unique, and the program is its tree. -/
theorem parse_accepts_grammar (source : Bytes) :
    ((∃ e, parse source = .ok e) ↔ ∃ p : Phrase, p.Derives (strip source) []) ∧
    ∀ p : Phrase, p.Derives (strip source) [] →
      parse source = .ok (p.tree (Stripped.ofSource source).place 0) ∧
      ∀ q : Phrase, q.Derives (strip source) [] → q = p := by
  have hread (p : Phrase) (hp : p.Derives (strip source) []) :
      parse source = .ok (p.tree (Stripped.ofSource source).place 0) :=
    (parse_eq_ok_iff source _).mpr ((Stripped.parse_eq_ok_iff _ _).mpr ⟨p, hp, rfl⟩)
  refine ⟨⟨?_, ?_⟩, ?_⟩
  · rintro ⟨e, he⟩
    obtain ⟨p, hp, _⟩ := (Stripped.parse_eq_ok_iff _ _).mp ((parse_eq_ok_iff source e).mp he)
    exact ⟨p, hp⟩
  · rintro ⟨p, hp⟩
    exact ⟨_, hread p hp⟩
  · intro p hp
    exact ⟨hread p hp, fun q hq => (hq.unique hp (by simp) (by simp)).1⟩

end EggLang
