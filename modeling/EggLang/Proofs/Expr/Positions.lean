import Mathlib.Data.List.Chain
import EggLang.Expr.Printer
import EggLang.Proofs.Expr.Stopping
import EggLang.Proofs.Source.Positions

/-!
# Places in programs

Every expression of a program stands at an index of the stripped text: its own text begins there,
and its place is that of the index. The expressions in it stand at later indices, except that a
closure call begins where its operator does. Stripping keeps the order of the bytes, so the places
point to these first bytes in the source and increase in the order in which the tree is written.
-/

namespace EggLang

namespace Expr

mutual

/-- The expression and all expressions in it, in the order in which they are written. -/
def nodes (e : Expr) : List Expr :=
  e :: match e with
    | number .. | string .. | word .. => []
    | apply _ _ args => nodesAll args
    | closure operator args => operator.nodes ++ nodesAll args

/-- The expressions of a list and all expressions in them. -/
def nodesAll : List Expr → List Expr
  | [] => []
  | e :: rest => e.nodes ++ nodesAll rest

end

/-- The first expression starts before the second, or is a closure call of it and starts where it
does. -/
def Precedes (a b : Expr) : Prop :=
  a.place.offset < b.place.offset ∨
    (∃ args, a = .closure b args) ∧ a.place.offset = b.place.offset

theorem head?_nodes (e : Expr) : e.nodes.head? = some e := by cases e <;> rfl

theorem mem_nodes (e : Expr) : e ∈ e.nodes := List.mem_of_head? e.head?_nodes

end Expr

namespace Grammar

variable {full : Bytes} {place : Nat → Place} {lo mid hi : Nat}

/-- Later bytes of the text have later places. -/
def Ascends (full : Bytes) (place : Nat → Place) : Prop :=
  ∀ i j, i < j → j < full.length → (place i).offset < (place j).offset

/-- The expression starts at an index in the given bounds: it has the place of the index and
begins with the byte there. -/
def Sits (full : Bytes) (place : Nat → Place) (lo hi : Nat) (e : Expr) : Prop :=
  ∃ i b, lo ≤ i ∧ i < hi ∧ e.place = place i ∧ full[i]? = some b ∧ e.print.head? = some b

/-- Expressions that start in the given bounds, one after the other. -/
structure Laid (full : Bytes) (place : Nat → Place) (lo hi : Nat) (es : List Expr) : Prop where
  sits : ∀ e ∈ es, Sits full place lo hi e
  chain : es.IsChain Expr.Precedes

theorem Sits.mono {e : Expr} {lo' hi' : Nat} (h : Sits full place lo hi e) (hlo : lo' ≤ lo)
    (hhi : hi ≤ hi') : Sits full place lo' hi' e := by
  obtain ⟨i, b, hle, hlt, rest⟩ := h
  exact ⟨i, b, hlo.trans hle, hlt.trans_le hhi, rest⟩

theorem Sits.lt (later : Ascends full place) {a b : Expr} (ha : Sits full place lo mid a)
    (hb : Sits full place mid hi b) : a.place.offset < b.place.offset := by
  obtain ⟨i, _, _, hi, hplace, _, _⟩ := ha
  obtain ⟨j, _, hj, _, hplace', hbyte, _⟩ := hb
  rw [hplace, hplace']
  exact later i j (hi.trans_le hj) (List.getElem?_eq_some_iff.mp hbyte).1

theorem Sits.closure {e : Expr} (h : Sits full place lo hi e) (args : List Expr) :
    Sits full place lo hi (.closure e args) := by
  obtain ⟨i, b, hlo, hhi, hplace, hbyte, hprint⟩ := h
  exact ⟨i, b, hlo, hhi, hplace, hbyte, by simp [Expr.print, hprint]⟩

theorem Laid.nil : Laid full place lo hi [] := ⟨by simp, .nil⟩

theorem Laid.single {e : Expr} (h : Sits full place lo hi e) : Laid full place lo hi [e] :=
  ⟨by simpa using h, .singleton e⟩

theorem Laid.append (later : Ascends full place) {es fs : List Expr}
    (he : Laid full place lo mid es) (hf : Laid full place mid hi fs) (hlo : lo ≤ mid)
    (hhi : mid ≤ hi) : Laid full place lo hi (es ++ fs) where
  sits e h := by
    rcases List.mem_append.mp h with h | h
    · exact (he.sits e h).mono (Nat.le_refl _) hhi
    · exact (hf.sits e h).mono hlo (Nat.le_refl _)
  chain := he.chain.append hf.chain fun a ha b hb =>
    .inl ((he.sits a (List.mem_of_getLast? ha)).lt later (hf.sits b (List.mem_of_head? hb)))

theorem Laid.mono {es : List Expr} {lo' hi' : Nat} (h : Laid full place lo hi es) (hlo : lo' ≤ lo)
    (hhi : hi ≤ hi') : Laid full place lo' hi' es :=
  ⟨fun e mem => (h.sits e mem).mono hlo hhi, h.chain⟩

theorem Laid.closure (later : Ascends full place) {e : Expr} {args : List Expr}
    (he : Laid full place lo mid e.nodes) (ha : Laid full place mid hi (Expr.nodesAll args))
    (hlo : lo ≤ mid) (hhi : mid ≤ hi) : Laid full place lo hi (Expr.closure e args).nodes := by
  have hall := he.append later ha hlo hhi
  refine ⟨?_, ?_⟩
  · intro n hn
    rcases List.mem_cons.mp hn with rfl | hn
    · exact ((he.sits e e.mem_nodes).mono (Nat.le_refl _) hhi).closure args
    · exact hall.sits n hn
  · refine List.isChain_cons.mpr ⟨?_, hall.chain⟩
    intro b hb
    rw [List.head?_append, e.head?_nodes] at hb
    obtain rfl := Option.some.inj hb
    exact .inr ⟨⟨args, rfl⟩, rfl⟩

/-- What follows the front of a text that stands at an index stands behind it. -/
theorem drop_append {index : Nat} {text rest : Bytes} (stands : full.drop index = text)
    (front : Bytes) (h : text = front ++ rest) : full.drop (index + front.length) = rest := by
  rw [← List.drop_drop, stands, h, List.drop_left]

/-- What begins with an atom that stands at an index sits there. -/
theorem Atom.At.sits {atom : Atom} {index : Nat} {text rest : Bytes} (h : atom.At text rest)
    (stands : full.drop index = text) {e : Expr} (hplace : e.place = place index)
    {after : Bytes} (hprint : e.print = atom.written ++ after) :
    Sits full place index (index + atom.written.length) e := by
  obtain ⟨b, more, hwritten, _⟩ := h.written_cons
  refine ⟨index, b, Nat.le_refl _, by simp [hwritten], hplace, ?_, by simp [hprint, hwritten]⟩
  rw [← List.head?_drop, stands, h.text_eq, hwritten]
  rfl

theorem Atom.nodes_tree (atom : Atom) (at_ : Place) : (atom.tree at_).nodes = [atom.tree at_] := by
  cases atom <;> rfl

theorem Atom.At.laid {atom : Atom} {index : Nat} {text rest : Bytes} (h : atom.At text rest)
    (stands : full.drop index = text) :
    Laid full place index (index + atom.written.length) (atom.tree (place index)).nodes := by
  rw [atom.nodes_tree]
  have hplace : (atom.tree (place index)).place = place index := by cases atom <;> rfl
  have hprint : (atom.tree (place index)).print = atom.written ++ [] := by
    cases atom <;> simp [Atom.tree, Expr.print, Atom.written, show utf8 "\"" = [34] from rfl]
  exact .single (h.sits stands hplace hprint)

mutual

/-- The expressions of a phrase start within it. -/
theorem Phrase.Derives.laid (later : Ascends full place) {p : Phrase} {index : Nat}
    {text rest : Bytes} (h : p.Derives text rest) (stands : full.drop index = text) :
    Laid full place index (index + p.written.length) (p.tree place index).nodes := by
  match p with
  | .mk atom calls =>
    obtain ⟨mid, hatom, hcalls⟩ := Phrase.derives_mk_iff.mp h
    have hmid := drop_append stands atom.written hatom.text_eq
    match atom, calls with
    | .word name, .nil =>
      simpa [Phrase.tree, Calls.closures, Phrase.written, Calls.written, Atom.written] using
        hatom.laid stands
    | .word name, .call args more =>
      obtain ⟨inner, rest', rfl, hargs, hmore⟩ := Calls.derives_call_iff.mp hcalls
      have hinner : full.drop (index + name.length + 1) = inner := drop_append hmid [40] rfl
      have hclosed : full.drop (index + name.length + args.written.length + 2) = rest' := by
        have hend := drop_append hinner (args.written ++ [41]) (by simpa using hargs.text_eq)
        rw [← hend, List.length_append, List.length_singleton]
        congr 1
        omega
      have hword : Sits full place index (index + name.length)
          (.apply (place index) name (args.trees place (index + name.length + 1))) :=
        hatom.sits stands rfl (by simp only [Expr.print, List.append_assoc]; rfl)
      -- the name with the first argument list is one expression, and the lists behind it call it
      have happly : Laid full place index (index + name.length + args.written.length + 2)
          (Expr.apply (place index) name (args.trees place (index + name.length + 1))).nodes :=
        (Laid.single hword).append later
          ((hargs.laid later hinner).mono (Nat.le_succ _) (by omega)) (by omega) (by omega)
      have hall := hmore.laid later hclosed (by omega) happly
      rw [Phrase.tree, Phrase.written, Calls.written]
      rw [show index + (Atom.written (.word name)
        ++ (40 :: args.written ++ 41 :: more.written)).length
        = index + name.length + args.written.length + 2 + more.written.length by
          simp [Atom.written]; omega]
      exact hall
    | .digits ds, calls =>
      simpa [Phrase.tree, Phrase.written, Nat.add_assoc] using
        hcalls.laid later hmid (by simp) (hatom.laid stands)
    | .quoted content, calls =>
      simpa [Phrase.tree, Phrase.written, Nat.add_assoc] using
        hcalls.laid later hmid (by simp) (hatom.laid stands)

/-- Closure calls start where the expression before their argument lists does. -/
theorem Calls.Derives.laid (later : Ascends full place) {cs : Calls} {lo index : Nat}
    {text rest : Bytes} (h : cs.Derives text rest) (stands : full.drop index = text)
    (hlo : lo ≤ index) {e : Expr} (he : Laid full place lo index e.nodes) :
    Laid full place lo (index + cs.written.length) (cs.closures place index e).nodes := by
  match cs with
  | .nil => exact he
  | .call args calls =>
    obtain ⟨inner, rest', rfl, hargs, hcalls⟩ := Calls.derives_call_iff.mp h
    have hinner : full.drop (index + 1) = inner := drop_append stands [40] rfl
    have hclosed : full.drop (index + args.written.length + 2) = rest' := by
      have hend := drop_append hinner (args.written ++ [41]) (by simpa using hargs.text_eq)
      rw [← hend, List.length_append, List.length_singleton]
      congr 1
      omega
    have hcall : Laid full place lo (index + args.written.length + 2)
        (Expr.closure e (args.trees place (index + 1))).nodes :=
      he.closure later ((hargs.laid later hinner).mono (Nat.le_succ _) (by omega)) hlo (by omega)
    have hall := hcalls.laid later hclosed (by omega) hcall
    rw [Calls.closures, Calls.written]
    rw [show index + (40 :: args.written ++ 41 :: calls.written).length
      = index + args.written.length + 2 + calls.written.length by simp; omega]
    exact hall

/-- The expressions of arguments start within them. -/
theorem Args.Derives.laid (later : Ascends full place) {as : Args} {index : Nat}
    {text rest : Bytes} (h : as.Derives text rest) (stands : full.drop index = text) :
    Laid full place index (index + as.written.length) (Expr.nodesAll (as.trees place index)) := by
  match as with
  | .nil => exact .nil
  | .last arg =>
    simp only [Args.trees, Expr.nodesAll, List.append_nil]
    exact (Args.derives_last_iff.mp h).laid later stands
  | .more arg args =>
    obtain ⟨mid, harg, hargs⟩ := Args.derives_more_iff.mp h
    have hmid : full.drop (index + arg.written.length + 1) = mid := by
      have hcomma := drop_append stands (arg.written ++ [44]) (by simpa using harg.text_eq)
      rwa [List.length_append, List.length_singleton, ← Nat.add_assoc] at hcomma
    have hall := (harg.laid later stands).append later
      ((hargs.laid later hmid).mono (Nat.le_succ _) (Nat.le_refl _)) (by omega) (by omega)
    rw [Args.trees, Expr.nodesAll, Args.written]
    rw [show index + (arg.written ++ 44 :: args.written).length
      = index + arg.written.length + 1 + args.written.length by simp; omega]
    exact hall

end

end Grammar

/-- The expressions of a program are laid over its stripped text. -/
theorem laid_of_parse {source : Bytes} {e : Expr} (h : parse source = .ok e) :
    Grammar.Laid (strip source) (Stripped.ofSource source).place 0 (strip source).length
      e.nodes := by
  obtain ⟨p, hp, rfl⟩ := (Stripped.parse_eq_ok_iff _ _).mp ((parse_eq_ok_iff _ _).mp h)
  have hlaid := hp.laid (fun i j => Stripped.place_lt) (List.drop_zero)
  have hwritten : strip source = p.written ++ [] := hp.text_eq
  rwa [Nat.zero_add, ← List.append_nil p.written, ← hwritten] at hlaid

/-- The place of every expression of a program names an offset of the source, where the first byte
of the expression's own text stands, and in the order in which the tree is written the offsets
increase, except from a closure call to its operator. A program that is refused is reported at the
kept byte of the source at which reading stopped, or at the end of the source. -/
theorem parse_positions (source : Bytes) :
    (∀ e, parse source = .ok e →
      (∀ n ∈ e.nodes, n.place.Names source n.place.offset ∧
        ∃ b, source[n.place.offset]? = some b ∧ n.print.head? = some b) ∧
      e.nodes.IsChain Expr.Precedes) ∧
    ∀ d, parse source = .error d → ∃ stop offset, ∃ place : Place,
      (Stripped.ofSource source).parse = .error stop ∧
      (stop.index = (strip source).length ∧ offset = source.length ∨
        ∃ b, (Stripped.ofSource source).kept[stop.index]? = some ⟨b, offset⟩ ∧
          source[offset]? = some b) ∧
      place.Names source offset ∧ d.line = place.line ∧ d.column = place.column := by
  constructor
  · intro e h
    have hlaid := laid_of_parse h
    refine ⟨fun n hn => ?_, hlaid.chain⟩
    obtain ⟨i, b, _, _, hplace, hbyte, hprint⟩ := hlaid.sits n hn
    have hnames := Stripped.place_names source i
    rw [hplace]
    exact ⟨hnames.offset_eq ▸ hnames, b, Stripped.source_at_place hbyte, hprint⟩
  · intro d h
    cases hparse : (Stripped.ofSource source).parse with
    | ok e => rw [(parse_eq_ok_iff source e).mpr hparse] at h; cases h
    | error stop =>
      have hd : parse source = .error
          (.ofFault stop.fault ((Stripped.ofSource source).place stop.index)) := by
        simp only [parse, hparse, Except.mapError]
      obtain rfl := Except.error.inj (h.symm.trans hd)
      refine ⟨stop, _, _, rfl, ?_, Stripped.place_names source stop.index, rfl, rfl⟩
      have hle := Stripped.index_le_of_parse hparse
      rw [Stripped.length_text] at hle
      rw [Stripped.sourceOffset]
      cases hk : (Stripped.ofSource source).kept[stop.index]? with
      | none =>
        have hge := List.getElem?_eq_none_iff.mp hk
        exact .inl ⟨by rw [strip, Stripped.length_text]; omega, rfl⟩
      | some k =>
        exact .inr ⟨k.byte, rfl, Stripped.source_at_kept (List.mem_of_getElem? hk)⟩

set_option maxRecDepth 4000 in
/-- A character of two bytes, a comment, an empty line and a closure call; and text after a
program. -/
theorem parse_positions_lines :
    let source := utf8 "f(\"é\",#c\n\n g(1)(x))"
    let tree := Expr.apply ⟨0, 1, 1⟩ (utf8 "f") [.string ⟨2, 1, 3⟩ (utf8 "é"),
      .closure (.apply ⟨12, 3, 2⟩ (utf8 "g") [.number ⟨14, 3, 4⟩ (utf8 "1")])
        [.word ⟨17, 3, 7⟩ (utf8 "x")]]
    let refused := utf8 "f(é,\n )x"
    let d : Diagnostic := .ofFault (.textAfterProgram (utf8 "x")) ⟨8, 2, 3⟩
    (parse source = .ok tree ∧
      (∀ n ∈ tree.nodes, n.place.Names source n.place.offset ∧
        ∃ b, source[n.place.offset]? = some b ∧ n.print.head? = some b) ∧
      tree.nodes.IsChain Expr.Precedes) ∧
    parse refused = .error d ∧ ∃ stop offset, ∃ place : Place,
      (Stripped.ofSource refused).parse = .error stop ∧
      (stop.index = (strip refused).length ∧ offset = refused.length ∨
        ∃ b, (Stripped.ofSource refused).kept[stop.index]? = some ⟨b, offset⟩ ∧
          refused[offset]? = some b) ∧
      place.Names refused offset ∧ d.line = place.line ∧ d.column = place.column := by
  intro source tree refused d
  have read : parse source = .ok tree := by
    dsimp only [source]
    with_unfolding_all rfl
  have stopped : parse refused = .error d := by
    dsimp only [refused]
    with_unfolding_all rfl
  exact ⟨⟨read, (parse_positions source).1 tree read⟩, stopped,
    (parse_positions refused).2 d stopped⟩

end EggLang
