import EggLang.Proofs.Expr.Token

/-!
# Derivations: their text, their tree, their uniqueness

`written` is the text a phrase derives, and `tree` is the expression it stands for when it starts
at an index of a text: the first argument list after a word makes an application, every other one
a closure call around what precedes it. A derivation that no further argument list follows is
determined by the text.
-/

namespace EggLang.Grammar

mutual

/-- The bytes of a phrase. -/
def Phrase.written : Phrase → Bytes
  | .mk atom calls => atom.written ++ calls.written

def Calls.written : Calls → Bytes
  | .nil => []
  | .call args calls => 40 :: args.written ++ 41 :: calls.written

def Args.written : Args → Bytes
  | .nil => []
  | .last arg => arg.written
  | .more arg args => arg.written ++ 44 :: args.written

end

/-- The expression of an atom at a place. -/
def Atom.tree (place : Place) : Atom → Expr
  | .quoted content => .string place content
  | .digits ds => .number place ds
  | .word name => .word place name

mutual

/-- The expression of a phrase that starts at an index; `place` gives the place of an index. The
first argument list after a word makes an application. -/
def Phrase.tree (place : Nat → Place) (index : Nat) : Phrase → Expr
  | .mk (.word name) (.call args calls) =>
    calls.closures place (index + name.length + args.written.length + 2)
      (.apply (place index) name (args.trees place (index + name.length + 1)))
  | .mk atom calls =>
    calls.closures place (index + atom.written.length) (atom.tree (place index))

/-- The closure calls of an expression with the argument lists that start at an index. -/
def Calls.closures (place : Nat → Place) (index : Nat) (operator : Expr) : Calls → Expr
  | .nil => operator
  | .call args calls =>
    calls.closures place (index + args.written.length + 2)
      (.closure operator (args.trees place (index + 1)))

/-- The expressions of the arguments that start at an index. -/
def Args.trees (place : Nat → Place) (index : Nat) : Args → List Expr
  | .nil => []
  | .last arg => [arg.tree place index]
  | .more arg args =>
    arg.tree place index :: args.trees place (index + arg.written.length + 1)

end

mutual

/-- What a phrase derives is its bytes. -/
theorem Phrase.Derives.text_eq {text rest : Bytes} {p : Phrase} (h : p.Derives text rest) :
    text = p.written ++ rest := by
  match p with
  | .mk atom calls =>
    obtain ⟨mid, hatom, hcalls⟩ := Phrase.derives_mk_iff.mp h
    rw [Phrase.written, List.append_assoc, ← hcalls.text_eq, ← hatom.text_eq]

theorem Calls.Derives.text_eq {text rest : Bytes} {cs : Calls} (h : cs.Derives text rest) :
    text = cs.written ++ rest := by
  match cs with
  | .nil => exact Calls.derives_nil_iff.mp h
  | .call args calls =>
    obtain ⟨inner, mid, rfl, hargs, hcalls⟩ := Calls.derives_call_iff.mp h
    rw [hargs.text_eq, hcalls.text_eq]
    simp [Calls.written]

theorem Args.Derives.text_eq {text rest : Bytes} {as : Args} (h : as.Derives text rest) :
    text = as.written ++ rest := by
  match as with
  | .nil => exact Args.derives_nil_iff.mp h
  | .last arg => exact (Args.derives_last_iff.mp h).text_eq
  | .more arg args =>
    obtain ⟨mid, harg, hargs⟩ := Args.derives_more_iff.mp h
    rw [harg.text_eq, hargs.text_eq]
    simp [Args.written]

end

theorem Phrase.Derives.cons {p : Phrase} {text rest : Bytes} (h : p.Derives text rest) :
    ∃ b after, text = b :: after ∧ b ∉ [40, 41, 44] := by
  cases h with
  | mk hatom _ => exact hatom.cons

/-- No phrase starts at a closing parenthesis. -/
theorem Phrase.Derives.ne_close {p : Phrase} {text rest after : Bytes}
    (h : p.Derives text rest) : text ≠ 41 :: after := by
  rintro rfl
  obtain ⟨b, tail, heq, hb⟩ := h.cons
  rw [← (List.cons.inj heq).1] at hb
  exact hb (by decide)

mutual

/-- A text has one phrase at its front that no argument list follows. -/
theorem Phrase.Derives.unique {text rest after : Bytes} {p q : Phrase}
    (hp : p.Derives text rest) (hq : q.Derives text after) (hrest : rest.head? ≠ some 40)
    (hafter : after.head? ≠ some 40) : p = q ∧ rest = after := by
  match p, q with
  | .mk _ _, .mk _ _ =>
    obtain ⟨mid, hatom, hcalls⟩ := Phrase.derives_mk_iff.mp hp
    obtain ⟨mid', hatom', hcalls'⟩ := Phrase.derives_mk_iff.mp hq
    obtain ⟨rfl, rfl⟩ := hatom.unique hatom'
    obtain ⟨rfl, rfl⟩ := hcalls.unique hcalls' hrest hafter
    exact ⟨rfl, rfl⟩

theorem Calls.Derives.unique {text rest after : Bytes} {cs ds : Calls}
    (hc : cs.Derives text rest) (hd : ds.Derives text after) (hrest : rest.head? ≠ some 40)
    (hafter : after.head? ≠ some 40) : cs = ds ∧ rest = after := by
  match cs, ds with
  | .nil, .nil =>
    exact ⟨rfl, (Calls.derives_nil_iff.mp hc).symm.trans (Calls.derives_nil_iff.mp hd)⟩
  | .nil, .call _ _ =>
    obtain rfl := Calls.derives_nil_iff.mp hc
    obtain ⟨_, _, rfl, _⟩ := Calls.derives_call_iff.mp hd
    exact absurd rfl hrest
  | .call _ _, .nil =>
    obtain rfl := Calls.derives_nil_iff.mp hd
    obtain ⟨_, _, rfl, _⟩ := Calls.derives_call_iff.mp hc
    exact absurd rfl hafter
  | .call _ _, .call _ _ =>
    obtain ⟨inner, mid, rfl, hargs, hcalls⟩ := Calls.derives_call_iff.mp hc
    obtain ⟨inner', mid', heq, hargs', hcalls'⟩ := Calls.derives_call_iff.mp hd
    obtain ⟨_, rfl⟩ := List.cons.inj heq
    obtain ⟨rfl, rfl⟩ := hargs.unique hargs'
    obtain ⟨rfl, rfl⟩ := hcalls.unique hcalls' hrest hafter
    exact ⟨rfl, rfl⟩

/-- A text has one argument list at its front that ends at a closing parenthesis. -/
theorem Args.Derives.unique {text rest after : Bytes} {as bs : Args}
    (ha : as.Derives text (41 :: rest)) (hb : bs.Derives text (41 :: after)) :
    as = bs ∧ rest = after := by
  match as, bs with
  | .nil, .nil =>
    have heq := (Args.derives_nil_iff.mp ha).symm.trans (Args.derives_nil_iff.mp hb)
    exact ⟨rfl, (List.cons.inj heq).2⟩
  | .nil, .last _ =>
    exact absurd (Args.derives_nil_iff.mp ha) (Args.derives_last_iff.mp hb).ne_close
  | .nil, .more _ _ =>
    obtain ⟨_, harg, _⟩ := Args.derives_more_iff.mp hb
    exact absurd (Args.derives_nil_iff.mp ha) harg.ne_close
  | .last _, .nil =>
    exact absurd (Args.derives_nil_iff.mp hb) (Args.derives_last_iff.mp ha).ne_close
  | .more _ _, .nil =>
    obtain ⟨_, harg, _⟩ := Args.derives_more_iff.mp ha
    exact absurd (Args.derives_nil_iff.mp hb) harg.ne_close
  | .last _, .last _ =>
    obtain ⟨rfl, heq⟩ := (Args.derives_last_iff.mp ha).unique (Args.derives_last_iff.mp hb)
      (by simp) (by simp)
    exact ⟨rfl, (List.cons.inj heq).2⟩
  | .last _, .more _ _ =>
    obtain ⟨mid, harg, _⟩ := Args.derives_more_iff.mp hb
    obtain ⟨_, heq⟩ := (Args.derives_last_iff.mp ha).unique harg (by simp) (by simp)
    exact absurd (List.cons.inj heq).1 (by decide)
  | .more _ _, .last _ =>
    obtain ⟨mid, harg, _⟩ := Args.derives_more_iff.mp ha
    obtain ⟨_, heq⟩ := harg.unique (Args.derives_last_iff.mp hb) (by simp) (by simp)
    exact absurd (List.cons.inj heq).1 (by decide)
  | .more _ _, .more _ _ =>
    obtain ⟨mid, harg, hargs⟩ := Args.derives_more_iff.mp ha
    obtain ⟨mid', harg', hargs'⟩ := Args.derives_more_iff.mp hb
    obtain ⟨rfl, heq⟩ := harg.unique harg' (by simp) (by simp)
    obtain ⟨_, rfl⟩ := List.cons.inj heq
    obtain ⟨rfl, rfl⟩ := hargs.unique hargs'
    exact ⟨rfl, rfl⟩

end

/-- Argument lists with one more after them. -/
def Calls.snoc : Calls → Args → Calls
  | .nil, args => .call args .nil
  | .call first calls, args => .call first (calls.snoc args)

/-- A phrase with one more argument list after it. -/
def Phrase.addCall : Phrase → Args → Phrase
  | .mk atom calls, args => .mk atom (calls.snoc args)

theorem Calls.written_snoc (cs : Calls) (args : Args) :
    (cs.snoc args).written = cs.written ++ 40 :: args.written ++ [41] := by
  match cs with
  | .nil => simp [Calls.snoc, Calls.written]
  | .call first calls => simp [Calls.snoc, Calls.written, Calls.written_snoc calls args]

theorem Calls.closures_snoc (place : Nat → Place) (cs : Calls) (args : Args) (index : Nat)
    (e : Expr) : (cs.snoc args).closures place index e =
      .closure (cs.closures place index e) (args.trees place (index + cs.written.length + 1)) := by
  match cs with
  | .nil => simp [Calls.snoc, Calls.closures, Calls.written]
  | .call first calls =>
    simp only [Calls.snoc, Calls.closures, Calls.written]
    rw [Calls.closures_snoc place calls args]
    rw [show index + first.written.length + 2 + calls.written.length + 1 =
      index + (40 :: first.written ++ 41 :: calls.written).length + 1 by simp; omega]

theorem Calls.Derives.snoc {cs : Calls} {args : Args} {text inner rest : Bytes}
    (hc : cs.Derives text (40 :: inner)) (ha : args.Derives inner (41 :: rest)) :
    (cs.snoc args).Derives text rest := by
  match cs with
  | .nil =>
    obtain rfl := Calls.derives_nil_iff.mp hc
    exact .call ha .nil
  | .call first calls =>
    obtain ⟨_, mid, rfl, hfirst, hcalls⟩ := Calls.derives_call_iff.mp hc
    exact .call hfirst (hcalls.snoc ha)

theorem Phrase.written_addCall (p : Phrase) (args : Args) :
    (p.addCall args).written = p.written ++ 40 :: args.written ++ [41] := by
  cases p
  simp [Phrase.addCall, Phrase.written, Calls.written_snoc]

/-- A call of anything but a word is a closure call. -/
theorem call_eq_closure {e : Expr} (h : e.word? = none) (args : List Expr) :
    e.call args = .closure e args := by
  cases e <;> first | rfl | cases h

theorem Calls.word?_closures (place : Nat → Place) (cs : Calls) (index : Nat) {e : Expr}
    (h : e.word? = none) : (cs.closures place index e).word? = none := by
  match cs with
  | .nil => exact h
  | .call args calls => exact calls.word?_closures place _ rfl

theorem Phrase.tree_addCall (place : Nat → Place) (p : Phrase) (args : Args) (index : Nat) :
    (p.addCall args).tree place index =
      (p.tree place index).call (args.trees place (index + p.written.length + 1)) := by
  match p with
  | .mk (.word name) .nil =>
    simp [Phrase.addCall, Calls.snoc, Phrase.tree, Calls.closures, Atom.tree, Phrase.written,
      Atom.written, Calls.written, Expr.call]
  | .mk (.word name) (.call first calls) =>
    simp only [Phrase.addCall, Calls.snoc, Phrase.tree, Calls.closures_snoc]
    rw [call_eq_closure (Calls.word?_closures place calls _ rfl)]
    simp only [Phrase.written, Atom.written, Calls.written]
    rw [show index + name.length + first.written.length + 2 + calls.written.length + 1 =
      index + (name ++ (40 :: first.written ++ 41 :: calls.written)).length + 1 by simp; omega]
  | .mk (.digits ds) calls =>
    simp only [Phrase.addCall, Phrase.tree, Calls.closures_snoc]
    rw [call_eq_closure (Calls.word?_closures place calls _ rfl)]
    simp only [Phrase.written, List.length_append, Nat.add_assoc]
  | .mk (.quoted content) calls =>
    simp only [Phrase.addCall, Phrase.tree, Calls.closures_snoc]
    rw [call_eq_closure (Calls.word?_closures place calls _ rfl)]
    simp only [Phrase.written, List.length_append, Nat.add_assoc]

theorem Phrase.Derives.addCall {p : Phrase} {args : Args} {text inner rest : Bytes}
    (hp : p.Derives text (40 :: inner)) (ha : args.Derives inner (41 :: rest)) :
    (p.addCall args).Derives text rest := by
  cases hp with
  | mk hatom hcalls => exact .mk hatom (hcalls.snoc ha)

end EggLang.Grammar
