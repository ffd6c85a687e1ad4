import EggLang.Proofs.Expr.Descent
import EggLang.Proofs.Expr.Stopping

/-!
# Reading by descent stays in bounds

The descent goes through the lexemes of the text as the reader does that keeps the open calls: it
stops at the same fault, and where it comes back with an expression, that reader stands behind the
expression. By induction on what is left of the text, reading an expression, argument lists or
arguments ends without a crash and not beyond the end, in a number of steps linear in what is left.
-/

namespace EggLang.Descent

open Reading

variable {source : Bytes} {pos next : Nat}

/-! ## The reader of lexemes at a position -/

/-- What the reader of lexemes gives for the text from a position on. -/
def readFrom (source : Bytes) (r : Reading) (pos : Nat) : Except Stop Expr :=
  Reading.run (strip source) (Stripped.ofSource source).place r
    (Lexeme.scan pos ((strip source).drop pos))

/-- A token is taken from the front, so what is behind it is the end of the text. -/
theorem next_suffix (b : UInt8) (rest : Bytes) : (Token.next b rest).2 <:+ b :: rest := by
  obtain ⟨-, read⟩ | ⟨-, read⟩ | ⟨-, read⟩ | ⟨atom, after, at_, read⟩ | read :=
    Grammar.next_cases b rest
  · exact read ▸ List.suffix_cons b rest
  · exact read ▸ List.suffix_cons b rest
  · exact read ▸ List.suffix_cons b rest
  · exact read ▸ ⟨_, at_.text_eq.symm⟩
  · exact read ▸ List.nil_suffix

/-- The width of the token at the front of a text. -/
def tokenWidth (b : UInt8) (rest : Bytes) : Nat := rest.length + 1 - (Token.next b rest).2.length

theorem tokenWidth_pos (b : UInt8) (rest : Bytes) : 0 < tokenWidth b rest :=
  Nat.sub_pos_of_lt (Token.next_length b rest)

theorem drop_tokenWidth {b : UInt8} {rest : Bytes} (found : (strip source).drop pos = b :: rest) :
    (strip source).drop (pos + tokenWidth b rest) = (Token.next b rest).2 := by
  obtain ⟨front, split⟩ := next_suffix b rest
  have width : tokenWidth b rest = front.length := by
    have lengths := congrArg List.length split
    rw [List.length_append, List.length_cons] at lengths
    rw [tokenWidth]
    omega
  rw [← List.drop_drop, found, width]
  conv => lhs; rw [← split]
  exact List.drop_left

theorem length_of_drop_cons {b : UInt8} {rest : Bytes}
    (found : (strip source).drop pos = b :: rest) :
    (strip source).length = pos + (rest.length + 1) := by
  have lengths := congrArg List.length found
  rw [List.length_drop, List.length_cons] at lengths
  omega

theorem getElem?_of_drop_cons {b : UInt8} {rest : Bytes}
    (found : (strip source).drop pos = b :: rest) : (strip source)[pos]? = some b := by
  rw [← List.head?_drop, found, List.head?_cons]

theorem drop_cons_of_getElem? {b : UInt8} (found : (strip source)[pos]? = some b) :
    (strip source).drop pos = b :: (strip source).drop (pos + 1) := by
  obtain ⟨inside, rfl⟩ := List.getElem?_eq_some_iff.1 found
  exact List.drop_eq_getElem_cons inside

theorem readFrom_token {r t : Reading} {b : UInt8} {rest : Bytes}
    (found : (strip source).drop pos = b :: rest)
    (step : r.step? ((Stripped.ofSource source).place pos) (Token.next b rest).1 = some t) :
    readFrom source r pos = readFrom source t (pos + tokenWidth b rest) := by
  rw [readFrom, readFrom, drop_tokenWidth found, found, Lexeme.scan_cons, run_cons step]
  rfl

theorem readFrom_refused {r : Reading} {b : UInt8} {rest : Bytes}
    (found : (strip source).drop pos = b :: rest)
    (step : r.step? ((Stripped.ofSource source).place pos) (Token.next b rest).1 = none) :
    readFrom source r pos = .error ⟨pos, r.fault ((strip source).drop pos)⟩ := by
  rw [readFrom, found, Lexeme.scan_cons, run_refused step, found]

theorem readFrom_end {r : Reading} (open_ : ¬ r.Finished) (ended : (strip source).length ≤ pos)
    (inside : pos ≤ (strip source).length) :
    readFrom source r pos = .error ⟨pos, r.fault ((strip source).drop pos)⟩ := by
  rw [readFrom, List.drop_eq_nil_of_le ended, Lexeme.scan, run_end open_,
    Nat.le_antisymm inside ended]

/-- A token of one byte moves the reader on by that byte. -/
theorem readFrom_mark {r t : Reading} {b : UInt8} {token : Token}
    (found : (strip source)[pos]? = some b) (mark : ∀ rest, Token.next b rest = (token, rest))
    (step : r.step? ((Stripped.ofSource source).place pos) token = some t) :
    readFrom source r pos = readFrom source t (pos + 1) := by
  have split := drop_cons_of_getElem? found
  rw [readFrom_token split (by rw [mark]; exact step), tokenWidth, mark, Nat.add_sub_cancel_left]

theorem readFrom_open {e : Expr} {outer : List OpenCall} (found : (strip source)[pos]? = some 40) :
    readFrom source (after e outer) pos = readFrom source (argument ⟨e, []⟩ outer) (pos + 1) :=
  readFrom_mark found (fun _ => rfl) rfl

theorem readFrom_comma {e : Expr} {call : OpenCall} {outer : List OpenCall}
    (found : (strip source)[pos]? = some 44) :
    readFrom source (after e (call :: outer)) pos
      = readFrom source (argument (push call e) outer) (pos + 1) :=
  readFrom_mark found (fun _ => rfl) rfl

theorem readFrom_close {call : OpenCall} {outer : List OpenCall}
    (found : (strip source)[pos]? = some 41) :
    readFrom source (argument call outer) pos
      = readFrom source (after (close call) outer) (pos + 1) :=
  readFrom_mark found (fun _ => rfl) rfl

/-- An argument before a closing parenthesis needs no comma. -/
theorem readFrom_last {e : Expr} {call : OpenCall} {outer : List OpenCall}
    (found : (strip source)[pos]? = some 41) :
    readFrom source (after e (call :: outer)) pos
      = readFrom source (argument (push call e) outer) pos := by
  rw [readFrom_close found]
  exact readFrom_mark found (fun _ => rfl) rfl

/-- A reader that awaits an expression takes an atom, and else stops. -/
theorem step?_awaits {r : Reading} {token : Token} (awaits : r.Awaits) (at_ : Place)
    (opens : r = .start ∨ token ≠ .closeParen) :
    r.step? at_ token = (atom? at_ token).map fun e => after e r.calls := by
  match r with
  | start => rfl
  | argument call outer =>
    cases token with
    | closeParen => exact (opens.resolve_left (nofun)).elim rfl
    | _ => rfl
  | after e calls => exact awaits.elim

theorem next_eq_mark {b : UInt8} {rest : Bytes} :
    ((Token.next b rest).1 = .openParen → b = 40) ∧ ((Token.next b rest).1 = .closeParen → b = 41)
      ∧ ((Token.next b rest).1 = .comma → b = 44) := by
  obtain ⟨rfl, read⟩ | ⟨rfl, read⟩ | ⟨rfl, read⟩ | ⟨atom, after, at_, read⟩ | read :=
    Grammar.next_cases b rest
  · exact ⟨fun _ => rfl, by rw [read]; nofun, by rw [read]; nofun⟩
  · exact ⟨by rw [read]; nofun, fun _ => rfl, by rw [read]; nofun⟩
  · exact ⟨by rw [read]; nofun, by rw [read]; nofun, fun _ => rfl⟩
  · rw [read]
    cases atom <;> exact ⟨nofun, nofun, nofun⟩
  · rw [read]
    exact ⟨nofun, nofun, nofun⟩

/-- Behind an expression nothing but a parenthesis or a comma is taken. -/
theorem readFrom_after {e : Expr} {calls : List OpenCall} (inside : pos ≤ (strip source).length)
    (notOpen : (strip source)[pos]? ≠ some 40)
    (stops : calls = [] ∧ pos < (strip source).length ∨
      calls ≠ [] ∧ (strip source)[pos]? ≠ some 44 ∧ (strip source)[pos]? ≠ some 41) :
    readFrom source (after e calls) pos
      = .error ⟨pos, (after e calls).fault ((strip source).drop pos)⟩ := by
  by_cases more : pos < (strip source).length
  · have found := List.getElem?_eq_getElem more
    have split := drop_cons_of_getElem? found
    refine readFrom_refused split ?_
    have marks := @next_eq_mark (strip source)[pos] ((strip source).drop (pos + 1))
    rw [found] at notOpen stops
    cases token : (Token.next (strip source)[pos] ((strip source).drop (pos + 1))).1 with
    | openParen => exact absurd (congrArg some (marks.1 token)) notOpen
    | closeParen =>
      match calls with
      | [] => rfl
      | _ :: _ => simp [marks.2.1 token] at stops
    | comma =>
      match calls with
      | [] => rfl
      | _ :: _ => simp [marks.2.2 token] at stops
    | _ => cases calls <;> rfl
  · refine readFrom_end ?_ (Nat.le_of_not_lt more) inside
    obtain ⟨-, early⟩ | ⟨open_, -⟩ := stops
    · exact absurd early more
    · match calls with
      | [] => exact absurd rfl open_
      | _ :: _ => exact not_false

/-- Behind a whole expression the text has to end. -/
theorem readFrom_done {e : Expr} (inside : pos ≤ (strip source).length)
    (notOpen : (strip source)[pos]? ≠ some 40) :
    readFrom source (after e []) pos = if pos < (strip source).length then
      .error ⟨pos, .textAfterProgram (excerpt ((strip source).drop pos))⟩ else .ok e := by
  split
  · next more => exact readFrom_after inside notOpen (.inl ⟨rfl, more⟩)
  · next ended =>
    rw [readFrom, List.drop_eq_nil_of_le (Nat.le_of_not_lt ended), Lexeme.scan]
    rfl

/-! ## The descent and the reader of lexemes -/

/-- What the outcome of a descent is for the reader of lexemes: it stands behind what was read, or
stops there with the fault that the diagnostic tells. -/
def Tells {α : Type} (source : Bytes) (whole : Except Stop Expr) (onward : α → Reading) :
    Outcome α → Prop
  | (.ok a, next) => whole = readFrom source (onward a) next
  | (.error d, next) => ∃ fault, whole = .error ⟨next, fault⟩ ∧
      d = .ofFault fault ((Stripped.ofSource source).place next)

/-- A descent that is given steps enough ends without a crash, and inside the text; where something
is read it ends at a good position. -/
structure Ends {α : Type} (source : Bytes) (run : Nat → Checked (Outcome α)) (enough : Nat)
    (good : Nat → Prop) (out : Outcome α) : Prop where
  runs : ∀ steps, enough ≤ steps → run steps = .ok out
  inside : out.2 ≤ (strip source).length
  good : ∀ a, out.1 = .ok a → good out.2

/-- Reading argument lists ends at each position with less than `n` bytes left. -/
def CallsEnd (source : Bytes) (n : Nat) : Prop :=
  ∀ e pos, pos ≤ (strip source).length → (strip source).length - pos < n → ∃ out,
    Ends source (calls (Reader.new source) · e pos) (3 * ((strip source).length - pos) + 1)
      (fun next => pos ≤ next ∧ (strip source)[next]? ≠ some 40) out ∧
    ∀ outer, Tells source (readFrom source (after e outer) pos) (after · outer) out

/-- Reading an expression ends at each position with less than `n` bytes left. -/
def ExpressionsEnd (source : Bytes) (n : Nat) : Prop :=
  ∀ pos, pos ≤ (strip source).length → (strip source).length - pos < n → ∃ out,
    Ends source (expression (Reader.new source) · pos) (3 * ((strip source).length - pos) + 2)
      (fun next => pos < next ∧ (strip source)[next]? ≠ some 40) out ∧
    ∀ r, r.Awaits → r = .start ∨ (strip source)[pos]? ≠ some 41 →
      Tells source (readFrom source r pos) (after · r.calls) out

/-- Reading arguments ends at each position with less than `n` bytes left. -/
def ArgumentsEnd (source : Bytes) (n : Nat) : Prop :=
  ∀ args pos, pos ≤ (strip source).length → (strip source).length - pos < n → ∃ out,
    Ends source (arguments (Reader.new source) · args pos) (3 * ((strip source).length - pos) + 3)
      (fun next => pos < next ∧ (strip source)[next - 1]? = some 41) out ∧
    ∀ f outer, Tells source (readFrom source (argument ⟨f, args.reverse⟩ outer) pos)
      (fun all => after (f.call all) outer) out

/-! ## One step of each reader -/

theorem looksAt_true {b : UInt8} (found : (strip source)[pos]? = some b) :
    (Reader.new source).looksAt pos b = .ok true := by
  rw [looksAt_eq]
  exact congrArg _ (beq_iff_eq.2 found)

theorem looksAt_false {b : UInt8} (other : (strip source)[pos]? ≠ some b) :
    (Reader.new source).looksAt pos b = .ok false := by
  rw [looksAt_eq]
  exact congrArg _ (beq_eq_false_iff_ne.2 other)

/-- What one step more gives for each number of steps is had from each number above. -/
theorem enough_succ {β : Type} {run : Nat → β} {out : β} {enough : Nat}
    (h : ∀ steps, enough ≤ steps → run (steps + 1) = out) :
    ∀ steps, enough + 1 ≤ steps → run steps = out
  | steps + 1, more => h steps (Nat.le_of_succ_le_succ more)

section Step

variable {steps : Nat} {e : Expr} {args : List Expr}

theorem calls_done (other : (strip source)[pos]? ≠ some 40) :
    calls (Reader.new source) (steps + 1) e pos = .ok (.ok e, pos) := by
  rw [calls, looksAt_false other]
  rfl

theorem calls_fault {d : Diagnostic} (opens : (strip source)[pos]? = some 40)
    (read : arguments (Reader.new source) steps [] (pos + 1) = .ok (.error d, next)) :
    calls (Reader.new source) (steps + 1) e pos = .ok (.error d, next) := by
  rw [calls, looksAt_true opens, ok_bind, if_pos rfl, read]
  rfl

theorem calls_list (opens : (strip source)[pos]? = some 40)
    (read : arguments (Reader.new source) steps [] (pos + 1) = .ok (.ok args, next)) :
    calls (Reader.new source) (steps + 1) e pos
      = calls (Reader.new source) steps (e.call args) next := by
  rw [calls, looksAt_true opens, ok_bind, if_pos rfl, read]
  rfl

theorem arguments_done (closes : (strip source)[pos]? = some 41) :
    arguments (Reader.new source) (steps + 1) args pos = .ok (.ok args, pos + 1) := by
  rw [arguments, looksAt_true closes]
  rfl

theorem arguments_fault {d : Diagnostic} (other : (strip source)[pos]? ≠ some 41)
    (read : expression (Reader.new source) steps pos = .ok (.error d, next)) :
    arguments (Reader.new source) (steps + 1) args pos = .ok (.error d, next) := by
  rw [arguments, looksAt_false other, ok_bind, if_neg Bool.false_ne_true, read]
  rfl

theorem arguments_item {arg : Expr} (other : (strip source)[pos]? ≠ some 41)
    (read : expression (Reader.new source) steps pos = .ok (.ok arg, next))
    (inside : next ≤ (strip source).length) :
    arguments (Reader.new source) (steps + 1) args pos =
      if (strip source)[next]? = some 44 then
        arguments (Reader.new source) steps (args ++ [arg]) (next + 1)
      else if (strip source)[next]? = some 41 then
        arguments (Reader.new source) steps (args ++ [arg]) next
      else
        .ok (.error (.ofFault .missingSeparator ((Stripped.ofSource source).place next)),
          next) := by
  rw [arguments, looksAt_false other, ok_bind, if_neg Bool.false_ne_true, read, ok_bind]
  dsimp only
  split
  · next comma =>
    rw [looksAt_true comma]
    rfl
  · next noComma =>
    rw [looksAt_false noComma, ok_bind, if_neg Bool.false_ne_true]
    split
    · next last =>
      rw [looksAt_true last]
      rfl
    · next missing =>
      rw [looksAt_false missing, ok_bind, if_neg Bool.false_ne_true, position_eq inside]
      rfl

theorem expression_atom {width : Nat} (inside : pos ≤ (strip source).length)
    (read : atom ((Stripped.ofSource source).place pos) ((strip source).drop pos)
      = .ok (some (e, width))) :
    expression (Reader.new source) (steps + 1) pos
      = calls (Reader.new source) steps e (pos + width) := by
  have rest : slice (Reader.new source).text pos (Reader.new source).text.length
      = .ok ((strip source).drop pos) := slice_rest inside
  rw [expression, rest, ok_bind, position_eq inside, ok_bind, read]
  rfl

theorem expression_none (inside : pos ≤ (strip source).length)
    (read : atom ((Stripped.ofSource source).place pos) ((strip source).drop pos) = .ok none) :
    expression (Reader.new source) (steps + 1) pos
      = .ok (.error (.ofFault (.unexpectedText (excerpt ((strip source).drop pos)))
          ((Stripped.ofSource source).place pos)), pos) := by
  have rest : slice (Reader.new source).text pos (Reader.new source).text.length
      = .ok ((strip source).drop pos) := slice_rest inside
  rw [expression, rest, ok_bind, position_eq inside, ok_bind, read, ok_bind]
  dsimp only
  rw [excerpt_eq inside]
  rfl

end Step

/-! ## Every descent ends -/

variable {n : Nat}

theorem calls_end (lists : ArgumentsEnd source n) (shorter : CallsEnd source n) :
    CallsEnd source (n + 1) := by
  intro e pos inside left
  by_cases opens : (strip source)[pos]? = some 40
  · have more : pos < (strip source).length := (List.getElem?_eq_some_iff.1 opens).1
    obtain ⟨⟨result, next⟩, list, tells⟩ := lists [] (pos + 1) more (by omega)
    cases result with
    | error d =>
      refine ⟨(.error d, next), ⟨enough_succ ?_, list.inside, nofun⟩, ?_⟩
      · intro steps enough
        exact calls_fault opens (list.runs steps (by omega))
      · intro outer
        rw [readFrom_open opens]
        exact tells e outer
    | ok args =>
      have moved : pos + 1 < next := (list.good args rfl).1
      have inside' : next ≤ (strip source).length := list.inside
      obtain ⟨out, onward, tells'⟩ := shorter (e.call args) next inside' (by omega)
      refine ⟨out, ⟨enough_succ ?_, onward.inside, ?_⟩, ?_⟩
      · intro steps enough
        rw [calls_list opens (list.runs steps (by omega))]
        exact onward.runs steps (by omega)
      · intro e' read
        obtain ⟨later, behind⟩ := onward.good e' read
        exact ⟨by omega, behind⟩
      · intro outer
        have reached : readFrom source (argument ⟨e, []⟩ outer) (pos + 1)
            = readFrom source (after (e.call args) outer) next := tells e outer
        rw [readFrom_open opens, reached]
        exact tells' outer
  · exact ⟨(.ok e, pos), ⟨enough_succ fun _ _ => calls_done opens, inside,
      fun _ _ => ⟨Nat.le_refl _, opens⟩⟩, fun outer => rfl⟩

/-- A descent that finds no atom has the fault of a reader that awaits one. -/
theorem expression_stops (inside : pos ≤ (strip source).length)
    (none : atom ((Stripped.ofSource source).place pos) ((strip source).drop pos) = .ok none)
    (refused : ∀ r, r.Awaits → r = .start ∨ (strip source)[pos]? ≠ some 41 →
      readFrom source r pos = .error ⟨pos, r.fault ((strip source).drop pos)⟩) :
    ∃ out, Ends source (expression (Reader.new source) · pos)
        (3 * ((strip source).length - pos) + 2)
        (fun next => pos < next ∧ (strip source)[next]? ≠ some 40) out ∧
      ∀ r, r.Awaits → r = .start ∨ (strip source)[pos]? ≠ some 41 →
        Tells source (readFrom source r pos) (after · r.calls) out := by
  refine ⟨(.error _, pos), ⟨enough_succ fun _ _ => expression_none inside none, inside, nofun⟩, ?_⟩
  intro r awaits opens
  refine ⟨_, refused r awaits opens, ?_⟩
  match r with
  | .start => rfl
  | argument _ _ => rfl
  | after _ _ => exact awaits.elim

theorem expressions_end (behind : CallsEnd source n) : ExpressionsEnd source (n + 1) := by
  intro pos inside left
  cases found : (strip source).drop pos with
  | nil =>
    have ended : (strip source).length ≤ pos := List.drop_eq_nil_iff.1 found
    refine expression_stops inside (found ▸ atom_nil _) fun r awaits _ => ?_
    refine readFrom_end ?_ ended inside
    match r with
    | .start => exact not_false
    | argument _ _ => exact not_false
    | after _ _ => exact awaits.elim
  | cons b rest =>
    have here := getElem?_of_drop_cons found
    have length := length_of_drop_cons found
    have token (r : Reading) (awaits : r.Awaits)
        (opens : r = .start ∨ (strip source)[pos]? ≠ some 41) :
        r.step? ((Stripped.ofSource source).place pos) (Token.next b rest).1
          = (atom? ((Stripped.ofSource source).place pos) (Token.next b rest).1).map
              fun e => after e r.calls :=
      step?_awaits awaits _ (opens.imp_right fun other closes =>
        other (here.trans (congrArg some (next_eq_mark.2.1 closes))))
    have read : atom ((Stripped.ofSource source).place pos) ((strip source).drop pos)
        = .ok ((atom? ((Stripped.ofSource source).place pos) (Token.next b rest).1).map
            fun e => (e, tokenWidth b rest)) := found ▸ atom_eq _ b rest
    cases stands : atom? ((Stripped.ofSource source).place pos) (Token.next b rest).1 with
    | none =>
      rw [stands] at read
      refine expression_stops inside read fun r awaits opens => readFrom_refused found ?_
      rw [token r awaits opens, stands]
      rfl
    | some e =>
      rw [stands] at read
      have width := tokenWidth_pos b rest
      have short : tokenWidth b rest ≤ rest.length + 1 := Nat.sub_le _ _
      obtain ⟨out, onward, tells⟩ := behind e (pos + tokenWidth b rest) (by omega) (by omega)
      refine ⟨out, ⟨enough_succ fun steps enough => ?_, onward.inside, ?_⟩, ?_⟩
      · rw [expression_atom inside read]
        exact onward.runs steps (by omega)
      · intro e' done
        obtain ⟨later, next⟩ := onward.good e' done
        exact ⟨by omega, next⟩
      · intro r awaits opens
        rw [readFrom_token found ((token r awaits opens).trans (by rw [stands]; rfl))]
        exact tells r.calls

theorem arguments_end (items : ExpressionsEnd source (n + 1)) (shorter : ArgumentsEnd source n) :
    ArgumentsEnd source (n + 1) := by
  intro args pos inside left
  by_cases closes : (strip source)[pos]? = some 41
  · have more : pos < (strip source).length := (List.getElem?_eq_some_iff.1 closes).1
    refine ⟨(.ok args, pos + 1), ⟨enough_succ fun _ _ => arguments_done closes, more,
      fun _ _ => ⟨Nat.lt_succ_self _, closes⟩⟩, fun f outer => ?_⟩
    rw [readFrom_close closes, close, List.reverse_reverse]
    rfl
  obtain ⟨⟨result, next⟩, item, tells⟩ := items pos inside left
  cases result with
  | error d =>
    refine ⟨(.error d, next), ⟨enough_succ fun steps enough => ?_, item.inside, nofun⟩,
      fun f outer => tells (argument ⟨f, args.reverse⟩ outer) trivial (.inr closes)⟩
    exact arguments_fault closes (item.runs steps (by omega))
  | ok arg =>
    obtain ⟨moved, notOpen⟩ : pos < next ∧ (strip source)[next]? ≠ some 40 := item.good arg rfl
    have inside' : next ≤ (strip source).length := item.inside
    have step (steps : Nat) (enough : 3 * ((strip source).length - pos) + 2 ≤ steps) :=
      @arguments_item _ _ _ _ args _ closes (item.runs steps enough) inside'
    have reached (f : Expr) (outer : List OpenCall) :
        readFrom source (argument ⟨f, args.reverse⟩ outer) pos
          = readFrom source (after arg (⟨f, args.reverse⟩ :: outer)) next :=
      tells (argument ⟨f, args.reverse⟩ outer) trivial (.inr closes)
    have pushed (f : Expr) : push ⟨f, args.reverse⟩ arg = ⟨f, (args ++ [arg]).reverse⟩ := by
      rw [push, List.reverse_append]
      rfl
    by_cases comma : (strip source)[next]? = some 44
    · have more : next < (strip source).length := (List.getElem?_eq_some_iff.1 comma).1
      obtain ⟨out, onward, tells'⟩ := shorter (args ++ [arg]) (next + 1) more (by omega)
      refine ⟨out, ⟨enough_succ fun steps enough => ?_, onward.inside, ?_⟩, fun f outer => ?_⟩
      · rw [step steps enough, if_pos comma]
        exact onward.runs steps (by omega)
      · intro all done
        obtain ⟨later, closing⟩ := onward.good all done
        exact ⟨by omega, closing⟩
      · rw [reached, readFrom_comma comma, pushed]
        exact tells' f outer
    by_cases last : (strip source)[next]? = some 41
    · obtain ⟨out, onward, tells'⟩ := shorter (args ++ [arg]) next inside' (by omega)
      refine ⟨out, ⟨enough_succ fun steps enough => ?_, onward.inside, ?_⟩, fun f outer => ?_⟩
      · rw [step steps enough, if_neg comma, if_pos last]
        exact onward.runs steps (by omega)
      · intro all done
        obtain ⟨later, closing⟩ := onward.good all done
        exact ⟨by omega, closing⟩
      · rw [reached, readFrom_last last, pushed]
        exact tells' f outer
    · have missing (steps : Nat) (enough : 3 * ((strip source).length - pos) + 2 ≤ steps) :=
        (step steps enough).trans ((if_neg comma).trans (if_neg last))
      exact ⟨(.error _, next), ⟨enough_succ missing, inside', nofun⟩, fun f outer =>
        ⟨_, (reached f outer).trans
          (readFrom_after inside' notOpen (.inr ⟨List.cons_ne_nil _ _, comma, last⟩)), rfl⟩⟩

/-- The three readers end at every position: each goes on only with less left of the text. -/
theorem all_end (source : Bytes) (n : Nat) :
    CallsEnd source n ∧ ExpressionsEnd source n ∧ ArgumentsEnd source n := by
  induction n with
  | zero =>
    exact ⟨fun _ _ _ left => absurd left (Nat.not_lt_zero _),
      fun _ _ left => absurd left (Nat.not_lt_zero _),
      fun _ _ _ left => absurd left (Nat.not_lt_zero _)⟩
  | succ n ih =>
    obtain ⟨calls, -, lists⟩ := ih
    have items := expressions_end calls
    exact ⟨calls_end lists calls, items, arguments_end items lists⟩

/-- An expression is read from the start of a text. -/
theorem expression_start (source : Bytes) : ∃ out,
    Ends source (expression (Reader.new source) · 0) (3 * (strip source).length + 2)
      (fun next => 0 < next ∧ (strip source)[next]? ≠ some 40) out ∧
    Tells source (Stripped.ofSource source).parse (after · []) out := by
  obtain ⟨-, items, -⟩ := all_end source ((strip source).length + 1)
  obtain ⟨out, ends, tells⟩ := items 0 (Nat.zero_le _) (Nat.lt_succ_self _)
  exact ⟨out, ends, tells .start trivial (.inl rfl)⟩

/-- What the descent reads of a whole text is what the reader of lexemes reads of it. -/
theorem parse_eq (source : Bytes) {steps : Nat} (enough : 3 * (strip source).length + 2 ≤ steps) :
    parse (Reader.new source) steps = .ok (EggLang.parse source) := by
  obtain ⟨⟨result, next⟩, ends, tells⟩ := expression_start source
  have runs : expression (Reader.new source) steps 0 = .ok (result, next) := ends.runs steps enough
  have inside : next ≤ (strip source).length := ends.inside
  rw [parse, runs, ok_bind, EggLang.parse]
  cases result with
  | error d =>
    obtain ⟨fault, stop, rfl⟩ := tells
    rw [stop]
    rfl
  | ok e =>
    have whole : (Stripped.ofSource source).parse = _ :=
      Eq.trans tells (readFrom_done inside (ends.good e rfl).2)
    rw [whole]
    dsimp only
    by_cases more : next < (strip source).length
    · have longer : next < (Reader.new source).text.length := more
      rw [if_pos more, if_pos longer, position_eq inside, ok_bind, excerpt_eq inside]
      rfl
    · have ended : ¬ next < (Reader.new source).text.length := more
      rw [if_neg more, if_neg ended]
      rfl

theorem isIncomplete_eq (source : Bytes) {steps : Nat}
    (enough : 3 * (strip source).length + 2 ≤ steps) :
    isIncomplete (Reader.new source) steps = .ok (EggLang.isIncomplete source) := by
  obtain ⟨⟨result, next⟩, ends, tells⟩ := expression_start source
  have runs : expression (Reader.new source) steps 0 = .ok (result, next) := ends.runs steps enough
  have inside : next ≤ (strip source).length := ends.inside
  rw [isIncomplete, runs, ok_bind, EggLang.isIncomplete]
  cases result with
  | error d =>
    obtain ⟨fault, stop, -⟩ := tells
    rw [stop]
    rfl
  | ok e =>
    have whole : (Stripped.ofSource source).parse = _ :=
      Eq.trans tells (readFrom_done inside (ends.good e rfl).2)
    rw [whole]
    by_cases more : next < (strip source).length
    · -- text behind the expression is a fault, but not at the end
      rw [if_pos more]
      exact congrArg Except.ok (decide_eq_false (Nat.not_le.2 more)).symm
    · rw [if_neg more]
      rfl

theorem Ends.imp {α : Type} {run : Nat → Checked (Outcome α)} {enough : Nat}
    {good good' : Nat → Prop} {out : Outcome α} (ends : Ends source run enough good out)
    (weaker : ∀ next, good next → good' next) : Ends source run enough good' out where
  runs := ends.runs
  inside := ends.inside
  good a read := weaker _ (ends.good a read)

/-- Reading from a position ends inside the text, and nothing is looked up outside. -/
structure InBounds (source : Bytes) (pos : Nat) : Prop where
  /-- An expression ends behind its start. -/
  expression : ∃ out, Ends source (expression (Reader.new source) · pos)
    (3 * ((strip source).length - pos) + 2) (pos < ·) out
  /-- Argument lists end where they start or behind. -/
  calls : ∀ e, ∃ out, Ends source (calls (Reader.new source) · e pos)
    (3 * ((strip source).length - pos) + 1) (pos ≤ ·) out
  /-- The arguments of a list end, and they are read only up to a closing parenthesis. -/
  arguments : ∀ args, ∃ out, Ends source (arguments (Reader.new source) · args pos)
    (3 * ((strip source).length - pos) + 3)
    (fun next => pos < next ∧ (strip source)[next - 1]? = some 41) out
  /-- The program of the source is what the descent reads from the start. -/
  parse : ∀ steps, 3 * (strip source).length + 2 ≤ steps →
    parse (Reader.new source) steps = .ok (EggLang.parse source)
  isIncomplete : ∀ steps, 3 * (strip source).length + 2 ≤ steps →
    isIncomplete (Reader.new source) steps = .ok (EggLang.isIncomplete source)

/-- At every position of every text the descent stays in bounds and goes on. -/
theorem stays_in_bounds (inside : pos ≤ (strip source).length) : InBounds source pos := by
  obtain ⟨lists, items, args⟩ := all_end source ((strip source).length - pos + 1)
  have left := Nat.lt_succ_self ((strip source).length - pos)
  constructor
  case expression =>
    obtain ⟨out, ends, -⟩ := items pos inside left
    exact ⟨out, ends.imp fun _ => And.left⟩
  case calls =>
    intro e
    obtain ⟨out, ends, -⟩ := lists e pos inside left
    exact ⟨out, ends.imp fun _ => And.left⟩
  case arguments =>
    intro read
    obtain ⟨out, ends, -⟩ := args read pos inside left
    exact ⟨out, ends⟩
  case parse => exact fun _ => parse_eq source
  case isIncomplete => exact fun _ => isIncomplete_eq source

/-- A list that is not closed, behind the comma. -/
theorem stays_in_bounds_unclosed :
    4 ≤ (strip (utf8 "f(1,")).length ∧ InBounds (utf8 "f(1,") 4 :=
  have inside : 4 ≤ (strip (utf8 "f(1,")).length := by decide +kernel
  ⟨inside, stays_in_bounds inside⟩

end EggLang.Descent
