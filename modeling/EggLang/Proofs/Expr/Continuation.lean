import EggLang.Proofs.Expr.Scanning
import EggLang.Proofs.Expr.Stopping
import EggLang.Proofs.Source.Continuation

/-!
# Unfinished programs

A text is incomplete when the reader has taken all of it and still needs more. Then closing the
open calls, on a fresh line that no comment reaches, completes it. When the reader stops before the
end of the text, the byte at which it stopped decides that, and no text added behind it helps,
unless that byte is a quote that still waits for its partner.
-/

namespace EggLang

namespace Reading

open Grammar

variable {full : Bytes} {place place' : Nat → Place}

/-! ## Readers of a text that goes on -/

/-- A reader sees of the source only the places of the lexemes that it takes. -/
theorem advance_congr {r : Reading} {xs : List Lexeme}
    (h : ∀ x ∈ xs, place x.index = place' x.index) : r.advance place xs = r.advance place' xs := by
  induction xs generalizing r with
  | nil => rfl
  | cons x xs ih =>
    rw [advance, advance, h x List.mem_cons_self]
    cases r.step? (place' x.index) x.token with
    | none => rfl
    | some next => exact ih fun y hy => h y (List.mem_cons_of_mem _ hy)

theorem step?_junk (r : Reading) (at_ : Place) : r.step? at_ .junk = none := by
  match r with
  | start => rfl
  | argument _ _ => rfl
  | after _ [] => rfl
  | after _ (_ :: _) => rfl

theorem ne_junk_of_advance {r t : Reading} {xs : List Lexeme} (h : r.advance place xs = some t) :
    ∀ x ∈ xs, x.token ≠ .junk := by
  induction xs generalizing r with
  | nil => simp
  | cons x xs ih =>
    rw [advance] at h
    split at h
    · rename_i next hstep
      rintro y (_ | ⟨_, hy⟩)
      · intro hjunk
        rw [hjunk, step?_junk] at hstep
        cases hstep
      · exact ih h y hy
    · cases h

theorem step?_ne_start {r : Reading} {at_ : Place} {token : Token} :
    r.step? at_ token ≠ some start := by
  intro h
  cases r with
  | start => cases token <;> cases h
  | argument call outer => cases token <;> cases h
  | after e calls => cases calls <;> cases token <;> cases h

theorem nil_of_advance_start {r : Reading} {xs : List Lexeme}
    (h : r.advance place xs = some start) : xs = [] := by
  induction xs generalizing r with
  | nil => rfl
  | cons x xs ih =>
    rw [advance] at h
    split at h
    · rename_i next hstep
      obtain rfl := ih h
      obtain rfl := Option.some.inj h
      exact absurd hstep step?_ne_start
    · cases h

/-- After an expression only parentheses and commas can stand. -/
theorem step?_after {e : Expr} {calls : List OpenCall} {at_ : Place} {b : UInt8} {text : Bytes}
    (h : b ∉ [40, 41, 44]) : (after e calls).step? at_ (Token.next b text).1 = none := by
  obtain ⟨rfl, _⟩ | ⟨rfl, _⟩ | ⟨rfl, _⟩ | ⟨atom, _, _, hn⟩ | hn := next_cases b text
  · exact absurd (by decide) h
  · exact absurd (by decide) h
  · exact absurd (by decide) h
  · rw [hn]
    cases calls <;> cases atom <;> rfl
  · rw [hn]
    exact step?_junk _ _

/-- A lexeme that cannot stand where it does still cannot when text is added to it, unless it is a
quote that waits for its partner. -/
theorem step?_refused_append {t : Reading} {at_ at' : Place} {b : UInt8} {rest : Bytes}
    (clean : Clean (b :: rest)) (h : t.step? at_ (Token.next b rest).1 = none)
    (closed : t.Awaits → ¬ (b = 34 ∧ 34 ∉ rest)) (more : Bytes) :
    t.step? at' (Token.next b (rest ++ more)).1 = none := by
  by_cases hmark : b ∈ [40, 41, 44]
  · -- a mark is the same token whatever follows, and no place goes into its step
    simp only [List.mem_cons, List.not_mem_nil, or_false] at hmark
    match t with
    | start => rcases hmark with rfl | rfl | rfl <;> rfl
    | argument _ _ =>
      rcases hmark with rfl | rfl | rfl
      · rfl
      · cases h
      · rfl
    | after _ [] =>
      rcases hmark with rfl | rfl | rfl
      · cases h
      · rfl
      · rfl
    | after _ (_ :: _) => rcases hmark with rfl | rfl | rfl <;> cases h
  · have hawaits : ¬ t.Awaits := by
      intro hawaits
      obtain ⟨rfl, _⟩ | ⟨rfl, _⟩ | ⟨rfl, _⟩ | ⟨atom, _, _, hn⟩ | hn := next_cases b rest
      · exact hmark (by decide)
      · exact hmark (by decide)
      · exact hmark (by decide)
      · rw [hn, step?_atom hawaits] at h
        cases h
      · exact closed hawaits (next_junk clean (congrArg Prod.fst hn))
    match t with
    | start => exact absurd trivial hawaits
    | argument _ _ => exact absurd trivial hawaits
    | after _ _ => exact step?_after hmark

/-! ## Closing the open calls -/

theorem run_closers (e : Expr) (calls : List OpenCall) (index : Nat) :
    ∃ e', run full place (after e calls)
      (Lexeme.scan index (List.replicate calls.length 41)) = .ok e' := by
  induction calls generalizing e index with
  | nil =>
    rw [List.length_nil, List.replicate_zero, Lexeme.scan]
    exact ⟨e, rfl⟩
  | cons call calls ih =>
    rw [List.length_cons, List.replicate_succ, Lexeme.scan_close,
      run_cons (t := after (close (push call e)) calls) rfl]
    exact ih _ _

/-- The text that completes a program of which a reader has seen all there is. -/
def completion (r : Reading) : List Char :=
  match r with
  | start => ['0']
  | r => List.replicate r.calls.length ')'

theorem ofChars_closers (n : Nat) : Text.ofChars (List.replicate n ')') = List.replicate n 41 := by
  induction n with
  | zero => rfl
  | succ n ih =>
    rw [List.replicate_succ, List.replicate_succ, ← ih]
    rfl

theorem run_completion (r : Reading) (index : Nat) :
    ∃ e, run full place r (Lexeme.scan index (Text.ofChars r.completion)) = .ok e := by
  match r with
  | start =>
    refine ⟨.number (place index) [48], ?_⟩
    rw [show Text.ofChars (completion start) = [48] by decide, Lexeme.scan_cons,
      show Token.next 48 [] = (.digits [48], []) by decide, Lexeme.scan]
    rfl
  | argument call outer =>
    rw [show completion (argument call outer) = List.replicate (outer.length + 1) ')' from rfl,
      ofChars_closers, List.replicate_succ, Lexeme.scan_close,
      run_cons (t := after (close call) outer) rfl]
    exact run_closers _ _ _
  | after e calls =>
    rw [show completion (after e calls) = List.replicate calls.length ')' from rfl,
      ofChars_closers]
    exact run_closers _ _ _

theorem stays_completion (r : Reading) : ∀ c ∈ r.completion, Stripped.Stays c := by
  have hclose : Stripped.Stays ')' := ⟨by decide, by decide⟩
  match r with
  | start =>
    rintro c (_ | ⟨_, hc⟩)
    · exact ⟨by decide, by decide⟩
    · cases hc
  | argument _ _ =>
    intro c hc
    rwa [List.eq_of_mem_replicate hc]
  | after _ _ =>
    intro c hc
    rwa [List.eq_of_mem_replicate hc]

theorem delimited_completion {r : Reading} (h : r ≠ start) :
    Delimited (Text.ofChars r.completion) := by
  have hclosers (n : Nat) : Delimited (Text.ofChars (List.replicate n ')')) := by
    rw [ofChars_closers]
    cases n with
    | zero => simp [Delimited]
    | succ n =>
      rintro b ⟨⟩
      decide
  cases r with
  | start => exact absurd rfl h
  | argument => exact hclosers _
  | after => exact hclosers _

end Reading

open Reading Grammar

theorem clean_strip (cs : List Char) : Clean (strip (Text.ofChars cs)) := by
  obtain ⟨kept, hstrip, hstays⟩ := Stripped.strip_ofChars cs
  rw [hstrip]
  exact clean_ofChars hstays

/-- A reader takes the lexemes of a text as before when text is added to the source. -/
theorem Reading.advance_append {cs : List Char} {t : Reading} {xs : List Lexeme}
    (mem : ∀ x ∈ xs, x ∈ Lexeme.scan 0 (strip (Text.ofChars cs)))
    (h : start.advance (Stripped.ofSource (Text.ofChars cs)).place xs = some t) (more : Bytes) :
    start.advance (Stripped.ofSource (Text.ofChars cs ++ more)).place xs = some t := by
  rw [← h]
  refine advance_congr fun x hx => Stripped.place_append cs more ?_
  have hlt := Lexeme.index_lt (mem x hx)
  omega

/-- A program of which a reader could take every lexeme can be completed. -/
theorem exists_completion {cs : List Char} {t : Reading}
    (h : start.advance (Stripped.ofSource (Text.ofChars cs)).place
      (Lexeme.scan 0 (strip (Text.ofChars cs))) = some t) :
    ∃ ds e, parse (Text.ofChars cs ++ Text.ofChars ds) = .ok e := by
  refine ⟨'#' :: '#' :: '\n' :: t.completion, ?_⟩
  simp only [parse_eq_ok_iff, Stripped.parse]
  have htext := Stripped.strip_fresh_line cs t.stays_completion
  -- only an empty text leaves the reader at its start, where a number comes and no parenthesis
  have hscan : Lexeme.scan 0 (strip (Text.ofChars cs) ++ Text.ofChars t.completion) =
      Lexeme.scan 0 (strip (Text.ofChars cs)) ++
        Lexeme.scan (0 + (strip (Text.ofChars cs)).length) (Text.ofChars t.completion) := by
    by_cases hstart : t = start
    · subst hstart
      have hnil := nil_of_advance_start h
      cases hempty : strip (Text.ofChars cs) with
      | nil => simp [Lexeme.scan]
      | cons b rest =>
        rw [hempty, Lexeme.scan_cons] at hnil
        cases hnil
    · exact scan_append (clean_strip cs) (delimited_completion hstart) (ne_junk_of_advance h)
  rw [strip] at htext
  rw [htext, hscan]
  simp only [run_advance (advance_append (fun x hx => hx) h _)]
  exact run_completion t _

/-- A reader that stops inside a text gets to the same byte in the same state whatever text is
added behind, and has that byte before it. -/
theorem Stripped.stops_inside {cs : List Char} {stop : Stop}
    (h : (ofSource (Text.ofChars cs)).parse = .error stop)
    (inside : stop.index < (strip (Text.ofChars cs)).length) :
    ∃ before b rest t, strip (Text.ofChars cs) = before ++ b :: rest ∧ Clean (b :: rest) ∧
      stop = ⟨before.length, t.fault (b :: rest)⟩ ∧
      t.step? ((ofSource (Text.ofChars cs)).place before.length) (Token.next b rest).1 = none ∧
      ∀ more kept, strip (Text.ofChars cs ++ more) = strip (Text.ofChars cs) ++ kept →
        (ofSource (Text.ofChars cs ++ more)).parse =
          run (strip (Text.ofChars cs ++ more)) (ofSource (Text.ofChars cs ++ more)).place t
            (Lexeme.scan before.length (b :: rest ++ kept)) := by
  obtain ⟨t, _, _, rfl⟩ | ⟨front, x, back, t, hscan, hadvance, hrefused, rfl⟩ := run_error h
  · exact absurd inside (Nat.lt_irrefl _)
  · obtain ⟨before, b, rest, htext, hclean, rfl, hall⟩ := scan_front (clean_strip cs) hscan
    rw [Nat.zero_add] at hrefused hall
    have hdrop : (strip (Text.ofChars cs)).drop before.length = b :: rest := by
      rw [htext, List.drop_left]
    refine ⟨before, b, rest, t, htext, hclean, ?_, hrefused, ?_⟩
    · rw [Nat.zero_add, ← hdrop]
      rfl
    · intro more kept hmore
      have hmem : ∀ y ∈ front, y ∈ Lexeme.scan 0 (strip (Text.ofChars cs)) := by
        intro y hy
        rw [strip, hscan]
        exact List.mem_append_left _ hy
      have hfront := advance_append hmem hadvance more
      show run (strip _) _ start (Lexeme.scan 0 (strip _)) = _
      rw [hmore, hall, run_advance hfront]

/-- The reader stopped at a quote that opens a string and has no partner. -/
def Stop.AtOpenQuote (stop : Stop) (text : Bytes) : Prop :=
  stop.fault.code = "P001" ∧ ∃ rest, text.drop stop.index = 34 :: rest ∧ 34 ∉ rest

/-- Only where an expression has to come a reader finds unexpected text. -/
theorem Reading.fault_code_iff (t : Reading) (rest : Bytes) :
    (t.fault rest).code = "P001" ↔ t.Awaits := by
  match t with
  | start => exact ⟨fun _ => trivial, fun _ => rfl⟩
  | argument _ _ => exact ⟨fun _ => trivial, fun _ => rfl⟩
  | after _ [] => exact ⟨fun h => absurd h (by simp [fault, Fault.code]), False.elim⟩
  | after _ (_ :: _) => exact ⟨fun h => absurd h (by simp [fault, Fault.code]), False.elim⟩

/-- What a reader refused inside a text stays refused, unless it is a quote without its partner. -/
theorem Stripped.refused_append {cs : List Char} {stop : Stop}
    (h : (ofSource (Text.ofChars cs)).parse = .error stop)
    (inside : stop.index < (strip (Text.ofChars cs)).length)
    (closed : ¬ stop.AtOpenQuote (strip (Text.ofChars cs))) (ds : List Char) :
    ∃ stop', (ofSource (Text.ofChars cs ++ Text.ofChars ds)).parse = .error stop' := by
  obtain ⟨before, b, rest, t, htext, hclean, rfl, hrefused, hall⟩ := stops_inside h inside
  obtain ⟨kept, hkept, _⟩ := strip_append cs ds
  have hquote : t.Awaits → ¬ (b = 34 ∧ 34 ∉ rest) := by
    rintro hawaits ⟨rfl, hrest⟩
    refine closed ⟨(t.fault_code_iff _).mpr hawaits, rest, ?_, hrest⟩
    rw [htext, List.drop_left]
  rw [hall _ _ hkept, List.cons_append, Lexeme.scan_cons,
    run_refused (step?_refused_append hclean hrefused hquote _)]
  exact ⟨_, rfl⟩

/-- A program that breaks off in a string can be completed. -/
theorem exists_completion_open_quote {cs : List Char} {stop : Stop}
    (h : (Stripped.ofSource (Text.ofChars cs)).parse = .error stop)
    (open_ : stop.AtOpenQuote (strip (Text.ofChars cs))) :
    ∃ ds e, parse (Text.ofChars cs ++ Text.ofChars ds) = .ok e := by
  obtain ⟨hcode, rest', hdrop, hrest⟩ := open_
  have inside : stop.index < (strip (Text.ofChars cs)).length := by
    have hlength := congrArg List.length hdrop
    rw [List.length_drop, List.length_cons] at hlength
    omega
  obtain ⟨before, b, rest, t, htext, _, rfl, _, hall⟩ := Stripped.stops_inside h inside
  rw [htext, List.drop_left] at hdrop
  obtain ⟨rfl, rfl⟩ := List.cons.inj hdrop
  have hawaits := (t.fault_code_iff _).mp hcode
  -- the string ends at the new quote, and the calls around it are closed behind it
  let closers := (after (.string ((Stripped.ofSource (Text.ofChars cs)).place before.length) rest)
    t.calls).completion
  have hstays : ∀ c ∈ '"' :: closers, Stripped.Stays c := by
    rintro c (_ | ⟨_, hc⟩)
    · exact ⟨by decide, by decide⟩
    · exact stays_completion _ c hc
  refine ⟨'#' :: '#' :: '\n' :: '"' :: closers, ?_⟩
  simp only [parse_eq_ok_iff]
  rw [hall _ _ (Stripped.strip_fresh_line cs hstays)]
  have hstring : (Atom.quoted rest).At (34 :: rest ++ Text.ofChars ('"' :: closers))
      (Text.ofChars closers) := .quoted hrest
  rw [Lexeme.scan_atom hstring, run_cons (step?_atom hawaits _ (.quoted rest))]
  exact run_completion (after _ t.calls) _

/-- A program that was incomplete has no more lexemes and can be completed. -/
theorem exists_completion_of_incomplete {cs : List Char}
    (h : isIncomplete (Text.ofChars cs) = true) :
    (∃ d, parse (Text.ofChars cs) = .error d) ∧
      ∃ ds e, parse (Text.ofChars cs ++ Text.ofChars ds) = .ok e := by
  rw [isIncomplete] at h
  split at h
  · cases h
  · rename_i stop hparse
    have hlength : (strip (Text.ofChars cs)).length ≤ stop.index := of_decide_eq_true h
    refine ⟨⟨_, congrArg (Except.mapError _) hparse⟩, ?_⟩
    -- a lexeme that is refused starts inside the text
    obtain ⟨t, hadvance, _⟩ | ⟨front, x, back, t, hscan, _, _, rfl⟩ := run_error hparse
    · exact exists_completion hadvance
    · have hmem : x ∈ Lexeme.scan 0 (strip (Text.ofChars cs)) := by
        rw [strip, hscan]
        simp
      have hlt := Lexeme.index_lt hmem
      rw [Nat.zero_add] at hlt
      exact absurd hlt (Nat.not_lt.mpr hlength)

/-- A text is incomplete only if some text behind it makes it a program. A text that is refused
without being incomplete stays refused whatever follows, except where a quote still waits for its
partner; there, too, some text behind it makes it a program. -/
theorem incomplete_completable (source : String) :
    (isIncomplete (utf8 source) = true →
      (∃ d, parse (utf8 source) = .error d) ∧
        ∃ more : String, ∃ e, parse (utf8 (source ++ more)) = .ok e) ∧
    ∀ stop, (Stripped.ofSource (utf8 source)).parse = .error stop →
      (isIncomplete (utf8 source) = false → ¬ stop.AtOpenQuote (strip (utf8 source)) →
        ∀ more : String, ∃ d, parse (utf8 (source ++ more)) = .error d) ∧
      (stop.AtOpenQuote (strip (utf8 source)) →
        ∃ more : String, ∃ e, parse (utf8 (source ++ more)) = .ok e) := by
  have hutf8 (more : String) : utf8 (source ++ more) =
      Text.ofChars source.toList ++ Text.ofChars more.toList := by
    rw [utf8, String.toList_append, List.flatMap_append]
    rfl
  have hcompletes (h : ∃ ds e, parse (Text.ofChars source.toList ++ Text.ofChars ds) = .ok e) :
      ∃ more : String, ∃ e, parse (utf8 (source ++ more)) = .ok e := by
    obtain ⟨ds, e, hok⟩ := h
    refine ⟨String.ofList ds, e, ?_⟩
    rw [hutf8, String.toList_ofList]
    exact hok
  refine ⟨fun h => ?_, fun stop hparse => ⟨fun hcomplete closed more => ?_, fun hopen => ?_⟩⟩
  · obtain ⟨hfails, hcompletion⟩ := exists_completion_of_incomplete h
    exact ⟨hfails, hcompletes hcompletion⟩
  · rw [isIncomplete, hparse] at hcomplete
    have inside : stop.index < (strip (utf8 source)).length :=
      Nat.lt_of_not_le (of_decide_eq_false hcomplete)
    obtain ⟨stop', hstop'⟩ := Stripped.refused_append hparse inside closed more.toList
    rw [hutf8]
    exact ⟨_, congrArg (Except.mapError _) hstop'⟩
  · exact hcompletes (exists_completion_open_quote hparse hopen)

set_option maxRecDepth 4000 in
/-- A call that breaks off in a comment, a parenthesis too many, and a string that breaks off. -/
theorem incomplete_completable_comment :
    let source := "f(g(1), # c"
    let refused := "f(1))x"
    let quoted := "f(\"a"
    let extra : Stop := ⟨4, .textAfterProgram (utf8 ")x")⟩
    let quote : Stop := ⟨2, .unexpectedText (utf8 "\"a")⟩
    (isIncomplete (utf8 source) = true ∧ (∃ d, parse (utf8 source) = .error d) ∧
      ∃ more : String, ∃ e, parse (utf8 (source ++ more)) = .ok e) ∧
    ((Stripped.ofSource (utf8 refused)).parse = .error extra ∧
      isIncomplete (utf8 refused) = false ∧ ¬ extra.AtOpenQuote (strip (utf8 refused)) ∧
      ∀ more : String, ∃ d, parse (utf8 (refused ++ more)) = .error d) ∧
    (Stripped.ofSource (utf8 quoted)).parse = .error quote ∧
      quote.AtOpenQuote (strip (utf8 quoted)) ∧
      ∃ more : String, ∃ e, parse (utf8 (quoted ++ more)) = .ok e := by
  intro source refused quoted extra quote
  have incomplete : isIncomplete (utf8 source) = true := by
    dsimp only [source]
    with_unfolding_all rfl
  have stopped : (Stripped.ofSource (utf8 refused)).parse = .error extra := by
    dsimp only [refused]
    with_unfolding_all rfl
  have complete : isIncomplete (utf8 refused) = false := by
    dsimp only [refused]
    with_unfolding_all rfl
  have closed : ¬ extra.AtOpenQuote (strip (utf8 refused)) := fun h => absurd h.1 (by decide)
  have broken : (Stripped.ofSource (utf8 quoted)).parse = .error quote := by
    dsimp only [quoted]
    with_unfolding_all rfl
  have atQuote : quote.AtOpenQuote (strip (utf8 quoted)) := by
    refine ⟨rfl, utf8 "a", ?_, by decide⟩
    dsimp only [quoted]
    with_unfolding_all rfl
  exact ⟨⟨incomplete, (incomplete_completable source).1 incomplete⟩,
    ⟨stopped, complete, closed,
      ((incomplete_completable refused).2 extra stopped).1 complete closed⟩,
    broken, atQuote, ((incomplete_completable quoted).2 quote broken).2 atQuote⟩

end EggLang
