import EggLang.Proofs.Script.Mirror
import EggLang.Proofs.Script.Outcome

/-!
# Operands in two scripts

The operands of generated code: names, numbers, array literals and functions, with calls and
accesses after them and a minus sign before them.
-/

namespace EggLang.Script.Parser

open Script.Place (Facing Both Lost Solid ahead)

variable {ok ok' : List Char → Prop} {text more : List Char}

/-! ## Values and what follows them -/

/-- A reading of a value gives something; in both scripts it goes on behind the same text, with
values that are alike. -/
def Resumes (ok : List Char → Prop) (c₁ c₂ : Surround) (f g : Nat → Parse Expr)
    (text : List Char) : Prop :=
  ∀ ⦃s₁ s₂ o₁ o₂ p₁ p₂ fuel z⦄, ok s₁ → ok s₂ → Both o₁ o₂ (text ++ s₁) (text ++ s₂) p₁ p₂ →
    f fuel p₁ = some z → Lost z.2 ∨ ∃ x y q₁ q₂ left, x.Alike y
      ∧ Both (o₁ + text.length) (o₂ + text.length) s₁ s₂ q₁ q₂
      ∧ accessRest c₁ true false left x q₁ = some z
      ∧ Onward g fuel p₂ (fun n => accessRest c₂ true false n y) left q₂

/-- The text of a value. -/
structure Core (ok : List Char → Prop) (text : List Char) : Prop where
  solid : Solid text
  starts : ∀ {s o p}, ok s → Facing o (text ++ s) p → Starts p
  unsigned : ∀ {s o p}, ok s → Facing o (text ++ s) p → p.token ≠ .mark "-"
  heads : HeadsAlike ok text
  barren : ∀ {s}, ok s → Nameless s → Barren s → Barren (text ++ s)
  reads : ∀ c₁ c₂, Resumes ok c₁ c₂ (access c₁) (access c₂) text

/-- The text of a call or an access after a value. -/
structure Access (ok : List Char → Prop) (text : List Char) : Prop where
  opens : ∃ m, ∀ s, ahead (text ++ s) = .mark m
  barren : ∀ {s}, ok s → Nameless s → Barren s → Barren (text ++ s)
  reads : ∀ c₁ c₂ {x y : Expr}, x.Alike y → Resumes ok c₁ c₂
    (fun n => accessRest c₁ true false n x) (fun n => accessRest c₂ true false n y) text

theorem Resumes.append {c₁ c₂ : Surround} {f g : Nat → Parse Expr} (h : Resumes ok' c₁ c₂ f g text)
    (then_ : Access ok more) (joins : ∀ s, ok s → ok' (more ++ s)) :
    Resumes ok c₁ c₂ f g (text ++ more) := by
  intro s₁ s₂ o₁ o₂ p₁ p₂ fuel z ok₁ ok₂ both read
  rw [List.append_assoc, List.append_assoc] at both
  rcases h (joins s₁ ok₁) (joins s₂ ok₂) both read with
    lost | ⟨x, y, r₁, r₂, left, alike, after, more_read, onward⟩
  · exact .inl lost
  rcases then_.reads c₁ c₂ alike ok₁ ok₂ after more_read with
    lost | ⟨x', y', q₁, q₂, left', alike', at_end, done, onward'⟩
  · exact .inl lost
  · rw [List.length_append, ← Nat.add_assoc, ← Nat.add_assoc]
    exact .inr ⟨x', y', q₁, q₂, left', alike', at_end, done, onward.trans onward'⟩

theorem Core.append (h : Core ok' text) (then_ : Access ok more)
    (joins : ∀ s, ok s → ok' (more ++ s)) : Core ok (text ++ more) where
  solid := h.solid.append more
  starts fits at_p := by
    rw [List.append_assoc] at at_p
    exact h.starts (joins _ fits) at_p
  unsigned fits at_p := by
    rw [List.append_assoc] at at_p
    exact h.unsigned (joins _ fits) at_p
  heads := by
    intro s₁ s₂ ok₁ ok₂ _ o₁ o₂ p₁ p₂ both
    rw [List.append_assoc, List.append_assoc] at both
    obtain ⟨m, opens⟩ := then_.opens
    exact h.heads (joins s₁ ok₁) (joins s₂ ok₂) (fun square => by rw [opens s₁, ← opens s₂, square])
      both
  barren {s} fits nameless barren := by
    obtain ⟨m, opens⟩ := then_.opens
    rw [List.append_assoc]
    exact h.barren (joins s fits) (by rw [Nameless, opens s]; rfl)
      (then_.barren fits nameless barren)
  reads c₁ c₂ := (h.reads c₁ c₂).append then_ joins

/-- A value that the reader of values reads at once. -/
theorem Core.of_primary (solid : Solid text)
    (starts : ∀ {s o p}, ok s → Facing o (text ++ s) p → Starts p)
    (other : ∀ {s o p}, ok s → Facing o (text ++ s) p →
      p.token ≠ .mark "-" ∧ p.token ≠ .name "new" false)
    (heads : HeadsAlike ok text) (barren : ∀ {s}, ok s → Nameless s → Barren s → Barren (text ++ s))
    (reads : ∀ c₁ c₂, Mirrors ok Expr.Alike (primary c₁) (primary c₂) text) : Core ok text where
  solid := solid
  starts := starts
  unsigned fits at_p := (other fits at_p).1
  heads := heads
  barren := barren
  reads c₁ c₂ := by
    intro s₁ s₂ o₁ o₂ p₁ p₂ fuel z ok₁ ok₂ both read
    cases fuel with
    | zero => cases read
    | succ n =>
      rw [access_eq (other ok₁ both.first).2, Option.bind_eq_some_iff] at read
      obtain ⟨⟨x, q₁⟩, value_read, read⟩ := read
      rcases reads c₁ c₂ ok₁ ok₂ both value_read with lost | ⟨y, q₂, alike, reaches, after⟩
      · left
        cases n with
        | zero => cases read
        | succ n =>
          rw [accessRest, bind_run, peek_run, Option.bind_some, lost.token] at read
          cases read
          exact lost
      · exact .inr ⟨x, y, q₁, q₂, n, alike, after, read, reaches.onward fun n done => by
          rw [access_eq (other ok₂ both.second).2, done]
          rfl⟩

/-! ## Operands -/

theorem Leading.plain {t : Token} (h : Leading t) (unsigned : t ≠ .mark "-") :
    unary? t = none ∧ update? t = none ∧ t ≠ .name "delete" false := by
  cases h with
  | number | string | illegal => exact ⟨rfl, rfl, by simp⟩
  | mark m mem =>
    simp only [List.mem_cons, List.not_mem_nil, or_false] at mem
    rcases mem with rfl | rfl | rfl
    · exact ⟨rfl, rfl, by simp⟩
    · exact ⟨rfl, rfl, by simp⟩
    · exact absurd rfl unsigned
  | name n isEscaped free =>
    have other : ∀ w ∈ reserved, n ≠ w := fun w mem same => free (same ▸ mem)
    have not_typeof := other "typeof" (by decide)
    have not_void := other "void" (by decide)
    have not_delete := other "delete" (by decide)
    refine ⟨?_, rfl, by simp [not_delete]⟩
    simp [unary?, not_typeof, not_void]
  | word n mem =>
    simp only [List.mem_cons, List.not_mem_nil, or_false] at mem
    rcases mem with rfl | rfl | rfl | rfl | rfl | rfl <;> exact ⟨rfl, rfl, by simp⟩

theorem Core.unary (h : Core ok text) (halts : ∀ s, Meets Halts s → ok s) (c₁ c₂ : Surround) :
    Mirrors (Meets Halts) Expr.Alike (unary c₁) (unary c₂) text := by
  have accesses : Mirrors (Meets Halts) Expr.Alike (access c₁) (access c₂) text := by
    intro s₁ s₂ o₁ o₂ p₁ p₂ fuel x q₁ ends₁ ends₂ both read
    rcases h.reads c₁ c₂ (halts s₁ ends₁) (halts s₂ ends₂) both read with
      lost | ⟨x', y, r₁, q₂, left, alike, after, done, onward⟩
    · exact .inl lost
    · have stop₁ : Halts r₁.token := after.first.token ▸ ends₁.ahead
      have stop₂ : Halts q₂.token := after.second.token ▸ ends₂.ahead
      cases left with
      | zero => cases done
      | succ n =>
        rw [stop₁.accessRest] at done
        cases done
        exact .inr ⟨y, q₂, alike, onward.reaches (reaches_of_succ fun n => stop₂.accessRest _ n y),
          after⟩
  have passes {s : List Char} {o : Nat} {p : Place} (c : Surround) (ends : Meets Halts s)
      (at_p : Facing o (text ++ s) p) :
      Passes (fun t => update? t = none) (Parser.unary c) (access c) p := by
    obtain ⟨first, second, plain⟩ :=
      (h.starts (halts s ends) at_p).leading.plain (h.unsigned (halts s ends) at_p)
    exact unary_passes first second plain
  exact accesses.passes (passes c₁) (passes c₂) (fun s ends => ends.ahead.update?) rfl

theorem factor_of_unary (solid : Solid text)
    (starts : ∀ {s o p}, Meets Halts s → Facing o (text ++ s) p → Starts p)
    (heads : HeadsAlike (Meets Halts) text)
    (barren : ∀ {s}, Meets Halts s → Nameless s → Barren s → Barren (text ++ s))
    (reads : ∀ c₁ c₂, Mirrors (Meets Halts) Expr.Alike (unary c₁) (unary c₂) text) :
    Factor text where
  solid := solid
  starts := starts
  heads := heads
  barren := barren
  reads c₁ c₂ := (reads c₁ c₂).passes (fun _ _ => power_passes _) (fun _ _ => power_passes _)
    (fun s ends => ends.ahead.not_mark (by decide)) (by simp)

theorem Core.factor (h : Core ok text) (halts : ∀ s, Meets Halts s → ok s) : Factor text :=
  factor_of_unary h.solid (fun ends => h.starts (halts _ ends))
    (fun _ _ ends₁ ends₂ => h.heads (halts _ ends₁) (halts _ ends₂))
    (fun ends => h.barren (halts _ ends)) (h.unary halts)

theorem arrowHead_nameless {p : Place} (first : p.token ≠ .mark "(")
    (nameless : nameOf? p.token = none) : ∀ fuel, arrowHead fuel p = none
  | 0 => rfl
  | fuel + 1 => by
    rw [arrowHead, bind_run, get_run, Option.bind_some, bind_run, takeMark_run, if_neg first]
    simp [bind_run, identifier_run, nameless]

/-- A value with a minus sign before it. -/
theorem Core.negated (h : Core ok text) (halts : ∀ s, Meets Halts s → ok s)
    (first : ∃ c rest, text = c :: rest ∧ c ≠ '-' ∧ c ≠ '=') : Factor ('-' :: text) := by
  have lexes (s : List Char) : (markLexeme "-").Lexes (text ++ s) := by
    obtain ⟨c, rest, rfl, other⟩ := first
    exact lexes_minus other (rest ++ s)
  have token {s : List Char} {o : Nat} {p : Place} (at_p : Facing o ('-' :: (text ++ s)) p) :
      p.token = .mark "-" := (at_p.lexeme (l := markLexeme "-") (lexes s)).token
  refine factor_of_unary ⟨'-', text, rfl, by decide⟩ (fun {s o p} ends at_p => ?_)
    (headsAlike_of_token (fun _ at_p => token at_p) (by simp)) (fun {s} _ _ _ => ?_) fun c₁ c₂ => ?_
  · have mark := token at_p
    refine ⟨mark ▸ .mark "-" (by decide), by simp [mark], arrowHead_nameless (by simp [mark]) ?_⟩
    rw [mark]
    rfl
  · have sign : ahead ('-' :: (text ++ s)) = .mark "-" :=
      Place.ahead_lexeme (l := markLexeme "-") (lexes s)
    exact (nameless_halts (m := "-") (by decide) sign).2
  · intro s₁ s₂ o₁ o₂ p₁ p₂ fuel x q₁ ends₁ ends₂ both read
    cases fuel with
    | zero => cases read
    | succ n =>
      have at_text := both.next (l := markLexeme "-") (lexes s₁) (lexes s₂)
      rw [unary_negate (token both.first), Option.bind_eq_some_iff] at read
      obtain ⟨⟨x, r⟩, unary_read, done⟩ := read
      cases done
      rcases h.unary halts c₁ c₂ ends₁ ends₂ at_text unary_read with
        lost | ⟨y, q₂, alike, reaches, after⟩
      · exact .inl lost
      · refine .inr ⟨.unary .negate y, q₂, .unary .negate alike, reaches.then fun n done => ?_, ?_⟩
        · rw [unary_negate (token both.second), done]
          rfl
        · have length : (markLexeme "-").source.length = 1 := rfl
          rw [length] at after
          convert after using 1 <;> simp <;> omega

/-! ## Accesses and calls -/

/-- The access of a member. -/
theorem access_member {n : String} {isEscaped : Bool} (h : IsIdentifier text n isEscaped) :
    Access Adjoins ('.' :: text) where
  opens := ⟨".", fun s => Place.ahead_lexeme (l := markLexeme ".") (h.lexes_point s)⟩
  barren {s} _ _ _ := by
    have dot : ahead ('.' :: (text ++ s)) = .mark "." :=
      Place.ahead_lexeme (l := markLexeme ".") (h.lexes_point s)
    exact (nameless_halts (by decide) dot).2
  reads c₁ c₂ x y alike := by
    intro s₁ s₂ o₁ o₂ p₁ p₂ fuel z joins₁ joins₂ both read
    have at_name := both.next (l := markLexeme ".") (h.lexes_point s₁) (h.lexes_point s₂)
    have at_end := at_name.next (l := ⟨[], text, .name n isEscaped⟩) (h.lexes joins₁.ends)
      (h.lexes joins₂.ends)
    obtain ⟨dot₁, dot₂⟩ := both.tokens (l := markLexeme ".") (h.lexes_point s₁) (h.lexes_point s₂)
    obtain ⟨name₁, name₂⟩ := at_name.tokens (l := ⟨[], text, .name n isEscaped⟩)
      (h.lexes joins₁.ends) (h.lexes joins₂.ends)
    cases fuel with
    | zero => cases read
    | succ left =>
      refine .inr ⟨_, _, p₁.next.next, p₂.next.next, left, .member (Units.ofString n) alike, ?_, ?_,
        onward_of_succ fun n => accessRest_member dot₂ name₂⟩
      · have length : (markLexeme ".").source.length = 1 := rfl
        rw [length] at at_end
        convert at_end using 1 <;> simp [Lexeme.source] <;> omega
      · rw [← accessRest_member dot₁ name₁]
        exact read

theorem meets_closing {m : String} {c : Char} (mem : m ∈ brackets) (one : m.toList = [c])
    (calm : c ∈ [' ', '\n', '(', ')', '[', ']', ',']) (closes : Closes (.mark m)) (s : List Char) :
    Meets Closes (c :: s) := by
  refine meets_cons calm ?_
  have token := ahead_bracket mem s
  rw [one] at token
  exact token ▸ closes

/-- The access of an element. -/
theorem access_index (h : Formula text) : Access ok ('[' :: (text ++ [']'])) where
  opens := ⟨"[", fun s => ahead_bracket (m := "[") (by decide) ((text ++ [']']) ++ s)⟩
  barren {s} _ _ barren := by
    refine barren_bracket (m := "[") (by decide) ?_
    exact (Listed.last h).barren barren
  reads c₁ c₂ x y alike := by
    intro s₁ s₂ o₁ o₂ p₁ p₂ fuel z _ _ both read
    have text_eq (s : List Char) : ('[' :: (text ++ [']'])) ++ s = '[' :: (text ++ (']' :: s)) := by
      simp
    rw [text_eq, text_eq] at both
    obtain ⟨opens₁, opens₂, at_text⟩ := both.bracket (m := "[") (by decide)
    have ends (s : List Char) : Meets Closes (']' :: s) :=
      meets_closing (m := "]") (by decide) rfl (by decide) ⟨.square, by decide⟩ s
    cases fuel with
    | zero => cases read
    | succ left =>
      change accessRest c₁ true false (left + 1) x p₁ = some z at read
      rw [accessRest_index opens₁, Option.bind_eq_some_iff] at read
      obtain ⟨⟨i, r₁⟩, index_read, read⟩ := read
      rcases h.expression c₁.inside c₂.inside (ends s₁) (ends s₂) at_text index_read with
        lost | ⟨j, r₂, i_alike, reaches, at_close⟩
      · simp [lost.token] at read
      obtain ⟨closes₁, closes₂, at_end⟩ := at_close.bracket (m := "]") (by decide)
      rw [if_pos closes₁] at read
      refine .inr ⟨_, .index false y j, r₁.next, r₂.next, left, .index alike i_alike, ?_, read,
        reaches.onward fun n done => ?_⟩
      · convert at_end using 1 <;> simp <;> omega
      · rw [accessRest_index opens₂, done, Option.bind_some, if_pos closes₂]

/-- A call. -/
theorem access_call (h : Listed Formula ")" text) : Access ok ('(' :: text) where
  opens := ⟨"(", fun s => ahead_bracket (m := "(") (by decide) (text ++ s)⟩
  barren {s} _ _ _ :=
    (nameless_halts (by decide) (ahead_bracket (m := "(") (by decide) (text ++ s))).2
  reads c₁ c₂ x y alike := by
    intro s₁ s₂ o₁ o₂ p₁ p₂ fuel z _ _ both read
    obtain ⟨opens₁, opens₂, at_text⟩ := both.bracket (m := "(") (by decide)
    cases fuel with
    | zero => cases read
    | succ left =>
      change accessRest c₁ true false (left + 1) x p₁ = some z at read
      rw [accessRest_call opens₁, Option.bind_eq_some_iff] at read
      obtain ⟨⟨xs, q₁⟩, list_read, read⟩ := read
      obtain ⟨ys, q₂, all, reaches, at_end⟩ := h.expressions closer_round
        (lists_arguments c₁.inside) (lists_arguments c₂.inside) trivial trivial at_text list_read
      refine .inr ⟨_, .call false y ys, q₁, q₂, left, .call alike all, ?_, read,
        reaches.onward fun n done => ?_⟩
      · convert at_end using 1 <;> simp <;> omega
      · rw [accessRest_call opens₂, done, Option.bind_some]

/-! ## Values -/

theorem solid_identifier {n : String} {isEscaped : Bool} (h : IsIdentifier text n isEscaped) :
    Solid text := by
  obtain ⟨c, rest, same, start | rfl⟩ := h.starts
  · exact ⟨c, rest, same, (start_solid start).1, (start_solid start).2.2⟩
  · exact ⟨_, rest, same, by decide⟩

theorem solid_name (h : IsName text) : Solid text := by
  obtain ⟨c, rest, same, start, -⟩ := h.starts
  exact ⟨c, rest, same, (start_solid start).1, (start_solid start).2.2⟩

theorem IsNumeral.first {cs : List Char} (h : IsNumeral cs) :
    ∃ c rest, cs = c :: rest ∧ c.isDigit = true := by
  obtain ⟨whole, fraction, exponent, rfl, first, digits, -⟩ := h
  rcases first with rfl | ⟨c, ds, rfl, -⟩
  · exact ⟨'0', _, rfl, rfl⟩
  · exact ⟨c, _, rfl, digits c List.mem_cons_self⟩

theorem solid_numeral {cs : List Char} (h : IsNumeral cs) : Solid cs := by
  obtain ⟨c, rest, same, digit⟩ := IsNumeral.first h
  exact ⟨c, rest, same, (digitFacts digit).solid, (digitFacts digit).no_slash⟩

/-- A value of one token. -/
theorem core_single {l : Lexeme} {x : Expr} (tight : l.gap = []) (solid : Solid l.text)
    (lexes : ∀ s, ok s → l.Lexes s) (leading : Leading l.token)
    (plain : l.token ≠ .mark "-" ∧ l.token ≠ .name "new" false ∧ l.token ≠ .name "function" false)
    (arrow : ∀ {s p}, ok s → p.token = l.token → p.next.token = ahead s →
      ∀ fuel, arrowHead fuel p = none)
    (reads : ∀ c n p, p.token = l.token → primary c (n + 1) p = some (x, p.next)) :
    Core ok l.text := by
  have source : l.source = l.text := by rw [Lexeme.source, tight, List.nil_append]
  have at_l {s : List Char} {o : Nat} {p : Place} (fits : ok s) (at_p : Facing o (l.text ++ s) p) :
      p.token = l.token ∧ p.next.token = ahead s := by
    rw [← source] at at_p
    exact ⟨(at_p.lexeme (lexes s fits)).token, (at_p.lexeme (lexes s fits)).next.token⟩
  refine .of_primary solid (fun fits at_p => ?_) (fun fits at_p => ?_)
    (fun s₁ s₂ ok₁ ok₂ square o₁ o₂ p₁ p₂ both => ?_) (fun {s} fits nameless barren => ?_)
    fun c₁ c₂ => ?_
  · obtain ⟨token, next⟩ := at_l fits at_p
    exact ⟨token ▸ leading, fun word => absurd (token.symm.trans word) plain.2.2,
      arrow fits token next⟩
  · rw [(at_l fits at_p).1]
    exact ⟨plain.1, plain.2.1⟩
  · obtain ⟨token₁, next₁⟩ := at_l ok₁ both.first
    obtain ⟨token₂, next₂⟩ := at_l ok₂ both.second
    refine ⟨token₁.trans token₂.symm, fun keyword => ?_⟩
    obtain ⟨word, opens⟩ := keyword
    exact ⟨by rw [token₁, ← token₂, word], by rw [next₁, square (next₂ ▸ opens)]⟩
  · have other : ∀ m ∈ ["=", "\x7b", "..."], m ∉ ["[", "(", "-"] := by decide
    rw [← source]
    exact barren_lexeme (lexes s fits) (fun m mem => leading.not_mark (other m mem)) barren nameless
  · intro s₁ s₂ o₁ o₂ p₁ p₂ fuel y q₁ ok₁ ok₂ both read
    cases fuel with
    | zero => cases read
    | succ n =>
      rw [reads c₁ n p₁ (at_l ok₁ both.first).1] at read
      cases read
      rw [← source] at both ⊢
      exact .inr ⟨x, p₂.next, .refl x, reaches_of_succ fun n =>
        reads c₂ n p₂ (both.tokens (lexes s₁ ok₁) (lexes s₂ ok₂)).2,
        both.next (lexes s₁ ok₁) (lexes s₂ ok₂)⟩

theorem primary_number {c : Surround} {p : Place} {x : Numeric} (n : Nat)
    (token : p.token = .number x) : primary c (n + 1) p = some (.number x, p.next) := by
  rw [primary, bind_run, get_run, Option.bind_some]
  simp only [token]
  rfl

theorem core_number {cs : List Char} (h : IsNumeral cs) : Core (EndsNumber cs) cs := by
  obtain ⟨x, lexes⟩ := lexes_numeral h
  refine core_single (l := ⟨[], cs, .number x⟩) (x := .number x) rfl (solid_numeral h)
    (fun s ends => lexes s ends)
    (.number x) (by simp) (fun _ token _ => arrowHead_nameless (by simp [token]) ?_)
    fun c n p token => primary_number n token
  rw [token]
  rfl

/-- A number that begins with a digit is read as such. -/
theorem lexes_digits {x : Numeric} {front rest : List Char}
    (digit : ∃ c ds, front = c :: ds ∧ c.isDigit = true)
    (read : Token.number? (front ++ rest) = some (x, front.length)) :
    Lexeme.Lexes ⟨[], front, .number x⟩ rest := by
  obtain ⟨c, ds, rfl, digit⟩ := digit
  have facts := digitFacts digit
  refine ⟨by simp, c, ds, rfl, facts.solid, ?_, ?_⟩
  · have slash := facts.no_slash
    rw [Place.comment?.eq_def]
    split <;> simp_all
  · rw [List.cons_append] at read
    simp [Token.next, facts.no_start, facts.no_escape, digit, read]

theorem lexes_no_number {c : Char} {rest : List Char} (digit : c.isDigit = true)
    (read : Token.number? (c :: rest) = none) : Lexeme.Lexes ⟨[], [c], .illegal⟩ rest := by
  have facts := digitFacts digit
  refine ⟨by simp, c, [], rfl, facts.solid, ?_, ?_⟩
  · have slash := facts.no_slash
    rw [Place.comment?.eq_def]
    split <;> simp_all
  · simp [Token.next, facts.no_start, facts.no_escape, digit, read]

/-- A text that begins with no token. -/
theorem core_illegal (solid : Solid text)
    (token : ∀ {s o p}, ok s → Facing o (text ++ s) p → p.token = .illegal) : Core ok text := by
  refine .of_primary solid (fun fits at_p => ?_) (fun fits at_p => by simp [token fits at_p])
    (headsAlike_of_token token (by simp)) (fun fits _ _ _ p at_p => ?_) fun c₁ c₂ => ?_
  · have illegal := token fits at_p
    refine ⟨illegal ▸ .illegal, by simp [illegal], arrowHead_nameless (by simp [illegal]) ?_⟩
    rw [illegal]
    rfl
  · have illegal := token fits at_p
    refine .halts (by simp [illegal]) ?_
    rw [illegal]
    rfl
  · intro s₁ s₂ o₁ o₂ p₁ p₂ fuel x q₁ fits₁ fits₂ both read
    have illegal := token fits₁ both.first
    cases fuel with
    | zero => cases read
    | succ n => simp [primary, bind_run, get_run, illegal, malformed] at read

/-- A number behind which no token begins. -/
theorem core_lost {x : Numeric} (solid : Solid text)
    (starts : ∀ {s o p}, ok s → Facing o (text ++ s) p → p.token = .number x ∧ Lost p.next) :
    Core ok text := by
  refine .of_primary solid (fun fits at_p => ?_) (fun fits at_p => by simp [(starts fits at_p).1])
    (headsAlike_of_token (fun fits at_p => (starts fits at_p).1) (by simp))
    (fun fits _ _ _ p at_p => ?_) fun c₁ c₂ => ?_
  · have number := (starts fits at_p).1
    refine ⟨number ▸ .number x, by simp [number], arrowHead_nameless (by simp [number]) ?_⟩
    rw [number]
    rfl
  · have number := (starts fits at_p).1
    refine .halts (by simp [number]) ?_
    rw [number]
    rfl
  · intro s₁ s₂ o₁ o₂ p₁ p₂ fuel y q₁ fits₁ fits₂ both read
    obtain ⟨number, lost⟩ := starts fits₁ both.first
    cases fuel with
    | zero => cases read
    | succ n =>
      rw [primary_number n number] at read
      cases read
      exact .inl lost

/-- The member of a whole number: what is read of it may be no number, all of it may be a number
with an exponent, or such a number ends before the name does. -/
theorem core_pointed {cs : List Char} {n : String} {isEscaped : Bool} (h : IsNumeral cs)
    (digits : ∀ c ∈ cs, c.isDigit = true) (name : IsIdentifier text n isEscaped) :
    Core Adjoins (cs ++ '.' :: text) := by
  obtain ⟨c, ds, rfl, digit⟩ := IsNumeral.first h
  have solid : Solid (c :: ds ++ '.' :: text) := (solid_numeral h).append _
  rcases pointed_number h digits name with
    reads | ⟨x, reads⟩ | ⟨x, front, rest, d, split, filled, part, other, reads⟩
  · exact core_illegal solid fun {s o p} joins at_p =>
      (at_p.lexeme (l := ⟨[], [c], .illegal⟩)
        (lexes_no_number digit (reads s joins.ends joins.unsigned))).token
  · refine core_single (l := ⟨[], c :: ds ++ '.' :: text, .number x⟩) (x := .number x) rfl solid
      (fun s joins => lexes_digits ⟨c, _, rfl, digit⟩ (reads s joins.ends joins.unsigned))
        (.number x)
      (by simp) (fun _ token _ => arrowHead_nameless (by simp [token]) ?_)
      fun c n p token => primary_number n token
    rw [token]
    rfl
  · refine core_lost (x := x) solid fun {s o p} joins at_p => ?_
    have first : ∃ b bs, front = b :: bs ∧ b.isDigit = true := by
      obtain ⟨b, bs, rfl⟩ := List.exists_cons_of_ne_nil filled
      exact ⟨b, bs, rfl, (List.cons.inj split).1 ▸ digit⟩
    have read := reads s joins.ends joins.unsigned
    rw [split, List.append_assoc] at read at_p
    have found := at_p.lexeme (l := ⟨[], front, .number x⟩) (lexes_digits first read)
    obtain ⟨reached, next⟩ := found.then_
    have lost := Place.find_lexeme (part_illegal part other (rest ++ s))
      (o + (Lexeme.source ⟨[], front, .number x⟩).length) false
    refine ⟨found.token, ?_, ?_⟩
    · rw [next]
      exact congrArg Place.token lost
    · rw [next]
      exact congrArg Place.afterBreak lost

theorem core_name {cs : List Char} {n : String} {isEscaped : Bool} (h : IsIdentifier cs n isEscaped)
    (free : n ∉ reserved) : Core Adjoins cs := by
  have other : ∀ w ∈ reserved, n ≠ w := fun w mem same => free (same ▸ mem)
  have not_new := other "new" (by decide)
  have not_function := other "function" (by decide)
  refine core_single (l := ⟨[], cs, .name n isEscaped⟩) (x := .ident n) rfl (solid_identifier h)
    (fun s joins => h.lexes joins.ends) (.name n isEscaped free) (by simp [not_new, not_function])
    (fun joins token next => arrowHead_fails (by simp [token]) (next ▸ joins.noArrow))
    fun c k p token => ?_
  cases isEscaped with
  | false => exact primary_name free token
  | true =>
    rw [primary, bind_run, get_run, Option.bind_some]
    simp [token, bind_run, map_run, require_run, free, advance_run]

/-- The words that stand for values. -/
def valueWords : List (String × Expr) :=
  [("true", .bool true), ("false", .bool false), ("null", .null), ("this", .this)]

theorem core_word {w : String} {x : Expr} (mem : (w, x) ∈ valueWords) : Core Adjoins w.toList := by
  have facts : IsName w.toList ∧ w ∈ ["true", "false", "null", "this", "function", "new"]
      ∧ w ≠ "new" ∧ w ≠ "function" := by
    simp only [valueWords, List.mem_cons, List.not_mem_nil, or_false, Prod.mk.injEq] at mem
    rcases mem with ⟨rfl, -⟩ | ⟨rfl, -⟩ | ⟨rfl, -⟩ | ⟨rfl, -⟩ <;> decide
  obtain ⟨name, known, not_new, not_function⟩ := facts
  refine core_single (l := wordLexeme w) (x := x) rfl (solid_name name)
    (fun s joins => lexes_word name joins.ends)
    (.word w known) (by simp [wordLexeme, not_new, not_function])
    (fun joins token next => arrowHead_fails (by simp [token, wordLexeme]) (next ▸ joins.noArrow))
    fun c k p token => ?_
  rw [primary, bind_run, get_run, Option.bind_some]
  simp only [token, wordLexeme]
  simp only [valueWords, List.mem_cons, List.not_mem_nil, or_false, Prod.mk.injEq] at mem
  rcases mem with ⟨rfl, rfl⟩ | ⟨rfl, rfl⟩ | ⟨rfl, rfl⟩ | ⟨rfl, rfl⟩ <;> rfl

theorem core_string {cs : List Char} {u : Units} (solid : Solid cs)
    (lexes : ∀ s, Lexeme.Lexes ⟨[], cs, .string u⟩ s) : Core ok cs := by
  refine core_single (l := ⟨[], cs, .string u⟩) (x := .string u) rfl solid (fun s _ => lexes s)
    (.string u)
    (by simp) (fun _ token _ => arrowHead_nameless (by simp [token]) ?_) fun c n p token => ?_
  · rw [token]
    rfl
  · rw [primary, bind_run, get_run, Option.bind_some]
    simp only [token]
    rfl

/-- An array literal. -/
theorem core_array (h : Listed Formula "]" text) : Core ok ('[' :: text) := by
  have token {s : List Char} {o : Nat} {p : Place} (at_p : Facing o ('[' :: (text ++ s)) p) :
      p.token = .mark "[" := at_p.token.trans (ahead_bracket (m := "[") (by decide) _)
  refine .of_primary ⟨'[', text, rfl, by decide⟩ (fun _ at_p => ?_)
    (fun _ at_p => by simp [token at_p]) (headsAlike_of_token (fun _ at_p => token at_p) (by simp))
    (fun _ _ barren => barren_bracket (m := "[") (by decide) (h.barren barren)) fun c₁ c₂ => ?_
  · have opens := token at_p
    refine ⟨opens ▸ .mark "[" (by decide), by simp [opens], arrowHead_nameless (by simp [opens]) ?_⟩
    rw [opens]
    rfl
  · intro s₁ s₂ o₁ o₂ p₁ p₂ fuel x q₁ _ _ both read
    obtain ⟨opens₁, opens₂, at_text⟩ := both.bracket (m := "[") (by decide)
    cases fuel with
    | zero => cases read
    | succ n =>
      rw [primary_array opens₁, Option.bind_eq_some_iff] at read
      obtain ⟨⟨xs, r₁⟩, list_read, done⟩ := read
      cases done
      obtain ⟨ys, r₂, all, reaches, at_end⟩ := h.expressions closer_square
        (lists_elements c₁.inside) (lists_elements c₂.inside) trivial trivial at_text list_read
      refine .inr ⟨.array ys, r₂, .array all, reaches.then fun n done => ?_, ?_⟩
      · rw [primary_array opens₂, done, Option.bind_some]
      · convert at_end using 1 <;> simp <;> omega

/-- A function in parentheses. -/
theorem core_parenthesis (h : Formula text)
    (starts : ∀ {s o p}, Facing o (text ++ s) p → p.token = .name "function" false) :
    Core ok ('(' :: (text ++ [')'])) := by
  have text_eq (s : List Char) : ('(' :: (text ++ [')'])) ++ s = '(' :: (text ++ (')' :: s)) := by
    simp
  have at_open {s : List Char} {o : Nat} {p : Place}
      (at_p : Facing o (('(' :: (text ++ [')'])) ++ s) p) :
      p.token = .mark "(" ∧ p.next.token = .name "function" false := by
    rw [text_eq] at at_p
    have opens := at_p.lexeme (l := markLexeme "(") (lexes_bracket (by decide) _)
    exact ⟨opens.token, starts opens.next⟩
  refine .of_primary ⟨'(', _, rfl, by decide⟩ (fun {s o p} _ at_p => ?_)
    (fun {s o p} _ at_p => by simp [(at_open at_p).1])
    (headsAlike_of_token (fun _ at_p => (at_open at_p).1) (by simp)) (fun {s} _ _ _ => ?_)
    fun c₁ c₂ => ?_
  · obtain ⟨opens, word⟩ := at_open at_p
    refine ⟨opens ▸ .mark "(" (by decide), by simp [opens], fun fuel => ?_⟩
    cases fuel with
    | zero => rfl
    | succ n =>
      rw [arrowHead, bind_run, get_run, Option.bind_some, bind_run, takeMark_run, if_pos opens]
      simp [bind_run, parameters_reserved word (by decide)]
  · rw [text_eq]
    exact (nameless_halts (m := "(") (by decide) (ahead_bracket (m := "(") (by decide) _)).2
  · intro s₁ s₂ o₁ o₂ p₁ p₂ fuel x q₁ _ _ both read
    rw [text_eq, text_eq] at both
    obtain ⟨opens₁, opens₂, at_text⟩ := both.bracket (m := "(") (by decide)
    have ends (s : List Char) : Meets Closes (')' :: s) :=
      meets_closing (m := ")") (by decide) rfl (by decide) ⟨.round, by decide⟩ s
    cases fuel with
    | zero => cases read
    | succ n =>
      rw [primary_parenthesis opens₁, Option.bind_eq_some_iff] at read
      obtain ⟨⟨x', r₁⟩, inner_read, read⟩ := read
      rcases h.expression c₁.inside c₂.inside (ends s₁) (ends s₂) at_text inner_read with
        lost | ⟨y, r₂, alike, reaches, at_close⟩
      · simp [lost.token] at read
      obtain ⟨closes₁, closes₂, at_end⟩ := at_close.bracket (m := ")") (by decide)
      rw [if_pos closes₁] at read
      cases read
      refine .inr ⟨y, { r₂.next with reached := r₂.reached }, alike, reaches.then fun n done => ?_,
        ⟨?_, ?_⟩⟩
      · rw [primary_parenthesis opens₂, done, Option.bind_some, if_pos closes₂]
      · have := at_end.first.setReached r₁.reached
        convert this using 1
        simp
        omega
      · have := at_end.second.setReached r₂.reached
        convert this using 1
        simp
        omega

/-- An object that is made by calling a name. -/
theorem core_construction {n : String} (h : IsName n.toList) (free : n ∉ reserved)
    (list : Listed Formula ")" text) :
    Core ok ("new".toList ++ ' ' :: (n.toList ++ '(' :: text)) := by
  have text_eq (s : List Char) : ("new".toList ++ ' ' :: (n.toList ++ '(' :: text)) ++ s
      = "new".toList ++ ' ' :: (n.toList ++ '(' :: (text ++ s)) := by simp
  have new_lexes (s : List Char) : (wordLexeme "new").Lexes (' ' :: s) :=
    lexes_word (by decide) (calm_cons s (by decide)).endsName
  have name_lexes (s : List Char) : (wordLexeme n).Lexes ('(' :: s) :=
    lexes_word h (calm_cons s (by decide)).endsName
  have at_new {s : List Char} {o : Nat} {p : Place}
      (at_p : Facing o (("new".toList ++ ' ' :: (n.toList ++ '(' :: text)) ++ s) p) :
      p.token = .name "new" false ∧ p.next.token = .name n false := by
    rw [text_eq] at at_p
    have word := at_p.lexeme (l := wordLexeme "new") (new_lexes _)
    have name := word.next.space.lexeme (l := wordLexeme n) (name_lexes (text ++ s))
    exact ⟨word.token, name.token⟩
  refine ⟨⟨'n', _, rfl, by decide⟩, fun {s o p} _ at_p => ?_,
    fun {s o p} _ at_p => by simp [(at_new at_p).1],
    headsAlike_of_token (fun _ at_p => (at_new at_p).1) (by simp), fun {s} _ _ _ o p at_p => ?_,
    fun c₁ c₂ => ?_⟩
  · obtain ⟨word, name⟩ := at_new at_p
    exact ⟨word ▸ .word "new" (by decide), by simp [word],
      arrowHead_fails (by simp [word]) (by simp [name])⟩
  · have word := (at_new at_p).1
    exact .halts (by simp [word]) (by rw [word]; rfl)
  · intro s₁ s₂ o₁ o₂ p₁ p₂ fuel z _ _ both read
    obtain ⟨word₁, name₁⟩ := at_new both.first
    obtain ⟨word₂, name₂⟩ := at_new both.second
    rw [text_eq, text_eq] at both
    have at_open := (both.next (l := wordLexeme "new") (new_lexes _) (new_lexes _)).space.next
      (l := wordLexeme n) (name_lexes (text ++ s₁)) (name_lexes (text ++ s₂))
    obtain ⟨opens₁, opens₂, at_text⟩ := at_open.bracket (m := "(") (by decide)
    cases fuel with
    | zero => cases read
    | succ k =>
    rw [access_new word₁, Option.bind_eq_some_iff] at read
    obtain ⟨⟨x, q₁⟩, made, read⟩ := read
    match k with
    | 0 => cases made
    | 1 =>
      have other : n ≠ "new" := fun same => free (same ▸ by decide)
      simp [construction, bind_run, takeMark_run, takeWord_run, name₁, other, primary,
        malformed] at made
    | k + 2 =>
      rw [construction_eq free name₁ opens₁, Option.bind_eq_some_iff] at made
      obtain ⟨⟨xs, r₁⟩, list_read, done⟩ := made
      cases done
      obtain ⟨ys, r₂, all, reaches, at_end⟩ := list.expressions closer_round
        (lists_arguments c₁.inside) (lists_arguments c₂.inside) trivial trivial at_text list_read
      have made : Reaches (construction c₂) (k + 2) p₂.next (.construct (.ident n) ys) r₂ := by
        intro m enough
        obtain ⟨m, rfl⟩ : ∃ i, m = i + 2 := ⟨m - 2, by omega⟩
        rw [construction_eq free name₂ opens₂, reaches (m + 1) (by omega), Option.bind_some]
      refine .inr ⟨_, .construct (.ident n) ys, r₁, r₂, _, .construct (.refl _) all, ?_, read,
        made.onward fun n done => ?_⟩
      · have lengths : (wordLexeme "new").source.length = 3
            ∧ (wordLexeme n).source.length = n.toList.length := ⟨rfl, rfl⟩
        rw [lengths.1, lengths.2] at at_end
        convert at_end using 1 <;> simp <;> omega
      · rw [access_new word₂, done, Option.bind_some]

end EggLang.Script.Parser
