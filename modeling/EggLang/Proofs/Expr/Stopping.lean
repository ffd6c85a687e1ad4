import EggLang.Proofs.Expr.Reading

/-!
# Where reading stops

A reader that fails has gone through lexemes that it could take, and then met one that it could
not or the end of the text. Where it stopped is the index of that lexeme, or the length of the
text.
-/

namespace EggLang

/-- Every lexeme of a text starts inside it. -/
theorem Lexeme.index_lt {index : Nat} {text : Bytes} {x : Lexeme} (h : x ∈ scan index text) :
    x.index < index + text.length := by
  induction hn : text.length using Nat.strongRecOn generalizing index text with
  | ind n ih =>
    cases text with
    | nil => simp [scan] at h
    | cons b rest =>
      have hlt : (Token.next b rest).2.length < n := hn ▸ Token.next_length b rest
      rw [List.length_cons] at hn
      rw [scan_cons] at h
      rcases List.mem_cons.mp h with rfl | h
      · show index < index + n
        omega
      · have hrest := ih _ hlt h rfl
        omega

namespace Reading

variable {full : Bytes} {place : Nat → Place}

/-- The reading after some lexemes, or nothing when one of them cannot stand where it does. -/
def advance (place : Nat → Place) : Reading → List Lexeme → Option Reading
  | r, [] => some r
  | r, x :: rest =>
    match r.step? (place x.index) x.token with
    | some next => advance place next rest
    | none => none

/-- Whether the program is over. -/
def Finished : Reading → Prop
  | after _ [] => True
  | _ => False

theorem run_advance {r t : Reading} {front : List Lexeme} (h : r.advance place front = some t)
    (back : List Lexeme) : run full place r (front ++ back) = run full place t back := by
  induction front generalizing r with
  | nil =>
    obtain rfl := Option.some.inj h
    rfl
  | cons x front ih =>
    rw [advance] at h
    split at h
    · rename_i next hstep
      rw [List.cons_append, run_cons hstep]
      exact ih h
    · cases h

theorem run_refused {r : Reading} {x : Lexeme} (h : r.step? (place x.index) x.token = none)
    (back : List Lexeme) :
    run full place r (x :: back) = .error ⟨x.index, r.fault (full.drop x.index)⟩ := by
  rw [run, h]

theorem run_end {r : Reading} (h : ¬ r.Finished) :
    run full place r [] = .error ⟨full.length, r.fault []⟩ := by
  match r with
  | start => rfl
  | argument _ _ => rfl
  | after _ (_ :: _) => rfl
  | after _ [] => exact absurd trivial h

/-- The two ways in which a reader fails. -/
theorem run_error {r : Reading} {xs : List Lexeme} {stop : Stop}
    (h : run full place r xs = .error stop) :
    (∃ t, r.advance place xs = some t ∧ ¬ t.Finished ∧ stop = ⟨full.length, t.fault []⟩) ∨
    ∃ front x back t, xs = front ++ x :: back ∧ r.advance place front = some t ∧
      t.step? (place x.index) x.token = none ∧
      stop = ⟨x.index, t.fault (full.drop x.index)⟩ := by
  induction xs generalizing r with
  | nil =>
    by_cases hdone : r.Finished
    · match r with
      | after e [] => cases h
    · rw [run_end hdone] at h
      exact .inl ⟨r, rfl, hdone, (Except.error.inj h).symm⟩
  | cons x xs ih =>
    cases hstep : r.step? (place x.index) x.token with
    | none =>
      rw [run_refused hstep] at h
      exact .inr ⟨[], x, xs, r, rfl, rfl, hstep, (Except.error.inj h).symm⟩
    | some next =>
      rw [run_cons hstep] at h
      obtain ⟨t, hadvance, hdone, hstop⟩
        | ⟨front, y, back, t, rfl, hadvance, hrefused, hstop⟩ := ih h
      · exact .inl ⟨t, by rw [advance, hstep]; exact hadvance, hdone, hstop⟩
      · exact .inr ⟨x :: front, y, back, t, rfl, by rw [advance, hstep]; exact hadvance, hrefused,
          hstop⟩

end Reading

/-- Reading stops inside the stripped text or at its end. -/
theorem Stripped.index_le_of_parse {s : Stripped} {stop : Stop} (h : s.parse = .error stop) :
    stop.index ≤ s.text.length := by
  obtain ⟨t, _, _, rfl⟩ | ⟨front, x, back, t, hscan, _, _, rfl⟩ := Reading.run_error h
  · exact Nat.le_refl _
  · have hmem : x ∈ Lexeme.scan 0 s.text := by rw [hscan]; simp
    have hlt := Lexeme.index_lt hmem
    show x.index ≤ s.text.length
    omega

end EggLang
