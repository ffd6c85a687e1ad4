import EggLang.Proofs.Data.Reading
import EggLang.Run.Child

/-!
# Telling the console output from the result

A child writes its console output, the marker and its result to one stream. The stream is cut where
the marker occurs first, so the two parts come back as long as the console output does not hold the
marker. Where it does, the cut leaves the marker in what is read as the result, which is then no
JSON text: the zero byte that the marker begins with gives it away.
-/

namespace EggLang.Child

variable {output encoded : Bytes} {value : Data} (refusal : Bytes → Bytes)

theorem decode_of_absent (absent : ¬ marker <:+: output)
    (reads : Data.ofJson? encoded = some value) :
    decode refusal (output ++ marker ++ encoded) = { execution := some { value, output } } := by
  have parts : Bytes.cut marker (output ++ marker ++ encoded) = some (output, encoded) :=
    Bytes.cut_of_not_infix (by decide) absent encoded
  simp only [decode, parts, reads]

theorem decode_of_occurs (occurs : marker <:+: output) (encoded : Bytes) :
    ∃ rest, decode refusal (output ++ marker ++ encoded)
      = { trouble := some (.broken (utf8 "decoding result: " ++ refusal rest)) } := by
  obtain ⟨front, back, parts⟩ := Bytes.cut_append_of_infix occurs
  have refused : Data.ofJson? (back ++ (marker ++ encoded)) = none := by
    refine Option.eq_none_iff_forall_ne_some.2 fun value reads => ?_
    refine Data.zero_notMem_of_ofJson? reads (List.mem_append_right back ?_)
    exact List.mem_append_left encoded (List.mem_cons_self ..)
  exact ⟨back ++ (marker ++ encoded), by simp only [decode, List.append_assoc, parts, refused]⟩

/-- A child that ends well gives back its console output and its result exactly if the console
output does not hold the marker. If it does, both are lost to a decoder that turns the result down,
whatever it says of it. -/
theorem execute_recovers {binary program stderr : Bytes} {child : Bytes → Outcome}
    {allowance : Allowance} (starts : allowance.refusal? = none)
    (finished : child (script program) = .finished (output ++ marker ++ encoded) stderr 0)
    (reads : Data.ofJson? encoded = some value) :
    (¬ marker <:+: output → execute binary child allowance program refusal
        = { execution := some { value, output } }) ∧
      (marker <:+: output → ∃ rest, execute binary child allowance program refusal
        = { trouble := some (.broken (utf8 "decoding result: " ++ refusal rest)) }) := by
  have decoded : execute binary child allowance program refusal
      = decode refusal (output ++ marker ++ encoded) := by
    simp only [execute, starts, finished, if_pos]
  rw [decoded]
  exact ⟨fun absent => decode_of_absent refusal absent reads,
    fun occurs => decode_of_occurs refusal occurs encoded⟩

/-- A console output that ends within a marker that is not finished. -/
theorem execute_recovers_unfinished_marker :
    execute (utf8 "node")
        (fun _ => .finished (utf8 "\x00eggc" ++ marker ++ utf8 "true") [] 0) .standard
        (utf8 "process.stdout.write('\\x00eggc'); return true")
      = { execution := some { value := .bool true, output := utf8 "\x00eggc" } } :=
  (execute_recovers malformed rfl rfl (by rfl)).1 (by decide)

/-- A program that writes the marker to the console loses its output and its result. -/
theorem written_marker_loses_result :
    Data.ofJson? (utf8 "true") = some (.bool true) ∧
      execute (utf8 "node")
        (fun _ => .finished (marker ++ utf8 "1\n" ++ marker ++ utf8 "true") [] 0) .standard
        (utf8 "console.log('\\x00eggc-result:1'); return true")
      ≠ { execution := some { value := .bool true, output := marker ++ utf8 "1\n" } } := by
  have occurs : marker <:+: marker ++ utf8 "1\n" := (List.prefix_append _ _).isInfix
  obtain ⟨rest, lost⟩ := decode_of_occurs malformed occurs (utf8 "true")
  refine ⟨by rfl, fun recovered => ?_⟩
  have decoded := lost.symm.trans recovered
  cases decoded

end EggLang.Child
