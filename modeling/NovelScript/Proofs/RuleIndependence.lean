import NovelScript.Proofs.LineCount
import NovelScript.Proofs.RoundTrip

/-!
# Tagging rules and what is injected

Tagging rules decide the category in front of every string and where a mark of unfinished text is
glued to a line, or left over behind the last one. An injection is not to see any of this.

It reads lines through what they put back, and of these only as many as the script has texts
(`outcome_inject_congr`). The lines of a dump put back each text as it is reread, whatever the rules
(`take_replacement_dumpedLines`). So two dumps of a script under different rules differ in their text
streams alone, and injecting the one or the other gives the same outcome (`inject_under_any_rules`);
only the warning of a mark left over can come and go.
-/

set_option autoImplicit false

namespace NovelScript

section Outcome

variable {data : Bytes} {events : List Event} {lines others : List Bytes}

/-- Lines with the same texts place the events in the same way. -/
theorem ofLines_congr
    (same : (lines.map Line.replacement).take (textUnits events).length =
      (others.map Line.replacement).take (textUnits events).length) :
    Placement.ofLines lines events = Placement.ofLines others events := by
  unfold Placement.ofLines
  rw [← placements_take, same, placements_take]

/-- Lines that put back the same texts lead to the same outcome, and lines behind the last text have
no part in it. -/
theorem outcome_inject_congr (transcript : Transcript data events)
    (enough : (textUnits events).length ≤ lines.length)
    (enoughOthers : (textUnits events).length ≤ others.length)
    (same : (lines.map Line.replacement).take (textUnits events).length =
      (others.map Line.replacement).take (textUnits events).length) :
    (inject data lines).map Injection.outcome = (inject data others).map Injection.outcome := by
  rw [inject_eq_of_transcript transcript enough, inject_eq_of_transcript transcript enoughOthers,
    emitted, emitted, ofLines_congr same]
  apply Substitution.outcome_relocated

end Outcome

section Dumps

variable {data : Bytes} {commands : List Command}

/-- The texts that a dump gives back do not depend on the rules. -/
theorem take_replacement_dumpedLines (rules : TagRules) (decoded : decode data = .ok commands) :
    ((dumpedLines rules data commands).map Line.replacement).take
        (textUnits (commands.flatMap Command.events)).length =
      (commands.flatMap Command.textUnits).map TextUnit.reread := by
  obtain ⟨extra, reread⟩ := map_replacement_split_dump rules decoded
  rw [dumpedLines, reread, textUnits_flatMap_events]
  apply List.take_left'
  apply List.length_map

/-- Dumps by any two rules lead to the same injection, but for warnings. -/
theorem outcome_dumpedLines (rules others : TagRules) (decoded : decode data = .ok commands) :
    (inject data (dumpedLines rules data commands)).map Injection.outcome =
      (inject data (dumpedLines others data commands)).map Injection.outcome := by
  apply outcome_inject_congr (transcript_of_decode decoded) (length_dumpedLines rules decoded)
    (length_dumpedLines others decoded)
  rw [take_replacement_dumpedLines rules decoded, take_replacement_dumpedLines others decoded]

/-- A round trip reports on the outcome of its injection and on the number of lines, and on nothing
else that the rules have a part in. -/
theorem verify_eq_of_decode (rules : TagRules) (decoded : decode data = .ok commands) :
    verify rules data =
      ((inject data (dumpedLines rules data commands)).map Injection.outcome).map fun outcome =>
        { size := data.length
          rebuiltSize := outcome.1.length
          lines := (commands.flatMap Command.textUnits).length
          firstDifference := firstDifferenceFrom 0 data outcome.1 } := by
  rw [verify_of_decode rules decoded]
  cases inject data (dumpedLines rules data commands) with
  | error problem => rfl
  | ok injection =>
    show Except.ok (RoundTrip.compare data (Dump.ofCommands rules data commands) injection) = _
    rw [RoundTrip.compare, lines_ofCommands]
    rfl

end Dumps

/-- Two dumps of the same bytes under different rules fail alike. If they do not fail they have the
same debug report and the same number of lines and units, and the lines of either one lead to the
same failure of an injection or to the same script, ledger and jump sites. So a round trip does not
depend on the rules at all. -/
theorem inject_under_any_rules (data : Bytes) (rules others : TagRules) :
    ((∃ fault, dump rules data = .error fault ∧ dump others data = .error fault) ∨
        ∃ first second, dump rules data = .ok first ∧ dump others data = .ok second ∧
          first.debug = second.debug ∧ first.lines = second.lines ∧ first.units = second.units ∧
          (inject data (Line.split first.text)).map Injection.outcome =
            (inject data (Line.split second.text)).map Injection.outcome) ∧
      verify rules data = verify others data := by
  cases decoded : decode data with
  | error fault =>
    have failed : ∀ rules, dump rules data = .error fault := by
      intro rules
      rw [dump, decoded]
    constructor
    · exact .inl ⟨fault, failed rules, failed others⟩
    · rw [verify, verify, failed rules, failed others]
  | ok commands =>
    have same := outcome_dumpedLines rules others decoded
    constructor
    · right
      refine ⟨_, _, dump_of_decode rules decoded, dump_of_decode others decoded, rfl, ?_, rfl, same⟩
      rw [lines_ofCommands, lines_ofCommands]
    · rw [verify_eq_of_decode rules decoded, verify_eq_of_decode others decoded, same]

end NovelScript
