import NovelScript.Proofs.DumpLines
import NovelScript.Proofs.Layout
import NovelScript.RoundTrip

/-!
# Which scripts come back

A round trip dumps a script and injects the untouched dump. Every line puts back what its text is
reread as. If all texts survive that, nothing moves, every enrolled word is corrected to itself and
the script comes back byte for byte (`inject_of_survives`). If one does not, it comes back shorter
and none comes back longer, so the script does not come back (`length_script_lt`).

`round_trip` puts the two together.
-/

set_option autoImplicit false

namespace NovelScript

/-! ## The first difference -/

/-- Two byte strings have no first difference exactly when they are equal. -/
theorem firstDifferenceFrom_eq_none_iff {address : Nat} {left right : Bytes} :
    firstDifferenceFrom address left right = none ↔ left = right := by
  fun_induction firstDifferenceFrom address left right with
  | case1 => simp
  | case2 => simp
  | case3 => simp
  | case4 address a left right ih => simp [ih]
  | case5 address a left b right differs => simp [differs]

/-- A difference that is found is one, and there is none before it. -/
theorem firstDifferenceFrom_eq_some {address difference : Nat} {left right : Bytes}
    (found : firstDifferenceFrom address left right = some difference) :
    ∃ count, difference = address + count ∧ left[count]? ≠ right[count]? ∧
      ∀ index < count, left[index]? = right[index]? := by
  fun_induction firstDifferenceFrom address left right with
  | case1 => simp at found
  | case2 address b right =>
    simp only [Option.some.injEq] at found
    exact ⟨0, by omega, by simp, by simp⟩
  | case3 address a left =>
    simp only [Option.some.injEq] at found
    exact ⟨0, by omega, by simp, by simp⟩
  | case4 address a left right ih =>
    obtain ⟨count, hcount, differs, before⟩ := ih found
    refine ⟨count + 1, by omega, by simpa using differs, ?_⟩
    intro index early
    cases index with
    | zero => rfl
    | succ index => simpa using before index (by omega)
  | case5 address a left b right differs =>
    simp only [Option.some.injEq] at found
    exact ⟨0, by omega, by simpa using differs, by simp⟩

/-- The first difference of two byte strings is the least address at which they differ. -/
theorem firstDifference_eq_some {difference : Nat} {left right : Bytes}
    (found : firstDifferenceFrom 0 left right = some difference) :
    left[difference]? ≠ right[difference]? ∧
      ∀ index < difference, left[index]? = right[index]? := by
  obtain ⟨count, rfl, differs, before⟩ := firstDifferenceFrom_eq_some found
  rw [Nat.zero_add]
  exact ⟨differs, before⟩

/-! ## Injecting texts as they are reread -/

/-- The lines of the dump of a script. -/
def dumpedLines (rules : TagRules) (data : Bytes) (commands : List Command) : List Bytes :=
  Line.split (Dump.ofCommands rules data commands).text

section Rereading

variable {rules : TagRules} {data : Bytes} {commands : List Command}

/-- A round trip of a script injects the lines of its dump. -/
theorem verify_of_decode (rules : TagRules) (decoded : decode data = .ok commands) :
    verify rules data =
      match inject data (dumpedLines rules data commands) with
      | .error problem => .error problem
      | .ok injection =>
        .ok (RoundTrip.compare data (Dump.ofCommands rules data commands) injection) := by
  rw [verify, dump, decoded]
  rfl

/-- A dump has a line for each text unit. -/
theorem length_dumpedLines (rules : TagRules) (decoded : decode data = .ok commands) :
    (textUnits (commands.flatMap Command.events)).length ≤
      (dumpedLines rules data commands).length := by
  obtain ⟨extra, hlines⟩ := map_replacement_split_dump rules decoded
  have lengths := congrArg List.length hlines
  rw [List.length_map, List.length_append, List.length_map] at lengths
  rw [textUnits_flatMap_events, dumpedLines]
  omega

/-- Every text is replaced by what it is reread as. -/
theorem replacements_dumpedLines (decoded : decode data = .ok commands) :
    replacements data (dumpedLines rules data commands) =
      (commands.flatMap Command.textUnits).map fun unit => (unit, unit.reread) := by
  obtain ⟨extra, hlines⟩ := map_replacement_split_dump rules decoded
  have hevents := (transcript_iff.mp (transcript_of_decode decoded)).1
  rw [replacements, dumpedLines, hlines, hevents, textUnits_flatMap_events]
  induction commands.flatMap Command.textUnits with
  | nil => rfl
  | cons unit units ih => simp [ih]

/-- Injecting a dump records, for each text unit, the old text and the one that was read back. -/
theorem sentences_dumpedLines (decoded : decode data = .ok commands) :
    (Ledger.ofPlacements (Placement.ofLines (dumpedLines rules data commands)
      (commands.flatMap Command.events))).sentences =
      (commands.flatMap Command.textUnits).map fun unit =>
        { address := unit.textAddress
          oldLength := unit.text.length
          newLength := unit.reread.length } := by
  rw [sentences_eq (transcript_of_decode decoded) (length_dumpedLines rules decoded),
    replacements_dumpedLines decoded, List.map_map]
  rfl

/-! ## Scripts whose texts survive -/

/-- An event that gets its own text again is the same event. -/
theorem Placement.Kind.new_eq_of_text {p : Placement} {unit : TextUnit} (kind : p.Kind data)
    (replaced : p.replaced? = some (unit, unit.text)) : p.new = p.old := by
  cases kind with
  | string source target head argument tag old new =>
    simp only [Placement.replaced?, Event.textUnit?, Operand.textUnit?, Value.payload?, Event.text?,
      Option.map_some, Option.getD_some, TextUnit.text, Option.some.injEq, Prod.mk.injEq]
      at replaced
    obtain ⟨rfl, rfl⟩ := replaced
    rfl
  | run source target old new =>
    simp only [Placement.replaced?, Event.textUnit?, Event.text?, Option.map_some,
      Option.getD_some, TextUnit.text, Option.some.injEq, Prod.mk.injEq] at replaced
    obtain ⟨rfl, rfl⟩ := replaced
    rfl
  | word => rfl
  | plain => rfl

/-- If no text changes its length, no address moves. -/
theorem Ledger.deltaBefore_eq_zero {ledger : Ledger} (still : ∀ s ∈ ledger.sentences, s.delta = 0)
    (address : Nat) : ledger.deltaBefore address = 0 :=
  Sentence.deltas_eq_zero fun s member =>
    still s ((List.takeWhile_sublist _).subset member)

/-- If no text changes its length, relocation changes no event. -/
theorem Event.relocated_eq_self {ledger : Ledger} (still : ∀ s ∈ ledger.sentences, s.delta = 0)
    (event : Event) : event.relocated data ledger = event := by
  cases h : event.enrolled? data with
  | none => exact Event.relocated_of_none h
  | some word =>
    obtain ⟨head, argument, operand, rfl, enrolled⟩ := Event.enrolled?_eq_some_iff.mp h
    obtain ⟨hvalue, -, -⟩ := Operand.enrolled?_eq_some_iff.mp enrolled
    rw [Event.relocated, Operand.relocated_of_some enrolled, Ledger.corrected,
      Ledger.deltaBefore_eq_zero still, Int.add_zero, BitVec.ofInt_toInt, ← hvalue]

/-- If every text survives, injecting the dump changes no length. -/
theorem delta_of_survives (rules : TagRules) (decoded : decode data = .ok commands)
    (survives : ∀ unit ∈ commands.flatMap Command.textUnits, unit.Survives) :
    ∀ s ∈ (Ledger.ofPlacements (Placement.ofLines (dumpedLines rules data commands)
      (commands.flatMap Command.events))).sentences, s.delta = 0 := by
  rw [sentences_dumpedLines decoded]
  intro s recorded
  obtain ⟨unit, member, rfl⟩ := List.mem_map.mp recorded
  rw [Sentence.delta, TextUnit.reread_eq_text (survives unit member)]
  exact Int.sub_self _

/-- If every text survives, injecting the dump changes no event. -/
theorem new_eq_of_survives (decoded : decode data = .ok commands)
    (survives : ∀ unit ∈ commands.flatMap Command.textUnits, unit.Survives) {p : Placement}
    (member : p ∈ Placement.ofLines (dumpedLines rules data commands)
      (commands.flatMap Command.events)) : p.new = p.old := by
  have transcript := transcript_of_decode decoded
  have kind : p.Kind data := kind_of_mem transcript.trace member
  cases replaced : p.replaced? with
  | none => exact kind.new_eq replaced
  | some pair =>
    have hmem := (mem_replacements_iff transcript (length_dumpedLines rules decoded)).mpr
      ⟨p, member, replaced⟩
    rw [replacements_dumpedLines decoded] at hmem
    obtain ⟨unit, hunit, same⟩ := List.mem_map.mp hmem
    have own : pair = (unit, unit.text) := by
      rw [← TextUnit.reread_eq_text (survives unit hunit)]
      exact same.symm
    exact kind.new_eq_of_text (own ▸ replaced)

/-- A script whose texts all survive comes back as it was. -/
theorem inject_of_survives (rules : TagRules) (decoded : decode data = .ok commands)
    (survives : ∀ unit ∈ commands.flatMap Command.textUnits, unit.Survives) :
    ∃ injection, inject data (dumpedLines rules data commands) = .ok injection ∧
      injection.script = data := by
  have transcript := transcript_of_decode decoded
  have still := delta_of_survives rules decoded survives
  have reachable : Reachable data (dumpedLines rules data commands)
      (commands.flatMap Command.events) := by
    intro event member word enrolled
    obtain ⟨_, _, _, -, henrolled⟩ := Event.enrolled?_eq_some_iff.mp enrolled
    obtain ⟨-, positive, -⟩ := Operand.enrolled?_eq_some_iff.mp henrolled
    have high := BitVec.toInt_lt (x := word)
    rw [Ledger.corrected, Ledger.deltaBefore_eq_zero still, Int.add_zero]
    constructor
    · omega
    · omega
  refine ⟨_, inject_of_reachable transcript (length_dumpedLines rules decoded) reachable, ?_⟩
  -- Nothing moves, so the corrected words are the old ones too.
  calc (Injection.ofEvents data (dumpedLines rules data commands)
        (commands.flatMap Command.events)).script
    _ = (Placement.ofLines (dumpedLines rules data commands)
          (commands.flatMap Command.events)).flatMap fun p => p.old.bytes := by
      apply List.flatMap_congr
      intro p member
      rw [Event.relocated_eq_self still, new_eq_of_survives decoded survives member]
    _ = data := (flatMap_old_placements _ _ _ _).trans transcript.bytes

/-! ## Scripts with a text that does not survive -/

/-- A script with a text that does not survive comes back shorter, if it comes back at all. -/
theorem length_script_lt (rules : TagRules) (decoded : decode data = .ok commands)
    (lost : ∃ unit ∈ commands.flatMap Command.textUnits, ¬ unit.Survives) :
    (Injection.ofEvents data (dumpedLines rules data commands)
      (commands.flatMap Command.events)).script.length < data.length := by
  have transcript := transcript_of_decode decoded
  have grown := length_script (dumpedLines rules data commands) transcript
  have shrunk : (Ledger.ofPlacements (Placement.ofLines (dumpedLines rules data commands)
      (commands.flatMap Command.events))).totalDelta < 0 := by
    rw [Ledger.totalDelta, sentences_dumpedLines decoded]
    obtain ⟨unit, member, lost⟩ := lost
    apply Sentence.deltas_neg
    · intro s recorded
      obtain ⟨other, -, rfl⟩ := List.mem_map.mp recorded
      have notLonger := other.length_reread_le
      simp only [Sentence.delta]
      omega
    · refine ⟨_, List.mem_map_of_mem member, ?_⟩
      have shorter := TextUnit.length_reread_lt lost
      simp only [Sentence.delta]
      omega
  omega

/-- What a round trip finds when a text does not survive. -/
theorem verify_of_lost (rules : TagRules) (decoded : decode data = .ok commands)
    (lost : ∃ unit ∈ commands.flatMap Command.textUnits, ¬ unit.Survives) :
    (∃ site value, verify rules data = .error (.jumpOutOfRange site value)) ∨
      ∃ injection report difference,
        inject data (dumpedLines rules data commands) = .ok injection ∧
        verify rules data = .ok report ∧ report.size = data.length ∧
        report.rebuiltSize = injection.script.length ∧ report.rebuiltSize < report.size ∧
        report.firstDifference = some difference ∧
        data[difference]? ≠ injection.script[difference]? ∧
        ∀ index < difference, data[index]? = injection.script[index]? := by
  have transcript := transcript_of_decode decoded
  have enough := length_dumpedLines rules decoded
  have hverify := verify_of_decode rules decoded
  by_cases reachable : Reachable data (dumpedLines rules data commands)
      (commands.flatMap Command.events)
  · right
    have injected := inject_of_reachable transcript enough reachable
    have shorter := length_script_lt rules decoded lost
    rw [injected] at hverify
    obtain ⟨difference, found⟩ : ∃ difference, firstDifferenceFrom 0 data
        (Injection.ofEvents data (dumpedLines rules data commands)
          (commands.flatMap Command.events)).script = some difference := by
      rw [← Option.ne_none_iff_exists', ne_eq, firstDifferenceFrom_eq_none_iff]
      intro same
      rw [← same] at shorter
      exact Nat.lt_irrefl _ shorter
    obtain ⟨differs, before⟩ := firstDifference_eq_some found
    exact ⟨_, _, difference, injected, hverify, rfl, rfl, shorter, found, differs, before⟩
  · left
    obtain ⟨site, value, failed⟩ := inject_of_not_reachable transcript enough reachable
    rw [failed] at hverify
    exact ⟨site, value, hverify⟩

/-- A byte string that comes back unchanged is a script whose texts all survive. -/
theorem survives_of_verify {report : RoundTrip} (verified : verify rules data = .ok report)
    (identical : report.firstDifference = none) :
    ∃ commands, decode data = .ok commands ∧
      ∀ unit ∈ commands.flatMap Command.textUnits, unit.Survives := by
  cases decoded : decode data with
  | error fault =>
    rw [verify, dump, decoded] at verified
    simp at verified
  | ok commands =>
    refine ⟨commands, rfl, ?_⟩
    intro unit member
    by_contra lost
    rcases verify_of_lost rules decoded ⟨unit, member, lost⟩ with
      ⟨site, value, failed⟩ | ⟨_, other, difference, -, again, -, -, -, found, -, -⟩
    · simp [failed] at verified
    · rw [again, Except.ok.injEq] at verified
      rw [verified, identical] at found
      simp at found

end Rereading

/-! ## Round trips -/

/-- A round trip brings a script back exactly when all its texts survive. The bytes that come back
are then those of the script. Otherwise a jump leaves the range, or fewer bytes come back and the
report names the least address at which they differ, a missing byte included. -/
theorem round_trip (rules : TagRules) (data : Bytes) :
    ((∃ report, verify rules data = .ok report ∧ report.firstDifference = none) ↔
        ∃ commands, decode data = .ok commands ∧
          ∀ unit ∈ commands.flatMap Command.textUnits, unit.Survives) ∧
      ∀ commands, decode data = .ok commands →
        ((∀ unit ∈ commands.flatMap Command.textUnits, unit.Survives) →
          ∃ injection, inject data (dumpedLines rules data commands) = .ok injection ∧
            injection.script = data) ∧
        ((∃ unit ∈ commands.flatMap Command.textUnits, ¬ unit.Survives) →
          (∃ site value, verify rules data = .error (.jumpOutOfRange site value)) ∨
          ∃ injection report difference,
            inject data (dumpedLines rules data commands) = .ok injection ∧
            verify rules data = .ok report ∧ report.size = data.length ∧
            report.rebuiltSize = injection.script.length ∧ report.rebuiltSize < report.size ∧
            report.firstDifference = some difference ∧
            data[difference]? ≠ injection.script[difference]? ∧
            ∀ index < difference, data[index]? = injection.script[index]?) := by
  refine ⟨⟨?_, ?_⟩, ?_⟩
  · rintro ⟨report, verified, identical⟩
    exact survives_of_verify verified identical
  · rintro ⟨commands, decoded, survives⟩
    obtain ⟨injection, injected, same⟩ := inject_of_survives rules decoded survives
    have hverify := verify_of_decode rules decoded
    rw [injected] at hverify
    exact ⟨_, hverify, firstDifferenceFrom_eq_none_iff.mpr same.symm⟩
  · intro commands decoded
    exact ⟨inject_of_survives rules decoded, verify_of_lost rules decoded⟩

/-- A plain run of raw text comes back; one that opens like a marked line does not. -/
theorem round_trip_runs :
    (∃ report, verify .standard [0x61] = .ok report ∧ report.firstDifference = none) ∧
      ¬ ∃ report, verify .standard (Bytes.ascii "[Spec1]a") = .ok report ∧
        report.firstDifference = none := by
  constructor
  · have decoded : decode [0x61] = .ok [.text ⟨0, [0x61]⟩] := by decide +kernel
    refine (round_trip .standard [0x61]).1.mpr ⟨_, decoded, ?_⟩
    intro unit member
    obtain rfl := List.mem_singleton.mp member
    exact ⟨by decide +kernel, by decide +kernel⟩
  · have decoded : decode (Bytes.ascii "[Spec1]a") = .ok [.text ⟨0, Bytes.ascii "[Spec1]a"⟩] := by
      decide +kernel
    rw [(round_trip .standard (Bytes.ascii "[Spec1]a")).1]
    rintro ⟨commands, again, survives⟩
    rw [decoded, Except.ok.injEq] at again
    subst again
    exact absurd (survives _ List.mem_cons_self).1 (by decide +kernel)

end NovelScript
