import NovelScript.Proofs.Substitution

/-!
# Jumps follow their units

A plain 32-bit operand that holds the address of a terminator or of an instruction still holds the
address of that unit in the new script, wherever the operand and the unit have gone
(`jump_follows_unit`). Three facts meet here. The tag of the unit makes the address plausible, so
the operand is enrolled; the ledger counts exactly the texts before the unit, even an empty one
right in front of it; and relocation writes the sum where the operand was placed.

Address zero is never enrolled, but nothing stands in front of it, so the unit there cannot move.
-/

set_option autoImplicit false

namespace NovelScript

/-- The byte that announces a terminator or an instruction; raw text is announced by nothing. -/
def Command.tag? : Command → Option UInt8
  | terminator _ => some terminatorTag
  | instruction _ => some instructionTag
  | text _ => none

/-- The first event of a unit with a tag stands for that tag. -/
theorem Command.bytes_of_tag? {command : Command} {tag : UInt8} {first : Event}
    {more : List Event} (tagged : command.tag? = some tag)
    (hevents : command.events = first :: more) :
    first.textUnit? = none ∧ ∃ bytes, first.bytes = tag :: bytes := by
  cases command with
  | terminator address =>
    simp only [tag?, Option.some.injEq] at tagged
    simp only [Command.events, List.cons.injEq] at hevents
    rw [← hevents.1, ← tagged]
    exact ⟨rfl, [], rfl⟩
  | instruction i =>
    simp only [tag?, Option.some.injEq] at tagged
    simp only [Command.events, Instruction.events, List.cons_append, List.cons.injEq] at hevents
    rw [← hevents.1, ← tagged]
    exact ⟨rfl, _, rfl⟩
  | text run => simp [tag?] at tagged

/-- An address at which the tag of a unit stands is a plausible target. -/
theorem isPlausibleTarget_of_tag {data rest : Bytes} {command : Command} {tag : UInt8}
    {address : Nat} (tagged : command.tag? = some tag) (found : data.drop address = tag :: rest) :
    isPlausibleTarget data address = true := by
  have known : tag = instructionTag ∨ tag = terminatorTag := by
    cases command <;> simp_all [Command.tag?]
  rcases known with rfl | rfl <;> simp [isPlausibleTarget, found]

/-- A word that is an address when it is read with its sign is that address without it. -/
theorem toNat_eq_of_toInt_eq {word : BitVec 32} {address : Nat} (aims : word.toInt = address) :
    word.toNat = address := by
  have unsigned : word.toInt = word.toNat := toInt_eq_toNat_of_nonneg (by omega)
  omega

variable {data : Bytes} {lines : List Bytes} {events : List Event}

/-- A unit starts behind the bytes of all events before it. -/
theorem address_eq {seen more : List Event} {first : Event} {after : Level} {finish : Nat}
    (trace : Trace .units 0 events after finish) (split : events = seen ++ first :: more)
    (starts : first.startsUnit = true) : first.address = (seen.flatMap Event.bytes).length := by
  subst split
  obtain ⟨_, _, step⟩ := Substitution.step_of_trace trace
  exact step.address_eq starts

/-- A unit with a tag starts in the new script where it was placed, with its tag. -/
theorem script_at_unit {seen more : List Event} {first : Event} {tag : UInt8} {bytes : Bytes}
    (split : events = seen ++ first :: more) (spelled : first.bytes = tag :: bytes)
    (textless : first.textUnit? = none) (starts : first.startsUnit = true) :
    (Injection.ofEvents data lines events).script[(emitted lines seen).length]? = some tag := by
  have member := placementAt_mem lines seen first more
  rw [← split] at member
  obtain ⟨rest, hscript⟩ := drop_script_of_mem data member
  have hnew : (placementAt lines seen first).new = first := Event.retext_of_none textless
  have plain : first.enrolled? data = none := by
    cases first <;> first | rfl | simp [Event.startsUnit] at starts
  rw [hnew, Event.relocated_of_none plain, spelled, List.cons_append] at hscript
  rw [← List.head?_drop]
  exact congrArg List.head? hscript

/-- In the new script the new word of a jump stands behind its tag. -/
theorem script_at_word {earlier later : List Event} {head : InstructionHead}
    {argument : ArgumentHead} {operand : Operand} {word new : BitVec 32}
    (split : events = earlier ++ .operand head argument operand :: later)
    (hvalue : operand.value = .int32 word)
    (hnew : (operand.relocated data (.ofPlacements (Placement.ofLines lines events))).value =
      .int32 new) :
    ((Injection.ofEvents data lines events).script.drop ((emitted lines earlier).length + 1)).take
      4 = LittleEndian.encode 4 new.toNat := by
  have member := placementAt_mem lines earlier (.operand head argument operand) later
  rw [← split] at member
  obtain ⟨rest, hscript⟩ := drop_script_of_mem data member
  have textless : (Event.operand head argument operand).textUnit? = none := by
    simp [Event.textUnit?, Operand.textUnit?, hvalue, Value.payload?]
  have kept : (placementAt lines earlier (.operand head argument operand)).new =
      .operand head argument operand := Event.retext_of_none textless
  rw [kept, Event.relocated, Event.bytes, Operand.bytes, hnew, Value.bytes, List.cons_append]
    at hscript
  have hslot := congrArg (List.drop 1) hscript
  rw [List.drop_drop, List.drop_one, List.tail_cons] at hslot
  have width : (LittleEndian.encode 4 new.toNat).length = 4 := LittleEndian.length_encode 4 _
  exact (congrArg (List.take 4) hslot).trans (List.take_left' width)

/-- The start of a unit, corrected by the ledger, is where that unit starts in the new script. -/
theorem address_add_deltaBefore (lines : List Bytes) {seen more : List Event} {first : Event}
    {after : Level} {finish : Nat} (trace : Trace .units 0 events after finish)
    (split : events = seen ++ first :: more) (starts : first.startsUnit = true) :
    first.address + (Ledger.ofPlacements (Placement.ofLines lines events)).deltaBefore first.address
      = (emitted lines seen).length := by
  have member := placementAt_mem lines seen first more
  rw [← split] at member
  have moved := deltaBefore_of_startsUnit trace member starts
  simp only [placementAt] at moved
  rw [address_eq trace split starts, Placement.ofLines, moved]
  omega

/-- An operand that holds the address of a unit with a tag is corrected to where the unit was
placed. -/
theorem relocated_of_aims {seen more : List Event} {first : Event} {command : Command}
    {tag : UInt8} {bytes : Bytes} {operand : Operand} {word : BitVec 32}
    (transcript : Transcript data events) (split : events = seen ++ first :: more)
    (spelled : first.bytes = tag :: bytes) (starts : first.startsUnit = true)
    (tagged : command.tag? = some tag) (hvalue : operand.value = .int32 word)
    (aims : word.toInt = first.address)
    (fits : ∀ found, operand.enrolled? data = some found →
      IsWord ((Ledger.ofPlacements (Placement.ofLines lines events)).corrected found)) :
    ∃ new : BitVec 32, new.toNat = (emitted lines seen).length ∧
      (operand.relocated data (.ofPlacements (Placement.ofLines lines events))).value =
        .int32 new := by
  have moved := address_add_deltaBefore lines transcript.trace split starts
  have unsigned := toNat_eq_of_toInt_eq aims
  by_cases positive : 0 < word.toInt
  · have hdrop : data.drop first.address = tag :: (bytes ++ more.flatMap Event.bytes) := by
      rw [address_eq transcript.trace split starts, ← transcript.bytes, split,
        List.flatMap_append, List.drop_left, List.flatMap_cons, spelled, List.cons_append]
    -- The tag makes the address plausible, so the operand is enrolled.
    have likely := isPlausibleTarget_of_tag tagged hdrop
    have enrolled : operand.enrolled? data = some word :=
      Operand.enrolled?_eq_some_iff.mpr ⟨hvalue, positive, unsigned ▸ likely⟩
    have hcorrected : (Ledger.ofPlacements (Placement.ofLines lines events)).corrected word =
        (emitted lines seen).length := by
      rw [Ledger.corrected, aims, unsigned, moved]
    refine ⟨BitVec.ofInt 32 (emitted lines seen).length, ?_, ?_⟩
    · have hfits := fits word enrolled
      rw [hcorrected] at hfits
      exact hfits.toNat_ofInt
    · rw [Operand.relocated_of_some enrolled, hcorrected]
  · -- Nothing stands in front of address zero.
    have zero : first.address = 0 := by omega
    have plain : operand.enrolled? data = none := by
      rw [Option.eq_none_iff_forall_ne_some]
      intro found enrolled
      obtain ⟨hfound, hpositive, -⟩ := Operand.enrolled?_eq_some_iff.mp enrolled
      rw [hvalue, Value.int32.injEq] at hfound
      exact positive (hfound ▸ hpositive)
    refine ⟨word, ?_, ?_⟩
    · have still := Ledger.deltaBefore_zero (.ofPlacements (Placement.ofLines lines events))
      rw [zero] at moved
      omega
    · rw [Operand.relocated_of_none plain, hvalue]

/-- A plain 32-bit operand whose value is the address of a terminator or an instruction holds, in
the new script, the address at which the bytes put in place of that unit begin, and the tag of the
unit stands there. -/
theorem jump_follows_unit {out : Injection} {before after : List Command} {target : Command}
    {tag : UInt8} {earlier later : List Event} {head : InstructionHead} {argument : ArgumentHead}
    {operand : Operand} {word : BitVec 32}
    (decoded : decode data = .ok (before ++ target :: after))
    (injected : inject data lines = .ok out) (tagged : target.tag? = some tag)
    (met : NovelScript.events data = earlier ++ .operand head argument operand :: later)
    (hvalue : operand.value = .int32 word) (aims : word.toInt = target.address) :
    (emitted lines (before.flatMap Command.events)).length < 0x100000000 ∧
      (out.script.drop ((emitted lines earlier).length + 1)).take 4 =
        LittleEndian.encode 4 (emitted lines (before.flatMap Command.events)).length ∧
      out.script[(emitted lines (before.flatMap Command.events)).length]? = some tag := by
  obtain ⟨events, transcript, -, reachable, rfl⟩ := inject_eq_ok_iff.mp injected
  have hmet : events = earlier ++ .operand head argument operand :: later :=
    (transcript_iff.mp transcript).1.symm.trans met
  obtain ⟨first, more, hfirst, starts, haddress⟩ := target.exists_events_eq_cons
  obtain ⟨textless, bytes, spelled⟩ := Command.bytes_of_tag? tagged hfirst
  have split : events =
      before.flatMap Command.events ++ first :: (more ++ after.flatMap Command.events) := by
    rw [transcript.unique (transcript_of_decode decoded), List.flatMap_append, List.flatMap_cons,
      hfirst, List.cons_append]
  have fits := reachable (.operand head argument operand) (by simp [hmet])
  obtain ⟨new, hnew, hrelocated⟩ := relocated_of_aims transcript split spelled starts tagged hvalue
    (haddress ▸ aims) fits
  refine ⟨hnew ▸ new.isLt, ?_, script_at_unit split spelled textless starts⟩
  rw [script_at_word hmet hvalue hrelocated, hnew]

/-- A jump over a string to the terminator behind it: the string grows by two bytes, and so does the
address in front of it. -/
theorem jump_follows_unit_over_string :
    ∃ out,
      inject [0x1B, 0, 0, 1, 1, 17, 0, 0, 0, 4, 1, 0, 0, 0, 0x61, 0xFF, 0xFF, 0x1A]
          [[0x61, 0x62, 0x63]] = .ok out ∧
        (out.script.drop 5).take 4 = [19, 0, 0, 0] ∧ out.script[19]? = some terminatorTag := by
  have decoded :
      decode [0x1B, 0, 0, 1, 1, 17, 0, 0, 0, 4, 1, 0, 0, 0, 0x61, 0xFF, 0xFF, 0x1A] =
        .ok ([.instruction ⟨⟨0, 0⟩,
          [⟨⟨3, 1, 1⟩, [⟨1, 4, .int32 17⟩, ⟨4, 9, .string [0x61]⟩]⟩], 17⟩] ++
          .terminator 17 :: []) := by
    decide +kernel
  have met :
      events [0x1B, 0, 0, 1, 1, 17, 0, 0, 0, 4, 1, 0, 0, 0, 0x61, 0xFF, 0xFF, 0x1A] =
        [.instructionStart ⟨0, 0⟩, .argumentStart ⟨3, 1, 1⟩] ++
          .operand ⟨0, 0⟩ ⟨3, 1, 1⟩ ⟨1, 4, .int32 17⟩ ::
            [.operand ⟨0, 0⟩ ⟨3, 1, 1⟩ ⟨4, 9, .string [0x61]⟩, .argumentEnd ⟨3, 1, 1⟩,
              .instructionEnd ⟨0, 0⟩ 17, .terminator 17] := by
    decide +kernel
  have injected :
      inject [0x1B, 0, 0, 1, 1, 17, 0, 0, 0, 4, 1, 0, 0, 0, 0x61, 0xFF, 0xFF, 0x1A]
          [[0x61, 0x62, 0x63]] =
        .ok
          { script := [0x1B, 0, 0, 1, 1, 19, 0, 0, 0, 4, 3, 0, 0, 0, 0x61, 0x62, 0x63, 0xFF, 0xFF,
              0x1A]
            ledger := ⟨[⟨14, 1, 3⟩]⟩
            sites := [⟨5, 5, 17⟩]
            warnings := [] } := by
    decide +kernel
  obtain ⟨-, slot, tag⟩ := jump_follows_unit decoded injected rfl met rfl (by decide)
  exact ⟨_, injected, slot, tag⟩

end NovelScript
