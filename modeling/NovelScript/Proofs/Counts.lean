import NovelScript.Proofs.DumpLines
import NovelScript.Proofs.SubstitutionInvariant
import NovelScript.Summary

/-!
# Counting the same things

A summary counts texts, units and jump sites over the units of a script. A dump writes a line for
each text and reports on the jumps that it takes for plausible, and an injection takes a line for
each text and enrols jumps while it walks the bytes. The three are written apart from each other, and
this file says that they make the same decision on every unit and operand.

The operands that a walk meets are those of the units, in order (`filterMap_operand?_events`). An
operand is enrolled exactly if it is a plain 32-bit integer and the debug report announces it as an
absolute jump (`Operand.isSome_enrolled?`, `Report.announcesAbsolute_eq`). So the jump sites of an
injection can be read off the units (`jumps_of_sites`) and off the report (`sourceAddress_sites`),
whatever the lines.
-/

set_option autoImplicit false

namespace NovelScript

/-! ## Counts over units -/

/-- An operand is a text unit exactly when its value is a text. -/
theorem Operand.isSome_textUnit? (operand : Operand) :
    operand.textUnit?.isSome = operand.value.payload?.isSome :=
  Option.isSome_map

/-- A summary counts the text units of a script: its runs of raw text and its strings. -/
theorem Summary.textUnits_ofCommands (data : Bytes) (commands : List Command) :
    (Summary.ofCommands data commands).textUnits =
      (commands.flatMap Command.textUnits).length := by
  unfold Summary.textUnits Summary.ofCommands
  dsimp only
  induction commands with
  | nil => rfl
  | cons command commands ih =>
    rw [List.flatMap_cons, List.flatMap_cons, List.countP_append, List.countP_cons,
      List.length_append, ← ih]
    cases command with
    | terminator address =>
      simp [Command.operands, Command.textUnits]
    | instruction i =>
      have own : (i.operands.filterMap Operand.textUnit?).length =
          i.operands.countP fun operand => operand.value.payload?.isSome := by
        rw [List.length_filterMap_eq_countP]
        apply List.countP_congr
        intro operand _
        rw [operand.isSome_textUnit?]
      simp only [Command.operands, Command.textUnits, own, Bool.false_eq_true, if_false]
      omega
    | text run =>
      simp only [Command.operands, Command.textUnits, List.countP_nil, List.length_singleton,
        if_true]
      omega

/-- A summary counts every unit under one of the three kinds. -/
theorem Summary.units_ofCommands (data : Bytes) (commands : List Command) :
    (Summary.ofCommands data commands).terminators +
        (Summary.ofCommands data commands).instructions +
        (Summary.ofCommands data commands).textRuns = commands.length := by
  unfold Summary.ofCommands
  dsimp only
  induction commands with
  | nil => rfl
  | cons command commands ih =>
    rw [List.countP_cons, List.countP_cons, List.countP_cons, List.length_cons, ← ih]
    cases command <;> simp <;> omega

/-! ## The operands of a walk -/

/-- The operand of an event, if it has one. -/
def Event.operand? : Event → Option Operand
  | operand _ _ o => some o
  | _ => none

/-- The operands among the events of an argument are its operands, in order. -/
theorem Argument.filterMap_operand?_events (head : InstructionHead) (argument : Argument) :
    (argument.events head).filterMap Event.operand? = argument.operands := by
  simp [Argument.events, List.filterMap_cons, List.filterMap_map, Event.operand?,
    Function.comp_def]

/-- The operands among the events of a unit are its operands, in order. -/
theorem Command.filterMap_operand?_events (command : Command) :
    command.events.filterMap Event.operand? = command.operands := by
  cases command with
  | terminator => rfl
  | text => rfl
  | instruction i =>
    have arguments : (i.arguments.flatMap (Argument.events i.toInstructionHead)).filterMap
        Event.operand? = i.operands := by
      rw [List.filterMap_flatMap]
      apply List.flatMap_congr
      intro argument _
      exact argument.filterMap_operand?_events i.toInstructionHead
    simp [Command.events, Instruction.events, List.filterMap_cons, Event.operand?, arguments,
      Command.operands]

/-- The operands of the units of a script are those of its events. -/
theorem filterMap_operand?_events (commands : List Command) :
    (commands.flatMap Command.events).filterMap Event.operand? =
      commands.flatMap Command.operands := by
  rw [List.filterMap_flatMap]
  apply List.flatMap_congr
  intro command _
  exact command.filterMap_operand?_events

/-! ## Absolute jumps in the report -/

/-- Texts can be joined before or after they are turned into bytes. -/
theorem Bytes.ascii_append (left right : String) :
    Bytes.ascii (left ++ right) = Bytes.ascii left ++ Bytes.ascii right := by
  unfold Bytes.ascii
  rw [String.toList_append, List.map_append]

namespace Report

/-- What a line of the report on an absolute jump starts with. -/
def absoluteStem : Bytes :=
  Bytes.ascii "MaybeAbsoluteJump at "

/-- Whether one of the lines on an operand announces an absolute jump. -/
def announcesAbsolute (data : Bytes) (operand : Operand) : Bool :=
  (hintLines data operand).any absoluteStem.isPrefixOf

/-- A line that announces an absolute jump begins as all of them do. -/
theorem isPrefixOf_absolute (operand : Operand) (target : Nat) :
    absoluteStem.isPrefixOf (Bytes.ascii (hintLine operand (.absolute target))) = true := by
  rw [List.isPrefixOf_iff_prefix]
  unfold hintLine
  simp only [Bytes.ascii_append, List.append_assoc]
  exact List.prefix_append _ _

/-- A line does not begin like an absolute jump if it differs from that beginning already. -/
theorem isPrefixOf_append_eq_false {front : Bytes} (rest : Bytes) (shorter : ¬ absoluteStem <+: front)
    (longer : ¬ front <+: absoluteStem) : absoluteStem.isPrefixOf (front ++ rest) = false := by
  rw [Bool.eq_false_iff, ne_eq, List.isPrefixOf_iff_prefix]
  intro starts
  rcases List.prefix_or_prefix_of_prefix starts (List.prefix_append front rest) with inside | beyond
  · exact shorter inside
  · exact longer beyond

/-- A line that announces a relative jump does not begin like an absolute one. -/
theorem isPrefixOf_relative (operand : Operand) (target : Nat) :
    absoluteStem.isPrefixOf (Bytes.ascii (hintLine operand (.relative target))) = false := by
  unfold hintLine
  dsimp only
  split
  · simp only [Bytes.ascii_append, List.append_assoc]
    exact isPrefixOf_append_eq_false _ (by decide +kernel) (by decide +kernel)
  · simp only [Bytes.ascii_append, List.append_assoc]
    exact isPrefixOf_append_eq_false _ (by decide +kernel) (by decide +kernel)

/-- The report announces an absolute jump exactly for the operands that a summary counts as absolute
candidates. -/
theorem announcesAbsolute_eq (data : Bytes) (operand : Operand) :
    announcesAbsolute data operand = (operand.absoluteTarget? data).isSome := by
  unfold announcesAbsolute hintLines Operand.jumpHints Operand.absoluteTarget?
  cases operand.value.jumpWord? with
  | none => rfl
  | some word =>
    -- Behind the absolute reading come relative ones only, and their lines start otherwise.
    have relatives : ∀ readings : Option Nat,
        ((readings.map JumpHint.relative).toList.map fun hint =>
          Bytes.ascii (hintLine operand hint)).any absoluteStem.isPrefixOf = false := by
      intro readings
      cases readings with
      | none => rfl
      | some target => simp [isPrefixOf_relative]
    simp only [NovelScript.jumpHints, List.map_append, List.any_append, relatives, Bool.or_false,
      Option.bind_some]
    cases NovelScript.absoluteTarget? data word with
    | none => rfl
    | some target => simp [isPrefixOf_absolute]

end Report

/-! ## Jump sites -/

section Sites

variable {data : Bytes} {events : List Event} {lines : List Bytes}

/-- A jump is enrolled if its shape is relocated and its word is plausible as an address. -/
theorem Operand.isSome_enrolled? (data : Bytes) (operand : Operand) :
    (operand.enrolled? data).isSome =
      (operand.shape.isRelocatable && (operand.absoluteTarget? data).isSome) := by
  obtain ⟨tag, address, value⟩ := operand
  cases value with
  | int32 word =>
    simp only [Operand.enrolled?, Operand.shape, Value.shape, Shape.isRelocatable,
      Operand.absoluteTarget?, Value.jumpWord?, Option.bind_some, Bool.true_and]
    split
    case isTrue found => rw [found, Option.isSome_some]
    case isFalse lost => rw [Bool.eq_false_iff.mpr lost, Option.isSome_none]
  | _ => rfl

/-- Whether an event is enrolled is decided by its operand. -/
theorem Event.enrolled?_eq_bind (data : Bytes) (event : Event) :
    event.enrolled? data = event.operand?.bind (Operand.enrolled? data) := by
  cases event <;> rfl

/-- An operand is read at its own address. -/
theorem Event.Step.address_of_operand? {level after : Level} {address : Nat} {event : Event}
    {operand : Operand} (step : event.Step level address after)
    (has : event.operand? = some operand) : operand.address = address := by
  cases step with
  | operand head argument other =>
    rw [Option.some.inj has]
  | _ => simp [Event.operand?] at has

/-- The jumps among some operands that an injection enrols: where each word stands, and the word. -/
def enrolledJumps (data : Bytes) (operands : List Operand) : List (Nat × BitVec 32) :=
  operands.filterMap fun operand =>
    (operand.enrolled? data).map fun word => (operand.valueAddress, word)

/-- The jump site of a placement is the enrolled word of its operand. -/
theorem Placement.jump_site? {level after : Level} {source finish target : Nat}
    {texts : List Bytes} (trace : Trace level source events after finish) {p : Placement}
    (member : p ∈ placements source target events texts) :
    ((p.site? data).map fun site => (site.sourceAddress, site.target)) =
      p.old.operand?.bind fun operand =>
        (operand.enrolled? data).map fun word => (operand.valueAddress, word) := by
  obtain ⟨before, behind, step⟩ := exists_step_of_mem trace member
  rw [Placement.site?, Event.enrolled?_eq_bind]
  cases has : p.old.operand? with
  | none => rfl
  | some operand =>
    simp only [Option.bind_some, Operand.valueAddress, step.address_of_operand? has,
      Option.map_map]
    rfl

/-- The jump sites of an injection are the enrolled jumps of the script, whatever the lines. -/
theorem jumps_of_sites {commands : List Command} (decoded : decode data = .ok commands)
    (lines : List Bytes) :
    (((Placement.ofLines lines (commands.flatMap Command.events)).filterMap
        (Placement.site? data)).map fun site => (site.sourceAddress, site.target)) =
      enrolledJumps data (commands.flatMap Command.operands) := by
  have trace := (transcript_of_decode decoded).trace
  have hevents := map_old_placements 0 0 (commands.flatMap Command.events)
    (lines.map Line.replacement)
  calc (((Placement.ofLines lines (commands.flatMap Command.events)).filterMap
        (Placement.site? data)).map fun site => (site.sourceAddress, site.target))
    _ = (Placement.ofLines lines (commands.flatMap Command.events)).filterMap fun p =>
          p.old.operand?.bind fun operand =>
            (operand.enrolled? data).map fun word => (operand.valueAddress, word) := by
      rw [List.map_filterMap]
      apply List.filterMap_congr
      intro p member
      exact Placement.jump_site? trace member
    _ = enrolledJumps data ((commands.flatMap Command.events).filterMap Event.operand?) := by
      rw [enrolledJumps, List.filterMap_filterMap]
      conv => rhs; rw [← hevents, List.filterMap_map]
      rfl
    _ = enrolledJumps data (commands.flatMap Command.operands) := by
      rw [filterMap_operand?_events]

/-- The jump sites of an injection stand at the values of the enrolled operands, in order. -/
theorem sourceAddress_sites {commands : List Command} (decoded : decode data = .ok commands)
    (lines : List Bytes) :
    ((Placement.ofLines lines (commands.flatMap Command.events)).filterMap
        (Placement.site? data)).map JumpSite.sourceAddress =
      ((commands.flatMap Command.operands).filter fun operand =>
        (operand.enrolled? data).isSome).map Operand.valueAddress := by
  have jumps := congrArg (List.map Prod.fst) (jumps_of_sites decoded lines)
  rw [List.map_map] at jumps
  refine jumps.trans ?_
  rw [enrolledJumps, List.map_filterMap, ← List.filterMap_eq_map, List.filterMap_filter]
  apply List.filterMap_congr
  intro operand _
  cases operand.enrolled? data with
  | none => rfl
  | some word => rfl

end Sites

/-- The debug report begins with the lines that announce jumps, operand by operand. -/
theorem hintLines_prefix_debug (rules : TagRules) (data : Bytes) (commands : List Command) :
    (((commands.flatMap Command.operands).flatMap (Report.hintLines data)).flatMap fun line =>
        line ++ [Bytes.lf]) <+:
      (Dump.ofCommands rules data commands).debug := by
  show _ <+: Report.bytes data commands
  unfold Report.bytes Report.lines
  rw [List.flatMap_append]
  exact List.prefix_append _ _

/-- A summary counts as many texts as a dump of the script writes lines, and as many as any
injection into it replaces and takes lines for; its units are those of the dump; and the jumps that
an injection relocates are, in order, the plain 32-bit operands that the diagnostics at the front of
the debug report announce as absolute jumps, as many as the summary says. None of this depends on
the lines. -/
theorem counts_agree {data : Bytes} {commands : List Command} {lines : List Bytes}
    {out : Injection} (rules : TagRules) (decoded : decode data = .ok commands)
    (injected : inject data lines = .ok out) :
    ∃ summary dumped, summarize data = .ok summary ∧ dump rules data = .ok dumped ∧
      summary.textUnits = dumped.lines ∧ dumped.lines = out.ledger.size ∧
      out.ledger.size = (Substitution.run data lines).state.consumed ∧
      summary.terminators + summary.instructions + summary.textRuns = dumped.units ∧
      (((commands.flatMap Command.operands).flatMap (Report.hintLines data)).flatMap fun line =>
        line ++ [Bytes.lf]) <+: dumped.debug ∧
      out.sites.map JumpSite.sourceAddress =
        ((commands.flatMap Command.operands).filter fun operand =>
          operand.shape = .int32 && Report.announcesAbsolute data operand).map
            Operand.valueAddress ∧
      out.sites.length = summary.relocatableSites := by
  have transcript := transcript_of_decode decoded
  obtain ⟨events, again, enough, -, rfl⟩ := inject_eq_ok_iff.mp injected
  obtain rfl := transcript.unique again
  obtain ⟨last, walked, finished⟩ := Substitution.run_of_transcript transcript enough
  have sites := sourceAddress_sites decoded lines
  have announced : ∀ operand : Operand, (operand.enrolled? data).isSome =
      (operand.shape = .int32 && Report.announcesAbsolute data operand : Bool) := by
    intro operand
    rw [operand.isSome_enrolled? data, Report.announcesAbsolute_eq]
    congr 1
    cases operand.shape <;> rfl
  refine ⟨Summary.ofCommands data commands, _, by rw [summarize, decoded],
    dump_of_decode rules decoded, ?_, ?_, ?_, Summary.units_ofCommands data commands,
    hintLines_prefix_debug rules data commands, ?_, ?_⟩
  · rw [Summary.textUnits_ofCommands, lines_ofCommands]
  · rw [lines_ofCommands, ← textUnits_flatMap_events]
    exact (Substitution.size_ofPlacements lines _).symm
  · rw [walked]
    exact (Substitution.size_ofPlacements lines _).trans (congrArg Substitution.consumed finished).symm
  · rw [← List.filter_congr fun operand _ => announced operand]
    exact sites
  · have count := congrArg List.length sites
    rw [List.length_map, List.length_map, ← List.countP_eq_length_filter] at count
    refine count.trans (List.countP_congr ?_)
    intro operand _
    rw [operand.isSome_enrolled? data]

/-- A run of raw text, a string, and two operands with the address of the terminator: the report
announces both, and only the one that is no variant is relocated and counted as a site. -/
theorem counts_agree_two_jumps :
    let data : Bytes := [0x61, 0x62, 0x1B, 0, 1, 0, 4, 2, 0, 0, 0, 0x78, 0x79, 0xFF,
      1, 1, 27, 0, 0, 0, 0x11, 27, 0, 0, 0, 0xFF, 0xFF, 0x1A]
    ∃ out summary dumped, inject data [Bytes.ascii "abcd", Bytes.ascii "x"] = .ok out ∧
      summarize data = .ok summary ∧ dump .standard data = .ok dumped ∧
      summary.textUnits = 2 ∧ dumped.lines = 2 ∧ dumped.units = 3 ∧
      out.sites.map JumpSite.sourceAddress = [16] ∧ summary.relocatableSites = 1 := by
  intro data
  have decoded : decode data =
      .ok [.text ⟨0, [0x61, 0x62]⟩,
        .instruction ⟨⟨2, 0x100⟩, [⟨⟨5, 0, 1⟩, [⟨4, 6, .string [0x78, 0x79]⟩]⟩,
          ⟨⟨14, 1, 2⟩, [⟨1, 15, .int32 27⟩, ⟨0x11, 20, .int32Variant 1 27⟩]⟩], 27⟩,
        .terminator 27] := by
    decide +kernel
  have injected : inject data [Bytes.ascii "abcd", Bytes.ascii "x"] =
      .ok
        { script := [0x61, 0x62, 0x63, 0x64, 0x1B, 0, 1, 0, 4, 1, 0, 0, 0, 0x78, 0xFF,
            1, 1, 28, 0, 0, 0, 0x11, 27, 0, 0, 0, 0xFF, 0xFF, 0x1A]
          ledger := ⟨[⟨0, 2, 4⟩, ⟨11, 2, 1⟩]⟩
          sites := [⟨17, 16, 27⟩]
          warnings := [] } := by
    decide +kernel
  obtain ⟨summary, dumped, summarized, hdump, texts, lines, -, units, -, -, sites⟩ :=
    counts_agree .standard decoded injected
  have two : dumped.lines = 2 := lines
  have three : summary.terminators + summary.instructions + summary.textRuns = 3 := by
    rw [summarize, decoded, Except.ok.injEq] at summarized
    rw [← summarized]
    decide +kernel
  exact ⟨_, summary, dumped, injected, summarized, hdump, texts.trans two, two,
    units.symm.trans three, rfl, sites.symm⟩

end NovelScript
