import Mathlib.Data.List.Forall2
import NovelScript.Proofs.Rebuild

/-!
# An injection keeps the structure of a script

Decoding a new script gives the units of the old one again, in the same order and with the same
parts. Every address has moved by the texts that have ended there, every text is the one of its
line, every enrolled word follows its target, and nothing else has changed. `Command.Follows` says
so of two units, and `decode_of_inject` of two scripts.

The new events are known already; what is left is that the builder treats related events in the same
way (`Builder.Follows.add`).
-/

set_option autoImplicit false

namespace NovelScript

/-- Whether an operand of a new script is the one that an operand of the old script has become. -/
structure Operand.Follows (out : Injection) (old new : Operand) : Prop where
  /-- The tag is the same. -/
  tag : new.tag = old.tag
  /-- The layout of the value is the same. -/
  shape : new.shape = old.shape
  /-- The operand has moved. -/
  address : new.address = out.ledger.shiftPast old.address
  /-- The value has moved. -/
  valueAddress : new.valueAddress = out.ledger.shiftPast old.valueAddress
  /-- The end has moved. -/
  finish : new.finish = out.ledger.shiftPast old.finish
  /-- An enrolled word follows its target. -/
  enrolled : ∀ site ∈ out.sites, site.sourceAddress = old.valueAddress →
    old.value = .int32 site.target ∧
      new.value = .int32 (BitVec.ofInt 32 (out.ledger.corrected site.target))
  /-- A value that is neither enrolled nor a text stays as it is. -/
  other : (∀ site ∈ out.sites, site.sourceAddress ≠ old.valueAddress) →
    old.value.payload? = none → new.value = old.value

/-- Whether the head of an argument is the one that an old head has become. -/
structure ArgumentHead.Follows (out : Injection) (old new : ArgumentHead) : Prop where
  /-- The id is the same. -/
  id : new.id = old.id
  /-- The position in the instruction is the same. -/
  ordinal : new.ordinal = old.ordinal
  /-- The argument has moved. -/
  address : new.address = out.ledger.shiftPast old.address

/-- Whether an argument is the one that an old argument has become. -/
structure Argument.Follows (out : Injection) (old new : Argument) : Prop where
  /-- The heads belong together. -/
  head : old.toArgumentHead.Follows out new.toArgumentHead
  /-- The operands belong together, one by one. -/
  operands : List.Forall₂ (Operand.Follows out) old.operands new.operands

/-- Whether a unit is the one that an old one has become: a unit of the same kind, whose start, end
and parts have moved. -/
inductive Command.Follows (out : Injection) : Command → Command → Prop
  | terminator {old new : Nat} (address : new = out.ledger.shiftPast old)
    (finish : (new + 1 : Nat) = out.ledger.shiftPast (old + 1)) :
    Follows out (.terminator old) (.terminator new)
  | instruction {old new : Instruction} (executor : new.executor = old.executor)
    (address : new.address = out.ledger.shiftPast old.address)
    (finish : new.finish = out.ledger.shiftPast old.finish)
    (arguments : List.Forall₂ (Argument.Follows out) old.arguments new.arguments) :
    Follows out (.instruction old) (.instruction new)
  | text {old new : TextRun} (address : new.address = out.ledger.shiftPast old.address)
    (finish : new.finish = out.ledger.shiftPast old.finish) :
    Follows out (.text old) (.text new)

/-- Where the units belong together, so do their operands, one by one. -/
theorem forall₂_operands {out : Injection} {commands rebuilt : List Command}
    (follows : List.Forall₂ (Command.Follows out) commands rebuilt) :
    List.Forall₂ (Operand.Follows out) (commands.flatMap Command.operands)
      (rebuilt.flatMap Command.operands) := by
  apply List.rel_flatMap follows
  intro old new unit
  cases unit with
  | terminator => exact .nil
  | instruction executor address finish arguments =>
    exact List.rel_flatMap arguments fun _ _ argument => argument.operands
  | text => exact .nil

/-! ## From events to units -/

/-- Whether an event is the one that an old one has become. -/
inductive Event.Follows (out : Injection) : Event → Event → Prop
  | terminator {old new : Nat} (unit : (Command.terminator old).Follows out (.terminator new)) :
    Follows out (.terminator old) (.terminator new)
  | instructionStart {old new : InstructionHead} (executor : new.executor = old.executor)
    (address : new.address = out.ledger.shiftPast old.address) :
    Follows out (.instructionStart old) (.instructionStart new)
  | argumentStart {old new : ArgumentHead} (head : old.Follows out new) :
    Follows out (.argumentStart old) (.argumentStart new)
  | operand (oldHead newHead : InstructionHead) (oldArgument newArgument : ArgumentHead)
    {old new : Operand} (operand : old.Follows out new) :
    Follows out (.operand oldHead oldArgument old) (.operand newHead newArgument new)
  | argumentEnd (old new : ArgumentHead) : Follows out (.argumentEnd old) (.argumentEnd new)
  | instructionEnd (old new : InstructionHead) {oldFinish newFinish : Nat}
    (finish : newFinish = out.ledger.shiftPast oldFinish) :
    Follows out (.instructionEnd old oldFinish) (.instructionEnd new newFinish)
  | text {old new : TextRun} (unit : (Command.text old).Follows out (.text new)) :
    Follows out (.text old) (.text new)

/-- Whether an open instruction is the one that an old one has become; where it ends is not known
yet. -/
structure Instruction.OpenFollows (out : Injection) (old new : Instruction) : Prop where
  /-- The executor is the same. -/
  executor : new.executor = old.executor
  /-- The instruction has moved. -/
  address : new.address = out.ledger.shiftPast old.address
  /-- The arguments belong together, one by one. -/
  arguments : List.Forall₂ (Argument.Follows out) old.arguments new.arguments

section Open

variable {out : Injection} {old new : Instruction}

/-- An open instruction still belongs to the old one when both get operands that belong together. -/
theorem Instruction.OpenFollows.addOperand {operand operand' : Operand}
    (follows : old.OpenFollows out new) (operands : operand.Follows out operand') :
    (old.addOperand operand).OpenFollows out (new.addOperand operand') := by
  obtain ⟨head, arguments, finish⟩ := old
  obtain ⟨head', arguments', finish'⟩ := new
  obtain ⟨executor, address, related⟩ := follows
  cases related with
  | nil => exact ⟨executor, address, .nil⟩
  | cons latest earlier =>
    exact ⟨executor, address, .cons ⟨latest.head, .cons operands latest.operands⟩ earlier⟩

/-- An instruction belongs to the old one when both are closed where they should be. -/
theorem Instruction.OpenFollows.closed {finish finish' : Nat} (follows : old.OpenFollows out new)
    (ended : finish' = out.ledger.shiftPast finish) :
    (Command.instruction (old.closed finish)).Follows out (.instruction (new.closed finish')) := by
  refine .instruction follows.executor follows.address ended ?_
  rw [Instruction.closed, Instruction.closed, List.forall₂_map_left_iff,
    List.forall₂_map_right_iff, List.forall₂_reverse_iff]
  refine follows.arguments.imp ?_
  intro a b related
  exact ⟨related.head, List.forall₂_reverse_iff.mpr related.operands⟩

end Open

namespace Builder

/-- Whether two builders hold parts that belong together. -/
structure Follows (out : Injection) (old new : Builder) : Prop where
  /-- The units belong together. -/
  commands : List.Forall₂ (Command.Follows out) old.commands new.commands
  /-- The open instructions belong together. -/
  pending : Option.Rel (Instruction.OpenFollows out) old.pending? new.pending?

variable {out : Injection} {old new : Builder}

/-- Events that belong together complete parts that do. -/
theorem Follows.add {event event' : Event} (follows : Follows out old new)
    (events : event.Follows out event') : Follows out (old.add event) (new.add event') := by
  obtain ⟨commands, pending?⟩ := old
  obtain ⟨commands', pending?'⟩ := new
  obtain ⟨related, pending⟩ := follows
  cases events with
  | terminator unit => exact ⟨.cons unit related, pending⟩
  | instructionStart executor address => exact ⟨related, .some ⟨executor, address, .nil⟩⟩
  | argumentStart head =>
    cases pending with
    | none => exact ⟨related, .none⟩
    | some opened =>
      have arguments := opened.arguments
      exact ⟨related, .some ⟨opened.executor, opened.address, .cons ⟨head, .nil⟩ arguments⟩⟩
  | operand _ _ _ _ operand =>
    cases pending with
    | none => exact ⟨related, .none⟩
    | some opened => exact ⟨related, .some (opened.addOperand operand)⟩
  | argumentEnd => exact ⟨related, pending⟩
  | instructionEnd _ _ finish =>
    cases pending with
    | none => exact ⟨related, .none⟩
    | some opened => exact ⟨.cons (opened.closed finish) related, .none⟩
  | text unit => exact ⟨.cons unit related, pending⟩

/-- Two builders that belong together still do so after events that belong together one by one. -/
theorem Follows.foldl_add {events events' : List Event} (follows : Follows out old new)
    (related : List.Forall₂ (Event.Follows out) events events') :
    Follows out (events.foldl Builder.add old) (events'.foldl Builder.add new) := by
  induction related generalizing old new with
  | nil => exact follows
  | cons event _ ih => exact ih (follows.add event)

/-- The units of event sequences that belong together do so one by one. -/
theorem forall₂_assemble {events events' : List Event}
    (related : List.Forall₂ (Event.Follows out) events events') :
    List.Forall₂ (Command.Follows out) (assemble events) (assemble events') := by
  have start : Follows out empty empty := ⟨.nil, .none⟩
  exact List.forall₂_reverse_iff.mpr (start.foldl_add related).commands

end Builder

/-! ## The events of a new script -/

section Events

variable {data : Bytes} {lines : List Bytes} {events : List Event} {p : Placement}

/-- Behind the end of the script every text has ended. -/
theorem deltaPast_of_le (transcript : Transcript data events) {address : Nat}
    (behind : data.length ≤ address) :
    (Ledger.ofPlacements (Placement.ofLines lines events)).deltaPast address =
      (Ledger.ofPlacements (Placement.ofLines lines events)).totalDelta := by
  rw [Ledger.deltaPast, Ledger.totalDelta]
  congr 1
  rw [List.filter_eq_self]
  intro sentence hsentence
  obtain ⟨q, hq, recorded⟩ := List.mem_filterMap.mp hsentence
  have ended := (sentence_bounds transcript.trace hq recorded).2
  have inside := ((tiles_source 0 0 events (lines.map Line.replacement)).bounds hq).2
  rw [flatMap_old_placements, transcript.bytes] at inside
  rw [decide_eq_true_eq, ended, Placement.finish]
  omega

/-- A new address is where the ledger takes the old one, which is never below zero. -/
theorem newAddress_eq (lines : List Bytes) (transcript : Transcript data events) (address : Nat) :
    ((Ledger.ofPlacements (Placement.ofLines lines events)).newAddress address : Int) =
      (Ledger.ofPlacements (Placement.ofLines lines events)).shiftPast address := by
  rw [Ledger.newAddress]
  apply Int.toNat_of_nonneg
  by_cases inside : address < data.length
  · rw [← transcript.bytes, ← flatMap_old_placements 0 0 events (lines.map Line.replacement)]
      at inside
    obtain ⟨p, member, low, high⟩ :=
      (tiles_source 0 0 events (lines.map Line.replacement)).exists_mem (Nat.zero_le address)
        (by omega)
    rw [shiftPast_of_mem transcript member low high]
    omega
  · -- Behind the old script an address moves by what the whole script grew.
    have grown := length_script lines transcript
    rw [Ledger.shiftPast, deltaPast_of_le transcript (by omega)]
    omega

/-- The site of an operand is the one that is enrolled for its value. -/
theorem site?_of_sourceAddress (transcript : Transcript data events)
    (member : p ∈ Placement.ofLines lines events) {site : JumpSite}
    (hsite : site ∈ (Placement.ofLines lines events).filterMap (Placement.site? data))
    (same : site.sourceAddress = p.source + 1) : p.site? data = some site := by
  obtain ⟨q, hq, found⟩ := List.mem_filterMap.mp hsite
  have kind : q.Kind data := kind_of_mem transcript.trace hq
  obtain ⟨start, -, finish, -⟩ := kind.jump_bounds found
  obtain ⟨_, _, step⟩ := exists_step_of_mem transcript.trace member
  have nonempty := step.length_bytes_pos
  rw [Placement.finish] at finish
  rcases (tiles_source 0 0 events (lines.map Line.replacement)).trichotomy hq member with
    rfl | before | behind
  · exact found
  · omega
  · omega

/-- An operand, its value and its end move as the ledger says, if an empty value stays empty. -/
theorem operand_addresses (transcript : Transcript data events)
    (member : p ∈ Placement.ofLines lines events) {head : InstructionHead}
    {argument : ArgumentHead} {old : Operand} (hold : p.old = .operand head argument old)
    {size : Nat} (width : p.new.bytes.length = 1 + size) (bare : old.value.size = 0 → size = 0) :
    let ledger := Ledger.ofPlacements (Placement.ofLines lines events)
    ledger.newAddress old.address = ledger.shiftPast old.address ∧
      (ledger.newAddress old.address + 1 : Nat) = ledger.shiftPast old.valueAddress ∧
      (ledger.newAddress old.address + 1 + size : Nat) = ledger.shiftPast old.finish := by
  intro ledger
  obtain ⟨_, _, step⟩ := exists_step_of_mem transcript.trace member
  rw [hold] at step
  obtain ⟨-, -, source, -⟩ := step.of_operand
  have finish : p.finish = old.finish := by
    rw [Placement.finish, hold, Event.bytes, Operand.length_bytes, Operand.finish, source,
      Nat.add_assoc]
  have hfinish : p.finish = p.source + 1 + old.value.size := by
    rw [finish, Operand.finish, source]
  have target : ledger.newAddress old.address = p.target := by
    have moved := newAddress_of_mem transcript member (Nat.le_refl _) (by omega)
    rw [Nat.sub_self, Nat.add_zero, source] at moved
    exact moved
  have ended := shiftPast_finish transcript member
  refine ⟨newAddress_eq lines transcript _, ?_, ?_⟩
  · rw [Operand.valueAddress, ← source, source, target, ← source]
    by_cases marker : old.value.size = 0
    · -- A bare tag ends where a value would start.
      have last : p.source + 1 = p.finish := by omega
      have := bare marker
      rw [last, ended]
      omega
    · rw [shiftPast_of_mem transcript member (by omega) (by omega)]
      omega
  · rw [← finish, ended, target]
    omega

/-- An operand is rebuilt into one that belongs to it: a text is replaced, an enrolled word is
corrected, any other value stays. -/
theorem operand_follows (transcript : Transcript data events)
    (member : p ∈ Placement.ofLines lines events) {head : InstructionHead}
    {argument : ArgumentHead} {operand : Operand} (hold : p.old = .operand head argument operand) :
    p.old.Follows (.ofEvents data lines events)
      (p.rebuilt data (.ofPlacements (Placement.ofLines lines events))
        (Ledger.ofPlacements (Placement.ofLines lines events)).newAddress) := by
  have kind : p.Kind data := kind_of_mem transcript.trace member
  cases kind with
  | string source target head argument tag old new =>
    obtain ⟨address, valueAddress, finish⟩ := operand_addresses transcript member rfl
      (Operand.length_bytes ⟨tag, source, .string new⟩) (by simp [Value.size])
    refine .operand _ _ _ _ ⟨rfl, rfl, address, valueAddress, finish, ?_, ?_⟩
    · intro site hsite same
      have found := site?_of_sourceAddress transcript member hsite same
      simp [Placement.site?, Event.enrolled?, Operand.enrolled?] at found
    · simp [Value.payload?]
  | run => simp at hold
  | word source target head argument tag word enrolled =>
    rw [Placement.rebuilt, Event.relocated, Operand.relocated_of_some enrolled]
    obtain ⟨address, valueAddress, finish⟩ := operand_addresses transcript member rfl
      (Operand.length_bytes ⟨tag, source, .int32 word⟩) id
    refine .operand _ _ _ _ ⟨rfl, rfl, address, valueAddress, finish, ?_, ?_⟩
    · intro site hsite same
      have found := site?_of_sourceAddress transcript member hsite same
      simp only [Placement.site?, Event.enrolled?, enrolled, Option.map_some,
        Option.some.injEq] at found
      subst found
      exact ⟨rfl, rfl⟩
    · -- The operand has a site of its own, so it is never one without.
      intro none
      have found : Placement.site? data ⟨source, target,
          .operand head argument ⟨tag, source, .int32 word⟩,
          .operand head argument ⟨tag, source, .int32 word⟩⟩ =
          some ⟨target + 1, source + 1, word⟩ := by
        simp [Placement.site?, Event.enrolled?, enrolled]
      exact absurd rfl (none _ (List.mem_filterMap.mpr ⟨_, member, found⟩))
  | plain source target event textless unenrolled =>
    subst hold
    rw [Placement.rebuilt, Event.relocated_of_none unenrolled]
    obtain ⟨address, valueAddress, finish⟩ := operand_addresses transcript member rfl
      operand.length_bytes id
    refine .operand _ _ _ _ ⟨rfl, rfl, address, valueAddress, finish, ?_, fun _ _ => rfl⟩
    intro site hsite same
    obtain ⟨_, _, step⟩ := exists_step_of_mem transcript.trace member
    obtain ⟨-, -, hsource, -⟩ := step.of_operand
    have found := site?_of_sourceAddress transcript member hsite (hsource ▸ same)
    simp [Placement.site?, unenrolled] at found

/-- The start and the end of a unit move as the ledger says. -/
theorem unit_addresses (transcript : Transcript data events)
    (member : p ∈ Placement.ofLines lines events) :
    let ledger := Ledger.ofPlacements (Placement.ofLines lines events)
    ledger.newAddress p.source = ledger.shiftPast p.source ∧
      (ledger.newAddress p.source + p.new.bytes.length : Nat) = ledger.shiftPast p.finish := by
  intro ledger
  obtain ⟨_, _, step⟩ := exists_step_of_mem transcript.trace member
  have nonempty := step.length_bytes_pos
  have target := newAddress_of_mem transcript member (Nat.le_refl _)
    (Nat.lt_add_of_pos_right nonempty)
  refine ⟨newAddress_eq lines transcript _, ?_⟩
  rw [target, shiftPast_finish transcript member]
  omega

/-- Every event of the new script is what the old one has become. -/
theorem event_follows (transcript : Transcript data events)
    (member : p ∈ Placement.ofLines lines events) :
    p.old.Follows (.ofEvents data lines events)
      (p.rebuilt data (.ofPlacements (Placement.ofLines lines events))
        (Ledger.ofPlacements (Placement.ofLines lines events)).newAddress) := by
  have kind : p.Kind data := kind_of_mem transcript.trace member
  obtain ⟨_, _, step⟩ := exists_step_of_mem transcript.trace member
  have moved := newAddress_eq lines transcript
  cases kind with
  | string => exact operand_follows transcript member rfl
  | word => exact operand_follows transcript member rfl
  | run source target old new =>
    obtain ⟨address, finish⟩ := unit_addresses transcript member
    exact .text (.text address finish)
  | plain source target event textless unenrolled =>
    cases event with
    | operand head argument operand => exact operand_follows transcript member rfl
    | text run => simp [Event.textUnit?] at textless
    | instructionStart head => exact .instructionStart rfl (moved _)
    | argumentStart argument => exact .argumentStart ⟨rfl, rfl, moved _⟩
    | argumentEnd argument => exact .argumentEnd _ _
    | instructionEnd head finish => exact .instructionEnd _ _ (moved _)
    | terminator address =>
      have start : address = source := step.address_eq rfl
      subst start
      obtain ⟨address, finish⟩ := unit_addresses transcript member
      exact .terminator (.terminator address finish)

/-- The texts of the new script are those of the lines, in order. -/
theorem texts_rebuilt (transcript : Transcript data events)
    (enough : (textUnits events).length ≤ lines.length) (f : Nat → Nat) :
    (textUnits ((Placement.ofLines lines events).map
        (Placement.rebuilt data (.ofPlacements (Placement.ofLines lines events)) f))).map
          TextUnit.text = (lines.map Line.replacement).take (textUnits events).length := by
  have enough' : (textUnits events).length ≤ (lines.map Line.replacement).length := by
    rwa [List.length_map]
  have texts : ∀ p ∈ Placement.ofLines lines events,
      (p.rebuilt data (.ofPlacements (Placement.ofLines lines events)) f).text? =
        p.replaced?.map Prod.snd := fun p member =>
    Placement.Kind.text?_rebuilt (kind_of_mem transcript.trace member)
  rw [textUnits, List.filterMap_map, List.map_filterMap]
  refine (List.filterMap_congr texts).trans ?_
  rw [← List.map_filterMap, Placement.ofLines, filterMap_replaced?_placements 0 0 _ _ enough',
    List.zip_eq_zip_take_min, Nat.min_eq_left enough', List.take_length]
  apply List.map_snd_zip
  rw [List.length_take]
  omega

/-- The first byte of a unit moves by the texts that start before it. -/
theorem shiftPast_address (transcript : Transcript data events) {seen more : List Event}
    {first : Event} (split : events = seen ++ first :: more) (starts : first.startsUnit = true) :
    (Ledger.ofPlacements (Placement.ofLines lines events)).shiftPast first.address =
      (Ledger.ofPlacements (Placement.ofLines lines events)).shift first.address := by
  have member := placementAt_mem lines seen first more
  rw [← split] at member
  obtain ⟨_, _, step⟩ := exists_step_of_mem transcript.trace member
  have haddress : first.address = (placementAt lines seen first).source := step.address_eq starts
  rw [haddress, Ledger.shiftPast, Ledger.shift, Placement.ofLines,
    deltaPast_eq_of_mem transcript.trace member (Nat.le_refl _)
      (Nat.lt_add_of_pos_right step.length_bytes_pos),
    deltaBefore_of_startsUnit transcript.trace member starts]

/-- A new script decodes to the units of the old one. All of them and all their parts have moved by
the texts that have ended, which for the start of a unit are those that start before it; they carry
the texts of the lines, in order; enrolled words follow their targets; and everything else is the
same. -/
theorem decode_of_inject {out : Injection} {commands : List Command}
    (decoded : decode data = .ok commands) (injected : inject data lines = .ok out)
    (accepted : ∀ unit new, (unit, new) ∈ replacements data lines → unit.Accepts new) :
    ∃ rebuilt, decode out.script = .ok rebuilt ∧
      List.Forall₂ (Command.Follows out) commands rebuilt ∧
      (rebuilt.flatMap Command.textUnits).map TextUnit.text =
        (lines.map Line.replacement).take (commands.flatMap Command.textUnits).length ∧
      ∀ command ∈ commands,
        out.ledger.shiftPast command.address = out.ledger.shift command.address := by
  obtain ⟨events, transcript, enough, -, rfl⟩ := inject_eq_ok_iff.mp injected
  have hevents := transcript.unique (transcript_of_decode decoded)
  have hcommands : commands = Builder.assemble events := by
    have again := transcript.decode
    rw [decoded, Except.ok.injEq] at again
    exact again
  have new := transcript_of_injection transcript enough accepted
  refine ⟨_, new.decode, ?_, ?_, ?_⟩
  · rw [hcommands]
    apply Builder.forall₂_assemble
    conv => lhs; rw [← map_old_placements 0 0 events (lines.map Line.replacement)]
    rw [List.forall₂_map_left_iff, List.forall₂_map_right_iff]
    refine List.forall₂_same.mpr ?_
    intro p member
    exact event_follows transcript member
  · rw [← textUnits_flatMap_events, Builder.flatMap_events_assemble new.trace,
      texts_rebuilt transcript enough, hevents, textUnits_flatMap_events]
  · intro command member
    obtain ⟨before, after, hsplit⟩ := List.append_of_mem member
    obtain ⟨first, more, hfirst, starts, haddress⟩ := command.exists_events_eq_cons
    have split : events =
        before.flatMap Command.events ++ first :: (more ++ after.flatMap Command.events) := by
      rw [hevents, hsplit, List.flatMap_append, List.flatMap_cons, hfirst, List.cons_append]
    rw [← haddress]
    exact shiftPast_address transcript split starts

/-- A run of raw text and an empty string get longer, in front of the terminator that a jump goes to:
the jump follows it, and a number behind the string stays as it is. -/
theorem decode_of_inject_run_jump_and_string :
    ∃ out rebuilt jump string number,
      inject [0x61, 0x1B, 0, 0, 1, 1, 19, 0, 0, 0, 4, 0, 0, 0, 0, 3, 7, 0xFF, 0xFF, 0x1A]
          [[0x62, 0x63], [0x64]] = .ok out ∧
        out.script = [0x62, 0x63, 0x1B, 0, 0, 1, 1, 21, 0, 0, 0, 4, 1, 0, 0, 0, 0x64, 3, 7, 0xFF,
          0xFF, 0x1A] ∧
        out.sites = [⟨7, 6, 19⟩] ∧
        decode out.script = .ok rebuilt ∧
        (rebuilt.flatMap Command.textUnits).map TextUnit.text = [[0x62, 0x63], [0x64]] ∧
        rebuilt.flatMap Command.operands = [jump, string, number] ∧
        jump.valueAddress = 7 ∧ jump.value = .int32 21 ∧
        number.valueAddress = 18 ∧ number.value = .int8 7 := by
  have decoded :
      decode [0x61, 0x1B, 0, 0, 1, 1, 19, 0, 0, 0, 4, 0, 0, 0, 0, 3, 7, 0xFF, 0xFF, 0x1A] =
        .ok [.text ⟨0, [0x61]⟩,
          .instruction ⟨⟨1, 0⟩, [⟨⟨4, 1, 1⟩,
            [⟨1, 5, .int32 19⟩, ⟨4, 10, .string []⟩, ⟨3, 15, .int8 7⟩]⟩], 19⟩,
          .terminator 19] := by
    decide +kernel
  have injected :
      inject [0x61, 0x1B, 0, 0, 1, 1, 19, 0, 0, 0, 4, 0, 0, 0, 0, 3, 7, 0xFF, 0xFF, 0x1A]
          [[0x62, 0x63], [0x64]] =
        .ok
          { script := [0x62, 0x63, 0x1B, 0, 0, 1, 1, 21, 0, 0, 0, 4, 1, 0, 0, 0, 0x64, 3, 7, 0xFF,
              0xFF, 0x1A]
            ledger := ⟨[⟨0, 1, 2⟩, ⟨15, 0, 1⟩]⟩
            sites := [⟨7, 6, 19⟩]
            warnings := [] } := by
    decide +kernel
  have replaced :
      replacements [0x61, 0x1B, 0, 0, 1, 1, 19, 0, 0, 0, 4, 0, 0, 0, 0, 3, 7, 0xFF, 0xFF, 0x1A]
          [[0x62, 0x63], [0x64]] =
        [(.run ⟨0, [0x61]⟩, [0x62, 0x63]), (.string ⟨4, 10, .string []⟩ [], [0x64])] := by
    decide +kernel
  have accepted : ∀ unit new,
      (unit, new) ∈
        replacements [0x61, 0x1B, 0, 0, 1, 1, 19, 0, 0, 0, 4, 0, 0, 0, 0, 3, 7, 0xFF, 0xFF, 0x1A]
          [[0x62, 0x63], [0x64]] →
      unit.Accepts new := by
    intro unit new hmem
    rw [replaced] at hmem
    simp only [List.mem_cons, Prod.mk.injEq, List.not_mem_nil, or_false] at hmem
    rcases hmem with ⟨rfl, rfl⟩ | ⟨rfl, rfl⟩
    · exact ⟨by decide, by decide +kernel⟩
    · simp [TextUnit.Accepts]
  obtain ⟨rebuilt, again, follows, texts, -⟩ := decode_of_inject decoded injected accepted
  have operands := forall₂_operands follows
  generalize listed : rebuilt.flatMap Command.operands = new at operands
  obtain _ | ⟨jump, _ | ⟨string, _ | ⟨number, ⟨⟩⟩⟩⟩ := operands
  refine ⟨_, rebuilt, _, _, _, injected, rfl, rfl, again, texts, listed, ?_, ?_, ?_, ?_⟩
  · exact Int.ofNat_inj.mp (jump.valueAddress.trans (by decide))
  · exact (jump.enrolled _ (List.mem_singleton_self _) rfl).2
  · exact Int.ofNat_inj.mp (number.valueAddress.trans (by decide))
  · exact number.other (by decide) rfl

end Events

end NovelScript
