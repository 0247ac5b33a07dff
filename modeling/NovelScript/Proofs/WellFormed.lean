import Mathlib.Data.List.Chain
import NovelScript.Proofs.Assembly
import NovelScript.Proofs.Tiling

/-!
# Which trees are scripts

Decoding is the inverse of `serialize`. It gives a tree for a byte string exactly when the tree is
well formed and the byte string is its stored form, so it accepts what the grammar describes,
nothing else, and loses nothing of it (`decode_iff_wellFormed`).

Whether a tree is well formed is said of its parts alone: which tags, ids and bytes can stand where,
how arguments are counted, and that every address is the offset of its part in the stored form. The
flattened tree of a list of parts is a trace exactly when the parts are well formed; this is shown
for operands, arguments and units, each on the one before.
-/

set_option autoImplicit false

namespace NovelScript

/-- Whether an operand can be read back from its stored form. Where its value starts and where it ends
is not stored in it, so that these addresses cannot be wrong by themselves; that they are the offsets
of what they speak of is shown of the whole script (`WellFormed.operand_stands`). -/
structure Operand.WellFormed (operand : Operand) : Prop where
  /-- The tag is in the table, and the value has the shape that it announces. -/
  known : Shape.ofTag? operand.tag = some operand.shape
  /-- The length of a text can be stored in front of it. -/
  fits : operand.value.Fits

/-- Whether an argument can be read back from its stored form. -/
structure Argument.WellFormed (argument : Argument) : Prop where
  /-- The id is no end of a list. -/
  id : argument.id ≠ listEnd
  /-- The operands are well formed. -/
  operands : ∀ operand ∈ argument.operands, operand.WellFormed
  /-- The operands stand behind the id, end to end. -/
  layout : Tiles Operand.address Operand.bytes (argument.address + 1) argument.operands

/-- Whether an instruction can be read back from its stored form. -/
structure Instruction.WellFormed (instruction : Instruction) : Prop where
  /-- The arguments are well formed. -/
  arguments : ∀ argument ∈ instruction.arguments, argument.WellFormed
  /-- The arguments are counted from one. -/
  ordinals : instruction.arguments.map (fun argument => argument.ordinal) =
    List.range' 1 instruction.arguments.length
  /-- The arguments stand behind the tag and the executor, end to end. -/
  layout : Tiles (fun argument => argument.address) Argument.bytes (instruction.address + 3)
    instruction.arguments

/-- Whether a unit is a run of raw text. -/
def Command.isText : Command → Bool
  | text _ => true
  | _ => false

/-- Whether a unit can be read back from its stored form. -/
def Command.WellFormed : Command → Prop
  | terminator _ => True
  | instruction i => i.WellFormed
  | text run => run.bytes ≠ [] ∧ ∀ b ∈ run.bytes, NovelScript.isText b = true

/-- Whether a list of units is a script. -/
structure WellFormed (commands : List Command) : Prop where
  /-- The units are well formed. -/
  units : ∀ command ∈ commands, command.WellFormed
  /-- Each unit ends behind its stored form. -/
  finish : ∀ command ∈ commands, command.finish = command.address + command.bytes.length
  /-- The units stand end to end, the first one at zero. -/
  layout : Tiles Command.address Command.bytes 0 commands
  /-- No run of raw text touches another one. -/
  apart : commands.IsChain fun command next => command.isText = true → next.isText = false

/-! ## Traces of flattened trees -/

section Traces

variable {level after : Level} {address finish : Nat} {rest : List Event}

/-- A run of steps is a first step and a run behind it. -/
theorem trace_cons_iff {event : Event} :
    Trace level address (event :: rest) after finish ↔
      ∃ middle, event.Step level address middle ∧ event.Apart rest ∧
        Trace middle (address + event.bytes.length) rest after finish := by
  constructor
  · intro trace
    cases trace with
    | cons step apart rest => exact ⟨_, step, apart, rest⟩
  · rintro ⟨middle, step, apart, rest⟩
    exact .cons step apart rest

/-- A run without steps goes nowhere. -/
theorem trace_nil_iff :
    Trace level address [] after finish ↔ level = after ∧ address = finish := by
  constructor
  · intro trace
    cases trace with
    | nil => exact ⟨rfl, rfl⟩
  · rintro ⟨rfl, rfl⟩
    exact .nil level address

/-- Behind an argument, its ordinal is the number of arguments so far. -/
theorem Event.Step.of_argumentEnd {head : InstructionHead} {argument closed : ArgumentHead}
    (step : (Event.argumentEnd closed).Step (.operands head argument) address after) :
    after = .arguments head argument.ordinal := by
  cases step
  rfl

/-- Behind an instruction there are units again. -/
theorem Event.Step.of_instructionEnd {head closed : InstructionHead} {count ended : Nat}
    (step : (Event.instructionEnd closed ended).Step (.arguments head count) address after) :
    after = .units ∧ ended = address + 1 := by
  cases step
  exact ⟨rfl, rfl⟩

/-- Operands are read one after the other exactly when they are well formed and stand where they
say. -/
theorem trace_operands_iff {head : InstructionHead} {argument : ArgumentHead}
    {operands : List Operand} :
    Trace (.operands head argument) address (operands.map (.operand head argument) ++ rest) after
        finish ↔
      (∀ operand ∈ operands, operand.WellFormed) ∧
        Tiles Operand.address Operand.bytes address operands ∧
        Trace (.operands head argument) (address + (operands.flatMap Operand.bytes).length) rest
          after finish := by
  induction operands generalizing address with
  | nil => simp [Tiles]
  | cons operand operands ih =>
    rw [List.map_cons, List.cons_append, trace_cons_iff, List.forall_mem_cons, List.flatMap_cons,
      List.length_append, ← Nat.add_assoc]
    constructor
    · rintro ⟨middle, step, -, trace⟩
      cases step with
      | operand _ _ _ known fits =>
        obtain ⟨formed, tiles, trace⟩ := ih.mp trace
        exact ⟨⟨⟨known, fits⟩, formed⟩, ⟨rfl, tiles⟩, trace⟩
    · rintro ⟨⟨⟨known, fits⟩, formed⟩, ⟨rfl, tiles⟩, trace⟩
      exact ⟨_, .operand head argument operand known fits, Event.apart_of_not_isText rfl _,
        ih.mpr ⟨formed, tiles, trace⟩⟩

/-- An argument is an id, its operands and an end. -/
theorem trace_argument_iff {head : InstructionHead} {count : Nat} {argument : Argument} :
    Trace (.arguments head count) address (argument.events head ++ rest) after finish ↔
      argument.WellFormed ∧ argument.ordinal = count + 1 ∧ argument.address = address ∧
        Trace (.arguments head (count + 1)) (address + argument.bytes.length) rest after
          finish := by
  have length : address + argument.bytes.length =
      address + 1 + (argument.operands.flatMap Operand.bytes).length + 1 := by
    simp only [Argument.bytes, List.cons_append, List.length_cons, List.length_append,
      List.length_nil]
    omega
  rw [Argument.events, List.append_assoc, List.cons_append, trace_cons_iff, length]
  constructor
  · rintro ⟨middle, step, -, trace⟩
    cases step with
    | argumentStart _ _ _ id ordinal =>
      obtain ⟨formed, tiles, trace⟩ := trace_operands_iff.mp trace
      obtain ⟨_, last, -, trace⟩ := trace_cons_iff.mp trace
      rw [last.of_argumentEnd, ordinal] at trace
      exact ⟨⟨id, formed, tiles⟩, ordinal, rfl, trace⟩
  · rintro ⟨⟨id, formed, tiles⟩, ordinal, rfl, trace⟩
    refine ⟨_, .argumentStart head argument.toArgumentHead count id ordinal,
      Event.apart_of_not_isText rfl _, trace_operands_iff.mpr ⟨formed, tiles, ?_⟩⟩
    refine trace_cons_iff.mpr ⟨_, .argumentEnd head argument.toArgumentHead _,
      Event.apart_of_not_isText rfl _, ?_⟩
    rw [ordinal]
    exact trace

/-- Arguments are read one after the other exactly when they are well formed, counted on from those
before, and stand where they say. -/
theorem trace_arguments_iff {head : InstructionHead} {count : Nat} {arguments : List Argument} :
    Trace (.arguments head count) address (arguments.flatMap (Argument.events head) ++ rest) after
        finish ↔
      (∀ argument ∈ arguments, argument.WellFormed) ∧
        arguments.map (fun argument => argument.ordinal) =
          List.range' (count + 1) arguments.length ∧
        Tiles (fun argument => argument.address) Argument.bytes address arguments ∧
        Trace (.arguments head (count + arguments.length))
          (address + (arguments.flatMap Argument.bytes).length) rest after finish := by
  induction arguments generalizing address count with
  | nil => simp [Tiles]
  | cons argument arguments ih =>
    rw [List.flatMap_cons, List.append_assoc, trace_argument_iff, ih, List.forall_mem_cons,
      List.flatMap_cons, List.length_append, ← Nat.add_assoc, List.map_cons, List.length_cons,
      List.range'_succ, List.cons.injEq, Tiles, Nat.add_comm arguments.length, ← Nat.add_assoc]
    constructor
    · rintro ⟨formed, ordinal, start, others, ordinals, tiles, trace⟩
      exact ⟨⟨formed, others⟩, ⟨ordinal, ordinals⟩, ⟨start, tiles⟩, trace⟩
    · rintro ⟨⟨formed, others⟩, ⟨ordinal, ordinals⟩, ⟨start, tiles⟩, trace⟩
      exact ⟨formed, ordinal, start, others, ordinals, tiles, trace⟩

/-- An instruction is a tag, an executor, its arguments and an end. -/
theorem trace_instruction_iff {instruction : Instruction} :
    Trace .units address (instruction.events ++ rest) after finish ↔
      instruction.WellFormed ∧ instruction.address = address ∧
        instruction.finish = instruction.address + instruction.bytes.length ∧
        Trace .units (address + instruction.bytes.length) rest after finish := by
  have length : ∀ start, start + instruction.bytes.length =
      start + 3 + (instruction.arguments.flatMap Argument.bytes).length + 1 := by
    intro start
    simp only [Instruction.bytes, InstructionHead.bytes, List.length_append, List.length_cons,
      LittleEndian.length_encode, List.length_nil]
    omega
  rw [Instruction.events, List.append_assoc, List.cons_append, trace_cons_iff, length, length]
  constructor
  · rintro ⟨middle, step, -, trace⟩
    cases step
    obtain ⟨formed, ordinals, tiles, trace⟩ := trace_arguments_iff.mp trace
    obtain ⟨_, last, -, trace⟩ := trace_cons_iff.mp trace
    obtain ⟨rfl, ended⟩ := last.of_instructionEnd
    exact ⟨⟨formed, ordinals, tiles⟩, rfl, ended, trace⟩
  · rintro ⟨⟨formed, ordinals, tiles⟩, rfl, ended, trace⟩
    refine ⟨_, .instructionStart instruction.toInstructionHead, Event.apart_of_not_isText rfl _,
      trace_arguments_iff.mpr ⟨formed, ordinals, tiles, ?_⟩⟩
    refine trace_cons_iff.mpr ⟨_, ?_, Event.apart_of_not_isText rfl _, trace⟩
    rw [ended]
    exact .instructionEnd instruction.toInstructionHead _ _

/-- A unit is read exactly when it is well formed and stands where it says; behind raw text there
must not be more of it. -/
theorem trace_command_iff {command : Command} :
    Trace .units address (command.events ++ rest) after finish ↔
      command.WellFormed ∧ command.address = address ∧
        command.finish = command.address + command.bytes.length ∧
        (command.isText = true → ∀ next ∈ rest.head?, next.isText = false) ∧
        Trace .units (address + command.bytes.length) rest after finish := by
  cases command with
  | terminator start =>
    rw [Command.events, List.singleton_append, trace_cons_iff]
    constructor
    · rintro ⟨middle, step, -, trace⟩
      cases step
      exact ⟨trivial, rfl, rfl, by simp [Command.isText], trace⟩
    · rintro ⟨-, rfl, -, -, trace⟩
      exact ⟨_, .terminator start, Event.apart_of_not_isText rfl _, trace⟩
  | instruction i =>
    rw [Command.events, trace_instruction_iff]
    simp only [Command.WellFormed, Command.address, Command.finish, Command.bytes, Command.isText,
      Bool.false_eq_true, false_implies, true_and]
  | text run =>
    rw [Command.events, List.singleton_append, trace_cons_iff]
    constructor
    · rintro ⟨middle, step, apart, trace⟩
      cases step with
      | text _ nonempty bytes => exact ⟨⟨nonempty, bytes⟩, rfl, rfl, apart, trace⟩
    · rintro ⟨⟨nonempty, bytes⟩, rfl, -, apart, trace⟩
      exact ⟨_, .text run nonempty bytes, apart, trace⟩

/-- The first event of some units is raw text if the first unit is. -/
theorem isText_head?_events (commands : List Command) :
    (∀ event ∈ (commands.flatMap Command.events).head?, event.isText = false) ↔
      ∀ command ∈ commands.head?, command.isText = false := by
  cases commands with
  | nil => simp
  | cons command commands =>
    cases command <;> simp [Command.events, Instruction.events, Event.isText, Command.isText]

/-- Units are read one after the other exactly when they are well formed and stand where they say. -/
theorem trace_commands_iff {commands : List Command} :
    Trace .units address (commands.flatMap Command.events) .units finish ↔
      (∀ command ∈ commands, command.WellFormed) ∧
        (∀ command ∈ commands, command.finish = command.address + command.bytes.length) ∧
        Tiles Command.address Command.bytes address commands ∧
        (commands.IsChain fun command next => command.isText = true → next.isText = false) ∧
        finish = address + (serialize commands).length := by
  induction commands generalizing address with
  | nil =>
    rw [List.flatMap_nil, trace_nil_iff]
    simp [Tiles, serialize, eq_comm (a := address)]
  | cons command commands ih =>
    have length : address + (serialize (command :: commands)).length =
        address + command.bytes.length + (serialize commands).length := by
      rw [serialize, List.flatMap_cons, List.length_append, Nat.add_assoc]
      rfl
    rw [List.flatMap_cons, trace_command_iff, ih, isText_head?_events, List.forall_mem_cons,
      List.forall_mem_cons, List.isChain_cons, length, Tiles]
    constructor
    · rintro ⟨formed, start, ended, apart, others, ends, tiles, chain, rfl⟩
      exact ⟨⟨formed, others⟩, ⟨ended, ends⟩, ⟨start, tiles⟩,
        ⟨fun next member isRun => apart isRun next member, chain⟩, rfl⟩
    · rintro ⟨⟨formed, others⟩, ⟨ended, ends⟩, ⟨start, tiles⟩, ⟨apart, chain⟩, rfl⟩
      exact ⟨formed, start, ended, fun isRun next member => apart next member isRun, others, ends,
        tiles, chain, rfl⟩

end Traces

/-! ## Decoding -/

/-- The bytes of the events of some units are their stored form. -/
theorem flatMap_bytes_events (commands : List Command) :
    (commands.flatMap Command.events).flatMap Event.bytes = serialize commands := by
  rw [List.flatMap_assoc]
  apply List.flatMap_congr
  intro command _
  exact command.flatMap_bytes_events

/-- A byte string is walked along the events of some units exactly when these are well formed and it
is their stored form. -/
theorem transcript_iff_wellFormed {data : Bytes} {commands : List Command} :
    Transcript data (commands.flatMap Command.events) ↔
      WellFormed commands ∧ serialize commands = data := by
  constructor
  · rintro ⟨trace, spelled⟩
    obtain ⟨units, finish, layout, apart, -⟩ := trace_commands_iff.mp trace
    exact ⟨⟨units, finish, layout, apart⟩, by rw [← flatMap_bytes_events, spelled]⟩
  · rintro ⟨formed, rfl⟩
    refine ⟨?_, flatMap_bytes_events commands⟩
    refine trace_commands_iff.mpr ⟨formed.units, formed.finish, formed.layout, formed.apart, ?_⟩
    rw [Nat.zero_add]

/-- Every unit takes up bytes. -/
theorem Command.WellFormed.bytes_ne_nil {command : Command} (formed : command.WellFormed) :
    command.bytes ≠ [] := by
  cases command with
  | terminator => simp [Command.bytes]
  | instruction i => simp [Command.bytes, Instruction.bytes]
  | text run => exact formed.1

/-- The units of a script lie end to end: each is found where it says it stands, and every byte of
the script belongs to one of them only. -/
theorem WellFormed.tiles {commands : List Command} (formed : WellFormed commands) :
    (∀ command ∈ commands, command.address < command.finish ∧
        ((serialize commands).drop command.address).take (command.finish - command.address) =
          command.bytes) ∧
      ∀ address < (serialize commands).length, ∃! command, command ∈ commands ∧
        command.address ≤ address ∧ address < command.finish := by
  constructor
  · intro command member
    obtain ⟨rest, spelled⟩ := formed.layout.drop_eq member
    have nonempty := List.length_pos_iff.mpr (formed.units command member).bytes_ne_nil
    rw [formed.finish command member, Nat.add_sub_cancel_left]
    refine ⟨by omega, ?_⟩
    rw [Nat.sub_zero] at spelled
    rw [serialize, spelled, List.take_left]
  · intro address inside
    obtain ⟨command, member, low, high⟩ := formed.layout.exists_mem (Nat.zero_le address)
      (by rw [Nat.zero_add]; exact inside)
    refine ⟨command, ⟨member, low, by rwa [formed.finish command member]⟩, ?_⟩
    rintro other ⟨otherMember, otherLow, otherHigh⟩
    rw [formed.finish other otherMember] at otherHigh
    -- Two units that share a byte cannot lie one behind the other.
    rcases formed.layout.trichotomy otherMember member with same | before | behind
    · exact same
    · omega
    · omega

/-! ## Where operands stand -/

section Standing

variable {data rest : Bytes} {operand : Operand}

/-- Where an argument stands in a byte string, each of its operands stands at its own address. -/
theorem Argument.WellFormed.drop_operand {argument : Argument} (formed : argument.WellFormed)
    (stands : data.drop argument.address = argument.bytes ++ rest)
    (member : operand ∈ argument.operands) :
    ∃ rest, data.drop operand.address = operand.bytes ++ rest := by
  have laid : data.drop (argument.address + 1) =
      argument.operands.flatMap Operand.bytes ++ ([listEnd] ++ rest) := by
    rw [← List.drop_drop, stands, Argument.bytes, List.append_assoc]
    rfl
  exact formed.layout.drop_position_eq member laid

/-- Where an instruction stands in a byte string, each of its operands stands at its own address. -/
theorem Instruction.WellFormed.drop_operand {instruction : Instruction}
    (formed : instruction.WellFormed)
    (stands : data.drop instruction.address = instruction.bytes ++ rest)
    (member : operand ∈ instruction.operands) :
    ∃ rest, data.drop operand.address = operand.bytes ++ rest := by
  obtain ⟨argument, listed, member⟩ := List.mem_flatMap.mp member
  have laid : data.drop (instruction.address + 3) =
      instruction.arguments.flatMap Argument.bytes ++ ([listEnd] ++ rest) := by
    rw [← List.drop_drop, stands, Instruction.bytes, List.append_assoc, List.append_assoc]
    rfl
  obtain ⟨behind, stands⟩ := formed.layout.drop_position_eq listed laid
  exact (formed.arguments argument listed).drop_operand stands member

/-- In the stored form of a script the tag of an operand is found at its address, and its value from
`valueAddress` on up to `finish`. -/
theorem WellFormed.operand_stands {commands : List Command} (formed : WellFormed commands)
    (member : operand ∈ commands.flatMap Command.operands) :
    (serialize commands)[operand.address]? = some operand.tag ∧
      ((serialize commands).drop operand.valueAddress).take
        (operand.finish - operand.valueAddress) = operand.value.bytes := by
  obtain ⟨command, listed, member⟩ := List.mem_flatMap.mp member
  have laid : (serialize commands).drop 0 = commands.flatMap Command.bytes ++ [] := by
    simp [serialize]
  obtain ⟨behind, stands⟩ := formed.layout.drop_position_eq listed laid
  have found : ∃ rest, (serialize commands).drop operand.address = operand.bytes ++ rest := by
    cases command with
    | instruction i => exact (formed.units _ listed).drop_operand stands member
    | _ => simp [Command.operands] at member
  obtain ⟨rest, found⟩ := found
  rw [Operand.bytes, List.cons_append] at found
  have width : operand.finish - operand.valueAddress = operand.value.bytes.length := by
    rw [Operand.finish, Operand.valueAddress, Nat.add_sub_cancel_left, Value.length_bytes]
  constructor
  · rw [← List.head?_drop, found, List.head?_cons]
  · rw [width, Operand.valueAddress, ← List.drop_drop, found, List.drop_one, List.tail_cons,
      List.take_left]

end Standing

/-- A byte string decodes to a list of units exactly when these are well formed and it is their
stored form. The units then tile the byte string, and the tag and the value of every operand stand in
it where the operand says. -/
theorem decode_iff_wellFormed (data : Bytes) (commands : List Command) :
    (decode data = .ok commands ↔ WellFormed commands ∧ serialize commands = data) ∧
      (decode data = .ok commands →
        (∀ command ∈ commands, command.address < command.finish ∧
          (data.drop command.address).take (command.finish - command.address) = command.bytes) ∧
        (∀ address < data.length, ∃! command, command ∈ commands ∧
          command.address ≤ address ∧ address < command.finish) ∧
        ∀ operand ∈ commands.flatMap Command.operands, data[operand.address]? = some operand.tag ∧
          (data.drop operand.valueAddress).take (operand.finish - operand.valueAddress) =
            operand.value.bytes) := by
  have accepted : decode data = .ok commands ↔ WellFormed commands ∧ serialize commands = data :=
    decode_eq_ok_iff_transcript.trans transcript_iff_wellFormed
  refine ⟨accepted, ?_⟩
  intro decoded
  obtain ⟨formed, rfl⟩ := accepted.mp decoded
  obtain ⟨spans, cover⟩ := formed.tiles
  exact ⟨spans, cover, fun _ member => formed.operand_stands member⟩

/-- An instruction with a string, then raw text, then a terminator. -/
theorem decode_iff_wellFormed_three_units :
    WellFormed
        [.instruction ⟨⟨0, 0x1C⟩, [⟨⟨3, 0, 1⟩, [⟨4, 4, .string [0x6F, 0x6B]⟩]⟩], 13⟩,
          .text ⟨13, [0x68, 0x69]⟩, .terminator 15] ∧
      ∃! command : Command,
        command ∈
            [.instruction ⟨⟨0, 0x1C⟩, [⟨⟨3, 0, 1⟩, [⟨4, 4, .string [0x6F, 0x6B]⟩]⟩], 13⟩,
              .text ⟨13, [0x68, 0x69]⟩, .terminator 15] ∧
          command.address ≤ 14 ∧ 14 < command.finish := by
  have decoded :
      decode [0x1B, 0x1C, 0, 0, 4, 2, 0, 0, 0, 0x6F, 0x6B, 0xFF, 0xFF, 0x68, 0x69, 0x1A] =
        .ok [.instruction ⟨⟨0, 0x1C⟩, [⟨⟨3, 0, 1⟩, [⟨4, 4, .string [0x6F, 0x6B]⟩]⟩], 13⟩,
          .text ⟨13, [0x68, 0x69]⟩, .terminator 15] := by
    decide +kernel
  have both := decode_iff_wellFormed
    [0x1B, 0x1C, 0, 0, 4, 2, 0, 0, 0, 0x6F, 0x6B, 0xFF, 0xFF, 0x68, 0x69, 0x1A]
    [.instruction ⟨⟨0, 0x1C⟩, [⟨⟨3, 0, 1⟩, [⟨4, 4, .string [0x6F, 0x6B]⟩]⟩], 13⟩,
      .text ⟨13, [0x68, 0x69]⟩, .terminator 15]
  exact ⟨(both.1.mp decoded).1, (both.2 decoded).2.1 14 (by decide)⟩

end NovelScript
