import NovelScript.Proofs.Rebuild
import NovelScript.Proofs.Truncation
import NovelScript.Proofs.WellFormed

/-!
# Scripts one behind the other

Nothing is carried from one unit to the next, and an address is only ever counted on. So a reading
further on in a byte string is the same reading with its addresses moved, whether it succeeds or
fails (`Cursor.next_moved`), and a byte string behind a script is walked as it is on its own
(`events_append`, `fault?_append`).

There is one seam at which two scripts do not stay apart: a run of raw text at the end of the first
goes on with the text at the start of the second. Everywhere else decoding takes a byte string apart
as it was put together, and every script can be cut in front of each of its units
(`decode_compositional`).
-/

set_option autoImplicit false

namespace NovelScript

/-! ## Moving units and faults -/

section Moving

variable (f : Nat → Nat)

/-- An argument with all its addresses moved. -/
def Argument.moved (argument : Argument) : Argument :=
  { toArgumentHead := argument.toArgumentHead.moved f
    operands := argument.operands.map (Operand.moved f) }

/-- An instruction with all its addresses moved. -/
def Instruction.moved (instruction : Instruction) : Instruction :=
  { toInstructionHead := instruction.toInstructionHead.moved f
    arguments := instruction.arguments.map (Argument.moved f)
    finish := f instruction.finish }

/-- A unit with all its addresses moved. -/
def Command.moved : Command → Command
  | terminator address => .terminator (f address)
  | instruction i => .instruction (i.moved f)
  | text run => .text { run with address := f run.address }

/-- A fault that is met at another address. -/
def FormatError.moved : FormatError → FormatError
  | unknownUnitTag tag address => .unknownUnitTag tag (f address)
  | unknownOperandTag tag address => .unknownOperandTag tag (f address)
  | truncated address needed => .truncated (f address) needed

/-- A cursor with the same bytes in front of it at another address. -/
def Cursor.moved (cursor : Cursor) : Cursor :=
  { address := f cursor.address, rest := cursor.rest, level := cursor.level.moved f }

/-- The arguments of a unit; only an instruction has any. -/
def Command.arguments : Command → List Argument
  | instruction i => i.arguments
  | _ => []

/-- All addresses that a unit tells: where it starts and ends, where its arguments start, and where
each of their operands starts, has its value and ends. -/
def Command.addresses (command : Command) : List Nat :=
  command.address :: command.finish :: command.arguments.flatMap fun argument =>
    argument.address :: argument.operands.flatMap fun operand =>
      [operand.address, operand.valueAddress, operand.finish]

/-- The events of a moved argument are its events, moved. -/
theorem Argument.events_moved (head : InstructionHead) (argument : Argument) :
    (argument.moved f).events (head.moved f) = (argument.events head).map (Event.moved f) := by
  simp [Argument.events, Argument.moved, Event.moved, Function.comp_def]

/-- The events of a moved unit are its events, moved. -/
theorem Command.events_moved (command : Command) :
    (command.moved f).events = command.events.map (Event.moved f) := by
  cases command with
  | terminator => rfl
  | text => rfl
  | instruction i =>
    have arguments : (i.arguments.map (Argument.moved f)).flatMap
          (Argument.events (i.toInstructionHead.moved f)) =
        (i.arguments.flatMap (Argument.events i.toInstructionHead)).map (Event.moved f) := by
      rw [List.flatMap_map, List.map_flatMap]
      apply List.flatMap_congr
      intro argument _
      exact argument.events_moved f i.toInstructionHead
    simp [Command.moved, Command.events, Instruction.moved, Instruction.events, arguments,
      Event.moved]

/-- Units can be moved before or after they are taken apart into events. -/
theorem flatMap_events_map_moved (commands : List Command) :
    (commands.map (Command.moved f)).flatMap Command.events =
      (commands.flatMap Command.events).map (Event.moved f) := by
  rw [List.flatMap_map, List.map_flatMap]
  apply List.flatMap_congr
  intro command _
  exact command.events_moved f

end Moving

/-- Moving a unit by a distance adds that distance to every address in it. -/
theorem Command.addresses_moved (distance : Nat) (command : Command) :
    (command.moved (· + distance)).addresses = command.addresses.map (· + distance) := by
  have operand : ∀ o : Operand,
      [(o.moved (· + distance)).address, (o.moved (· + distance)).valueAddress,
        (o.moved (· + distance)).finish] =
      [o.address, o.valueAddress, o.finish].map (· + distance) := by
    intro o
    simp only [Operand.moved, Operand.valueAddress, Operand.finish, List.map_cons, List.map_nil,
      Nat.add_right_comm _ distance]
  cases command with
  | terminator address =>
    simp [Command.moved, Command.addresses, Command.address, Command.finish, Command.arguments,
      Nat.add_right_comm _ distance]
  | text run =>
    simp [Command.moved, Command.addresses, Command.address, Command.finish, Command.arguments,
      TextRun.finish, Nat.add_right_comm _ distance]
  | instruction i =>
    simp [Command.moved, Command.addresses, Command.address, Command.finish, Command.arguments,
      Instruction.moved, InstructionHead.moved, Argument.moved, ArgumentHead.moved, operand,
      List.flatMap_map, List.map_flatMap]

/-! ## Readings further on -/

section Readings

variable (distance : Nat)

/-- At another address the same bytes are taken off, and a fault names the other address. -/
theorem takeBytes_moved (address count : Nat) (bytes : Bytes) :
    takeBytes (address + distance) count bytes =
      (takeBytes address count bytes).mapError (.moved (· + distance)) := by
  unfold takeBytes
  cases bytes.split? count with
  | none => rfl
  | some parts => rfl

/-- At another address the same value is read, and a fault names the other address. -/
theorem Value.read_moved (shape : Shape) (address : Nat) (bytes : Bytes) :
    Value.read shape (address + distance) bytes =
      (Value.read shape address bytes).mapError (.moved (· + distance)) := by
  cases shape
  case marker => rfl
  case string =>
    simp only [Value.read, takeBytes_moved distance, Nat.add_right_comm address distance 4]
    cases takeBytes address 4 bytes with
    | error fault => rfl
    | ok parts =>
      obtain ⟨length, rest⟩ := parts
      simp only [bind, Except.bind, Except.mapError]
      cases takeBytes (address + 4) (LittleEndian.decode length) rest with
      | error fault => rfl
      | ok parts => rfl
  all_goals
    simp only [Value.read, takeBytes_moved distance]
    cases takeBytes address _ bytes with
    | error fault => rfl
    | ok parts => rfl

namespace Cursor

/-- What a reading gives when it is made further on. -/
def movedResult : Except FormatError (Event × Cursor) → Except FormatError (Event × Cursor)
  | .ok (event, after) => .ok (event.moved (· + distance), after.moved (· + distance))
  | .error fault => .error (fault.moved (· + distance))

/-- Between units, what is read at another address is the same event, moved. -/
theorem nextUnit_moved (address : Nat) (bytes : Bytes) :
    nextUnit (address + distance) bytes = movedResult distance (nextUnit address bytes) := by
  cases bytes with
  | nil => rfl
  | cons tag rest =>
    by_cases isTerminator : tag = terminatorTag
    · simp only [nextUnit, isTerminator, if_true, Nat.add_right_comm address distance]
      rfl
    · by_cases isInstruction : tag = instructionTag
      · have tags : instructionTag ≠ terminatorTag := by decide
        simp only [nextUnit, isInstruction, tags, if_false, if_true,
          Nat.add_right_comm address distance, takeBytes_moved distance]
        cases takeBytes (address + 1) 2 rest with
        | error fault => rfl
        | ok parts => rfl
      · by_cases isRun : isText tag = true
        · simp only [nextUnit, isTerminator, isInstruction, isRun, if_false, if_true,
            TextRun.finish, Nat.add_right_comm address distance]
          rfl
        · simp only [nextUnit, isTerminator, isInstruction, isRun, if_false, Bool.false_eq_true]
          rfl

/-- In an argument list, what is read at another address is the same event, moved. -/
theorem nextArgument_moved (head : InstructionHead) (count address : Nat) (bytes : Bytes) :
    nextArgument (head.moved (· + distance)) count (address + distance) bytes =
      movedResult distance (nextArgument head count address bytes) := by
  cases bytes with
  | nil => rfl
  | cons id rest =>
    by_cases isEnd : id = listEnd
    · simp only [nextArgument, isEnd, if_true, Nat.add_right_comm address distance]
      rfl
    · simp only [nextArgument, isEnd, if_false, Nat.add_right_comm address distance]
      rfl

/-- In an operand list, what is read at another address is the same event, moved. -/
theorem nextOperand_moved (head : InstructionHead) (argument : ArgumentHead) (address : Nat)
    (bytes : Bytes) :
    nextOperand (head.moved (· + distance)) (argument.moved (· + distance)) (address + distance)
        bytes =
      movedResult distance (nextOperand head argument address bytes) := by
  cases bytes with
  | nil => rfl
  | cons tag rest =>
    by_cases isEnd : tag = listEnd
    · simp only [nextOperand, isEnd, if_true, Nat.add_right_comm address distance]
      rfl
    · simp only [nextOperand, isEnd, if_false]
      cases Shape.ofTag? tag with
      | none => rfl
      | some shape =>
        simp only [Nat.add_right_comm address distance 1, Value.read_moved distance]
        cases Value.read shape (address + 1) rest with
        | error fault => rfl
        | ok parts =>
          simp only [Except.mapError, Operand.finish, Nat.add_right_comm address distance,
            Nat.add_right_comm (address + 1) distance]
          rfl

/-- A reading further on is the same reading with its addresses moved, and fails with the same fault
there. -/
theorem next_moved (cursor : Cursor) :
    (cursor.moved (· + distance)).next = movedResult distance cursor.next := by
  obtain ⟨address, rest, level⟩ := cursor
  cases level with
  | units => exact nextUnit_moved distance address rest
  | arguments head count => exact nextArgument_moved distance head count address rest
  | operands head argument => exact nextOperand_moved distance head argument address rest

/-- Whether a script may end does not depend on the address. -/
theorem isDone_moved (f : Nat → Nat) (cursor : Cursor) :
    (cursor.moved f).isDone = cursor.isDone := by
  obtain ⟨address, rest, level⟩ := cursor
  cases level <;> simp [isDone, moved, Level.moved]

/-- A run of readings can be carried out at another address, with all its events moved. -/
theorem Reads.moved {cursor after : Cursor} {events : List Event}
    (reads : cursor.Reads events after) :
    (cursor.moved (· + distance)).Reads (events.map (Event.moved (· + distance)))
      (after.moved (· + distance)) := by
  induction reads with
  | nil cursor => exact .nil _
  | cons read rest ih =>
    refine .cons ?_ ih
    rw [next_moved, read]
    rfl

end Cursor

end Readings

/-! ## One byte string behind a script -/

section Behind

variable {data more : Bytes} {commands : List Command}

/-- Whether a byte string behind some units stays apart from them: no text follows on a run of raw
text. -/
def Apart (commands : List Command) (more : Bytes) : Prop :=
  ∀ last ∈ commands.getLast?, last.isText = true → ∀ b ∈ more.head?, isText b = false

/-- A unit has a last event, and that one is raw text exactly when the unit is. -/
theorem Command.exists_events_eq_concat (command : Command) :
    ∃ front last, command.events = front ++ [last] ∧ last.isText = command.isText := by
  cases command with
  | terminator address => exact ⟨[], .terminator address, rfl, rfl⟩
  | instruction i => exact ⟨_, .instructionEnd i.toInstructionHead i.finish, rfl, rfl⟩
  | text run => exact ⟨[], .text run, rfl, rfl⟩

/-- The last event of some units is raw text only if the last unit is. -/
theorem isText_getLast?_events {event : Event}
    (member : event ∈ (commands.flatMap Command.events).getLast?) (isRun : event.isText = true) :
    ∃ command ∈ commands.getLast?, command.isText = true := by
  rcases List.eq_nil_or_concat' commands with rfl | ⟨front, command, rfl⟩
  · simp at member
  · obtain ⟨early, last, hevents, sort⟩ := command.exists_events_eq_concat
    rw [List.flatMap_append, List.flatMap_singleton, hevents, ← List.append_assoc,
      List.getLast?_concat, Option.mem_def, Option.some.injEq] at member
    exact ⟨command, List.getLast?_concat, by rw [← sort, member, isRun]⟩

/-- Behind a script a byte string is read as it is on its own, with all addresses moved. -/
theorem reads_append (decoded : decode data = .ok commands) (apart : Apart commands more)
    {events : List Event} {after : Cursor} (reads : (Cursor.start more).Reads events after) :
    (Cursor.start (data ++ more)).Reads
      (commands.flatMap Command.events ++ events.map (Event.moved (· + data.length)))
      (after.moved (· + data.length)) := by
  have transcript := transcript_of_decode decoded
  have front := Cursor.reads_of_trace_append transcript.trace more (by
    intro last member isRun
    obtain ⟨command, hcommand, text⟩ := isText_getLast?_events member isRun
    exact apart command hcommand text)
  rw [transcript.bytes] at front
  have back := reads.moved data.length
  rw [Cursor.moved, Cursor.start, Nat.zero_add] at back
  exact front.trans back

/-- Behind a script, a byte string has the fault that it has alone, moved by the length of the
script. -/
theorem fault?_append (decoded : decode data = .ok commands) (apart : Apart commands more) :
    fault? (data ++ more) = (fault? more).map (.moved (· + data.length)) := by
  obtain ⟨after, reads, stop⟩ := reads_events more
  have whole := reads_append decoded apart reads
  rcases stop with ⟨done, sound⟩ | ⟨going, fault, failed, found⟩
  · rw [sound, fault?_eq_none_of_reads whole (by rwa [Cursor.isDone_moved])]
    rfl
  · rw [found, fault?_eq_some_of_reads whole (by rwa [Cursor.isDone_moved])
      (by rw [Cursor.next_moved, failed]; rfl)]
    rfl

/-- Behind a script, a byte string has the events that it has alone, moved by the length of the
script. -/
theorem events_append (decoded : decode data = .ok commands) (apart : Apart commands more) :
    events (data ++ more) =
      commands.flatMap Command.events ++ (events more).map (Event.moved (· + data.length)) := by
  obtain ⟨after, reads, stop⟩ := reads_events more
  apply events_eq_of_reads (reads_append decoded apart reads)
  rw [Cursor.isDone_moved, Cursor.next_moved]
  rcases stop with ⟨done, -⟩ | ⟨going, fault, failed, -⟩
  · exact .inl done
  · exact .inr ⟨going, _, by rw [failed]; rfl⟩

/-- Behind a script the units of another one are decoded as they are on their own, and so is its
fault. -/
theorem decode_append (decoded : decode data = .ok commands) (apart : Apart commands more) :
    decode (data ++ more) =
      match decode more with
      | .ok others => .ok (commands ++ others.map (Command.moved (· + data.length)))
      | .error fault => .error (fault.moved (· + data.length)) := by
  have walked := events_append decoded apart
  have found := fault?_append decoded apart
  cases second : decode more with
  | ok others =>
    obtain ⟨hevents, sound⟩ := transcript_iff.mp (transcript_of_decode second)
    simp only [decode_eq_ok_iff_transcript, transcript_iff, walked, found, hevents, sound,
      List.flatMap_append, flatMap_events_map_moved, Option.map_none, and_self]
  | error fault =>
    rw [decode_eq_error_iff] at second
    simp only [decode_eq_error_iff, found, second, Option.map_some]

end Behind

/-! ## Cutting a script in two -/

section Cutting

variable {left right : List Command} {unit : Command}

/-- The first units of a script are a script. -/
theorem WellFormed.front (formed : WellFormed (left ++ right)) : WellFormed left where
  units := fun command member => formed.units command (List.mem_append_left right member)
  finish := fun command member => formed.finish command (List.mem_append_left right member)
  layout := formed.layout.front
  apart := (List.isChain_append.mp formed.apart).1

/-- A unit that is no raw text starts with a byte that is no text. -/
theorem Command.isText_head (other : unit.isText = false) :
    ∃ first more, unit.bytes = first :: more ∧ NovelScript.isText first = false := by
  cases unit with
  | terminator address => exact ⟨terminatorTag, [], rfl, rfl⟩
  | instruction i => exact ⟨instructionTag, _, rfl, rfl⟩
  | text run => simp [Command.isText] at other

/-- Where a script is cut between two units, no run of raw text is cut. -/
theorem WellFormed.apart_of_append (formed : WellFormed (left ++ unit :: right)) (rest : Bytes) :
    Apart left (unit.bytes ++ rest) := by
  intro last member isRun b hb
  have other := (List.isChain_append.mp formed.apart).2.2 last member unit rfl isRun
  obtain ⟨first, more, spelled, sort⟩ := Command.isText_head other
  rw [spelled, List.cons_append, List.head?_cons, Option.mem_def, Option.some.injEq] at hb
  rw [← hb, sort]

/-- In front of each of its units a script falls into two, which stay apart. -/
theorem decode_take {data : Bytes} (decoded : decode data = .ok (left ++ unit :: right)) :
    unit.address ≤ data.length ∧ decode (data.take unit.address) = .ok left ∧
      Apart left (data.drop unit.address) := by
  obtain ⟨formed, stored⟩ := transcript_iff_wellFormed.mp (transcript_of_decode decoded)
  have start : unit.address = (serialize left).length := by
    have position := formed.layout.position_eq
    rwa [Nat.zero_add] at position
  have split : data = serialize left ++ (unit.bytes ++ serialize right) := by
    rw [← stored, serialize, List.flatMap_append, List.flatMap_cons]
    rfl
  rw [start, split, List.take_left, List.drop_left, List.length_append]
  refine ⟨Nat.le_add_right _ _, ?_, formed.apart_of_append _⟩
  exact decode_eq_ok_iff_transcript.mpr (transcript_iff_wellFormed.mpr ⟨formed.front, rfl⟩)

end Cutting

/-- Decoding is compositional. A byte string behind a script that stays apart from it decodes there
exactly if it does on its own, with the same units and every address moved by the length of the
script; otherwise it has the same fault at the moved address. And each script, cut in front of any
of its units, is two scripts that decode to its units in this way. -/
theorem decode_compositional :
    (∀ data more commands, decode data = .ok commands → Apart commands more →
      ((∃ whole, decode (data ++ more) = .ok whole) ↔ ∃ others, decode more = .ok others) ∧
        (∀ others, decode more = .ok others →
          decode (data ++ more) =
            .ok (commands ++ others.map (Command.moved (· + data.length)))) ∧
        ∀ fault, decode more = .error fault →
          decode (data ++ more) = .error (fault.moved (· + data.length))) ∧
      (∀ data before unit after, decode data = .ok (before ++ unit :: after) →
        (data.take unit.address).length = unit.address ∧
          decode (data.take unit.address) = .ok before ∧
          ∃ others, decode (data.drop unit.address) = .ok others ∧
            unit :: after = others.map (Command.moved (· + unit.address))) ∧
      ∀ distance command,
        (Command.moved (· + distance) command).addresses =
          command.addresses.map (· + distance) := by
  refine ⟨?_, ?_, Command.addresses_moved⟩
  · intro data more commands decoded apart
    rw [decode_append decoded apart]
    cases second : decode more with
    | ok others => simp
    | error fault => simp
  · intro data before unit after decoded
    obtain ⟨inside, front, apart⟩ := decode_take decoded
    have length : (data.take unit.address).length = unit.address := by
      rw [List.length_take, Nat.min_eq_left inside]
    -- The back decodes because the whole does, and decoding puts the two together again.
    have whole := decode_append front apart
    rw [List.take_append_drop, decoded, length] at whole
    refine ⟨length, front, ?_⟩
    cases back : decode (data.drop unit.address) with
    | ok others =>
      rw [back] at whole
      exact ⟨others, rfl, List.append_cancel_left (Except.ok.inj whole)⟩
    | error fault =>
      rw [back] at whole
      simp at whole

/-- An instruction behind a run decodes with its operand moved, an unknown operand tag there is
reported further on, and the script falls apart in front of the instruction. Text behind the run
would have gone on with it. -/
theorem decode_compositional_behind_run :
    decode ([0x61] ++ [0x1B, 0x1C, 0, 0, 3, 7, 0xFF, 0xFF]) =
        .ok [.text ⟨0, [0x61]⟩,
          .instruction ⟨⟨1, 0x1C⟩, [⟨⟨4, 0, 1⟩, [⟨3, 5, .int8 7⟩]⟩], 9⟩] ∧
      decode ([0x61] ++ [0x1B, 0x1C, 0, 0, 0x77]) = .error (.unknownOperandTag 0x77 5) ∧
      decode ([0x61, 0x1B, 0x1C, 0, 0, 3, 7, 0xFF, 0xFF].take 1) = .ok [.text ⟨0, [0x61]⟩] ∧
      decode ([0x61] ++ [0x62]) = .ok [.text ⟨0, [0x61, 0x62]⟩] := by
  have run : decode [0x61] = .ok [.text ⟨0, [0x61]⟩] := by decide +kernel
  have apart : ∀ more, Apart [.text ⟨0, [0x61]⟩] (0x1B :: more) := by
    intro more last _ _ b hb
    obtain rfl := Option.some.inj hb
    rfl
  have sound : decode [0x1B, 0x1C, 0, 0, 3, 7, 0xFF, 0xFF] =
      .ok [.instruction ⟨⟨0, 0x1C⟩, [⟨⟨3, 0, 1⟩, [⟨3, 4, .int8 7⟩]⟩], 8⟩] := by
    decide +kernel
  have faulty : decode [0x1B, 0x1C, 0, 0, 0x77] = .error (.unknownOperandTag 0x77 4) := by
    decide +kernel
  obtain ⟨behind, cut, -⟩ := decode_compositional
  have whole := (behind _ _ _ run (apart _)).2.1 _ sound
  exact ⟨whole, (behind _ _ _ run (apart _)).2.2 _ faulty, (cut _ [_] _ [] whole).2.1,
    by decide +kernel⟩

end NovelScript
