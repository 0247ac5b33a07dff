import NovelScript.Proofs.Trace
import NovelScript.Script.Tree

/-!
# Units put together from events

The builder collects arguments and operands in the open instruction while it is fed events. At every
point of a script what it holds, flattened, is all that it was given, and what is open there is what
the level says (`Builder.Holds`): no argument comes without an open instruction, and no operand
without an argument. Every step of a trace keeps this and adds exactly its own event (`Holds.add`).
So the units of a script, flattened, are its events again (`flatMap_events_assemble`), and decoding
succeeds exactly on the byte strings that have a transcript (`decode_eq_ok_iff`).
-/

set_option autoImplicit false

namespace NovelScript

/-- The events of an open instruction and its arguments, which are complete. -/
def Instruction.openEvents (head : InstructionHead) (arguments : List Argument) : List Event :=
  .instructionStart head ::
    (arguments.reverse.map Argument.inOrder).flatMap (Argument.events head)

namespace Builder

/-- The units put together from a sequence of events. -/
def assemble (events : List Event) : List Command :=
  (events.foldl add empty).commands.reverse

/-- Whether the parts of a builder, flattened, are some events, and what is open is what the level
says. -/
def Holds (level : Level) (events : List Event) (builder : Builder) : Prop :=
  ∃ pending, builder.commands.reverse.flatMap Command.events ++ pending = events ∧
    match level with
    | .units => builder.pending? = none ∧ pending = []
    | .arguments head _ =>
      ∃ arguments finish, builder.pending? = some ⟨head, arguments, finish⟩ ∧
        pending = Instruction.openEvents head arguments
    | .operands head argument =>
      ∃ operands arguments finish,
        builder.pending? = some ⟨head, ⟨argument, operands⟩ :: arguments, finish⟩ ∧
          pending = Instruction.openEvents head arguments ++
            .argumentStart argument :: operands.reverse.map (.operand head argument)

variable {level after : Level} {address finish : Nat} {event : Event} {seen events : List Event}
  {builder : Builder}

/-- A step finds what it needs open, adds its event, and closes what it ends. -/
theorem Holds.add (holds : builder.Holds level seen) (step : event.Step level address after) :
    (builder.add event).Holds after (seen ++ [event]) := by
  obtain ⟨commands, pending?⟩ := builder
  obtain ⟨pending, rfl, opened⟩ := holds
  cases step with
  | terminator | text =>
    obtain ⟨rfl, rfl⟩ := opened
    exact ⟨[], by simp [Builder.add, Command.events], rfl, rfl⟩
  | instructionStart head =>
    obtain ⟨rfl, rfl⟩ := opened
    exact ⟨[.instructionStart head], by simp [Builder.add], [], _, rfl, rfl⟩
  | argumentStart head argument =>
    obtain ⟨arguments, finish, rfl, rfl⟩ := opened
    exact ⟨_, (List.append_assoc ..).symm, [], arguments, finish, rfl, rfl⟩
  | instructionEnd head =>
    obtain ⟨arguments, finish, rfl, rfl⟩ := opened
    refine ⟨[], ?_, rfl, rfl⟩
    simp [Builder.add, Instruction.closed, Instruction.openEvents, Command.events,
      Instruction.events]
  | operand head argument operand =>
    obtain ⟨operands, arguments, finish, rfl, rfl⟩ := opened
    refine ⟨_, (List.append_assoc ..).symm, operand :: operands, arguments, finish, rfl, ?_⟩
    simp
  | argumentEnd head argument =>
    obtain ⟨operands, arguments, finish, rfl, rfl⟩ := opened
    refine ⟨_, (List.append_assoc ..).symm, ⟨argument, operands⟩ :: arguments, finish, rfl, ?_⟩
    simp [Instruction.openEvents, Argument.events, Argument.inOrder]

/-- Along a trace the builder loses no event. -/
theorem Holds.foldl_add (holds : builder.Holds level seen)
    (trace : Trace level address events after finish) :
    (events.foldl Builder.add builder).Holds after (seen ++ events) := by
  induction trace generalizing builder seen with
  | nil => simpa using holds
  | cons step apart rest ih => simpa using ih (holds.add step)

/-- The events of a whole script are not changed by building units out of them and taking these
apart again. -/
theorem flatMap_events_assemble {finish : Nat} {events : List Event}
    (trace : Trace .units 0 events .units finish) :
    (assemble events).flatMap Command.events = events := by
  have start : empty.Holds .units [] := ⟨[], rfl, rfl, rfl⟩
  obtain ⟨pending, kept, -, rfl⟩ := start.foldl_add trace
  simpa [assemble] using kept

/-- The builder puts operands into the latest argument one by one. -/
theorem foldl_add_operands (commands : List Command) (head instruction : InstructionHead)
    (argument latest : ArgumentHead) (finish : Nat) (arguments : List Argument)
    (operands earlier : List Operand) :
    (operands.map (Event.operand instruction argument)).foldl add
        ⟨commands, some ⟨head, ⟨latest, earlier⟩ :: arguments, finish⟩⟩ =
      ⟨commands, some ⟨head, ⟨latest, operands.reverse ++ earlier⟩ :: arguments, finish⟩⟩ := by
  induction operands generalizing earlier with
  | nil => rfl
  | cons operand operands ih =>
    rw [List.map_cons, List.foldl_cons]
    simp only [add, Option.map_some, Instruction.addOperand, ih, List.reverse_cons,
      List.append_assoc, List.singleton_append]

/-- The builder puts arguments into the open instruction one by one. -/
theorem foldl_add_arguments (commands : List Command) (head instruction : InstructionHead)
    (finish : Nat) (arguments earlier : List Argument) :
    (arguments.flatMap (Argument.events instruction)).foldl add
        ⟨commands, some ⟨head, earlier, finish⟩⟩ =
      ⟨commands, some ⟨head, (arguments.map Argument.inOrder).reverse ++ earlier, finish⟩⟩ := by
  induction arguments generalizing earlier with
  | nil => rfl
  | cons argument arguments ih =>
    rw [List.flatMap_cons, List.foldl_append, Argument.events, List.cons_append, List.foldl_cons,
      List.foldl_append]
    simp only [add, Option.map_some, Instruction.openArgument, foldl_add_operands, List.foldl_cons,
      List.foldl_nil, ih, List.append_nil, List.map_cons, List.reverse_cons, List.append_assoc]
    rfl

/-- The events of a unit add that unit, and leave nothing open. -/
theorem foldl_add_command (command : Command) (commands : List Command) :
    command.events.foldl add ⟨commands, none⟩ = ⟨command :: commands, none⟩ := by
  cases command with
  | terminator => rfl
  | text => rfl
  | instruction i =>
    have twice : ∀ list : List Argument, (list.map Argument.inOrder).map Argument.inOrder = list := by
      intro list
      simp [Function.comp_def, Argument.inOrder]
    rw [Command.events, Instruction.events, List.cons_append, List.foldl_cons, List.foldl_append]
    simp only [add, foldl_add_arguments, List.foldl_cons, List.foldl_nil, List.append_nil,
      Instruction.closed, List.reverse_reverse, twice]

/-- Units that were flattened are put together again. -/
theorem assemble_flatMap_events (commands : List Command) :
    assemble (commands.flatMap Command.events) = commands := by
  have built : ∀ earlier : List Command,
      (commands.flatMap Command.events).foldl add ⟨earlier, none⟩ =
        ⟨commands.reverse ++ earlier, none⟩ := by
    induction commands with
    | nil => exact fun _ => rfl
    | cons command commands ih =>
      intro earlier
      rw [List.flatMap_cons, List.foldl_append, foldl_add_command, ih]
      simp
  rw [assemble, empty, built]
  simp

/-- A builder refuses no event, so a walk feeds it all of them. -/
theorem feed_visitor (builder : Builder) (events : List Event) :
    visitor.feed builder events = (events.foldl add builder, none) := by
  induction events generalizing builder with
  | nil => rfl
  | cons event events ih => simp [Visitor.feed, visitor, ih]

end Builder

/-- Decoding succeeds exactly on the byte strings that have a transcript, with the units that are
put together from it. -/
theorem decode_eq_ok_iff {data : Bytes} {commands : List Command} :
    decode data = .ok commands ↔
      ∃ events, Transcript data events ∧ Builder.assemble events = commands := by
  simp only [decode, walk_eq_feed, Builder.feed_visitor, transcript_iff]
  cases found : fault? data with
  | none => simp [Builder.assemble]
  | some fault => simp

/-- Decoding fails with the fault that a walk of the byte string finds, and only with that. -/
theorem decode_eq_error_iff {data : Bytes} {fault : FormatError} :
    decode data = .error fault ↔ fault? data = some fault := by
  simp only [decode, walk_eq_feed, Builder.feed_visitor]
  cases found : fault? data with
  | none => simp
  | some other => simp

/-- The units of a script, flattened, are its transcript. -/
theorem transcript_of_decode {data : Bytes} {commands : List Command}
    (decoded : decode data = .ok commands) :
    Transcript data (commands.flatMap Command.events) := by
  obtain ⟨events, transcript, rfl⟩ := decode_eq_ok_iff.mp decoded
  rwa [Builder.flatMap_events_assemble transcript.trace]

/-- Decoding gives those units that are a transcript when they are flattened. -/
theorem decode_eq_ok_iff_transcript {data : Bytes} {commands : List Command} :
    decode data = .ok commands ↔ Transcript data (commands.flatMap Command.events) := by
  refine ⟨transcript_of_decode, ?_⟩
  intro transcript
  rw [decode_eq_ok_iff]
  exact ⟨_, transcript, Builder.assemble_flatMap_events commands⟩

/-- A byte string decodes to the units that its transcript builds. -/
theorem Transcript.decode {data : Bytes} {events : List Event}
    (transcript : Transcript data events) :
    decode data = .ok (Builder.assemble events) :=
  decode_eq_ok_iff.mpr ⟨events, transcript, rfl⟩

/-- A byte string has at most one transcript. -/
theorem Transcript.unique {data : Bytes} {events others : List Event}
    (transcript : Transcript data events) (other : Transcript data others) : events = others :=
  (transcript_iff.mp transcript).1.symm.trans (transcript_iff.mp other).1

end NovelScript
