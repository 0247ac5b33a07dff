import NovelScript.Script.Command

/-!
# Scripts as event sequences

Walking a script reports it piece by piece, in address order. Each piece is an event, and each event
stands for at least one byte of the script: its `bytes`. The events of a unit, one after the other,
are its flattening, and their bytes are the stored form of the unit (`flatMap_bytes_events`).
-/

set_option autoImplicit false

namespace NovelScript

/-- One piece of a script, as met on a walk. -/
inductive Event
  /-- A terminator. -/
  | terminator (address : Nat)
  /-- The tag and the executor of an instruction. -/
  | instructionStart (instruction : InstructionHead)
  /-- The id of an argument. -/
  | argumentStart (argument : ArgumentHead)
  /-- One operand of the open argument. -/
  | operand (instruction : InstructionHead) (argument : ArgumentHead) (operand : Operand)
  /-- The end of an operand list. -/
  | argumentEnd (argument : ArgumentHead)
  /-- The end of an argument list; `finish` is the address after it. -/
  | instructionEnd (instruction : InstructionHead) (finish : Nat)
  /-- A run of raw text. -/
  | text (run : TextRun)
  deriving DecidableEq

/-- The address that an event speaks about: that of the unit, argument or operand. -/
def Event.address : Event → Nat
  | terminator address => address
  | instructionStart i => i.address
  | argumentStart a => a.address
  | operand _ _ o => o.address
  | argumentEnd a => a.address
  | instructionEnd i _ => i.address
  | text run => run.address

/-- The bytes of the script that an event stands for. -/
def Event.bytes : Event → Bytes
  | terminator _ => [terminatorTag]
  | instructionStart i => i.bytes
  | argumentStart a => [a.id]
  | operand _ _ o => o.bytes
  | argumentEnd _ => [listEnd]
  | instructionEnd _ _ => [listEnd]
  | text run => run.bytes

/-- The events of an argument of an instruction. -/
def Argument.events (instruction : InstructionHead) (argument : Argument) : List Event :=
  .argumentStart argument.toArgumentHead ::
    argument.operands.map (.operand instruction argument.toArgumentHead) ++
    [.argumentEnd argument.toArgumentHead]

/-- The events of an instruction. -/
def Instruction.events (instruction : Instruction) : List Event :=
  .instructionStart instruction.toInstructionHead ::
    instruction.arguments.flatMap (Argument.events instruction.toInstructionHead) ++
    [.instructionEnd instruction.toInstructionHead instruction.finish]

/-- The events of a unit. -/
def Command.events : Command → List Event
  | terminator address => [.terminator address]
  | instruction i => i.events
  | text run => [.text run]

/-- The events of an argument stand for its stored form. -/
theorem Argument.flatMap_bytes_events (instruction : InstructionHead) (argument : Argument) :
    (argument.events instruction).flatMap Event.bytes = argument.bytes := by
  have operands : ∀ list : List Operand,
      (list.map (Event.operand instruction argument.toArgumentHead)).flatMap Event.bytes =
        list.flatMap Operand.bytes := by
    intro list
    induction list with
    | nil => rfl
    | cons o list ih =>
      rw [List.map_cons, List.flatMap_cons, List.flatMap_cons, ih]
      rfl
  simp [Argument.events, Argument.bytes, Event.bytes, operands]

/-- The events of an instruction stand for its stored form. -/
theorem Instruction.flatMap_bytes_events (instruction : Instruction) :
    instruction.events.flatMap Event.bytes = instruction.bytes := by
  have arguments : ∀ list : List Argument,
      (list.flatMap (Argument.events instruction.toInstructionHead)).flatMap Event.bytes =
        list.flatMap Argument.bytes := by
    intro list
    induction list with
    | nil => rfl
    | cons a list ih =>
      rw [List.flatMap_cons, List.flatMap_append, List.flatMap_cons, ih,
        Argument.flatMap_bytes_events]
  simp only [Instruction.events, Instruction.bytes, List.flatMap_append, List.flatMap_cons,
    arguments, List.cons_append]
  simp [Event.bytes]

/-- The events of a unit stand for its stored form. -/
theorem Command.flatMap_bytes_events (command : Command) :
    command.events.flatMap Event.bytes = command.bytes := by
  cases command with
  | terminator address => rfl
  | instruction i => exact i.flatMap_bytes_events
  | text run => simp [events, bytes, Event.bytes]

end NovelScript
