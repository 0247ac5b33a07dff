import NovelScript.Script.Walk

/-!
# Decoding a script

The units of a script are put together from its events: arguments are collected in the open
instruction, and operands in its latest argument. The collections grow at the front, so everything
that is open holds its lists with the latest member first, and is put in address order when it is
closed.

An argument without an open instruction, and an operand without an argument to go to, would be
dropped in silence.
-/

set_option autoImplicit false

namespace NovelScript

/-- Opens another argument. -/
def Instruction.openArgument (argument : ArgumentHead) (instruction : Instruction) : Instruction :=
  let opened : Argument := { toArgumentHead := argument, operands := [] }
  { instruction with arguments := opened :: instruction.arguments }

/-- Gives an operand to the latest argument, if there is one. -/
def Instruction.addOperand (operand : Operand) (instruction : Instruction) : Instruction :=
  match instruction.arguments with
  | [] => instruction
  | latest :: earlier =>
    let grown : Argument := { latest with operands := operand :: latest.operands }
    { instruction with arguments := grown :: earlier }

/-- An argument with its operands in address order. -/
def Argument.inOrder (argument : Argument) : Argument :=
  { argument with operands := argument.operands.reverse }

/-- An open instruction that ends at `finish`, with everything in address order. -/
def Instruction.closed (finish : Nat) (instruction : Instruction) : Instruction :=
  { instruction with arguments := instruction.arguments.reverse.map Argument.inOrder, finish }

/-- The parts of a script put together so far, each list with the latest member first. -/
structure Builder where
  /-- The units that are complete. -/
  commands : List Command
  /-- The open instruction, if there is one. -/
  pending? : Option Instruction
  deriving DecidableEq

namespace Builder

/-- The builder before the first event. -/
def empty : Builder :=
  { commands := [], pending? := none }

/-- Adds what an event completes, or puts its part into the open instruction. -/
def add (builder : Builder) : Event → Builder
  | .terminator address =>
    { builder with commands := .terminator address :: builder.commands }
  | .instructionStart head =>
    let opened : Instruction :=
      { toInstructionHead := head, arguments := [], finish := head.address }
    { builder with pending? := some opened }
  | .argumentStart argument =>
    { builder with pending? := builder.pending?.map (.openArgument argument) }
  | .operand _ _ operand =>
    { builder with pending? := builder.pending?.map (.addOperand operand) }
  | .argumentEnd _ => builder
  | .instructionEnd _ finish =>
    match builder.pending? with
    | some instruction =>
      { commands := .instruction (instruction.closed finish) :: builder.commands, pending? := none }
    | none => builder
  | .text run => { builder with commands := .text run :: builder.commands }

/-- The builder as a visitor that refuses nothing. -/
def visitor : Visitor Builder Empty := fun builder event => (builder.add event, none)

end Builder

/-- The units of a script in address order, or its first fault. -/
def decode (data : Bytes) : Except FormatError (List Command) :=
  let result := walk Builder.visitor Builder.empty data
  match result.stop with
  | none => .ok result.state.commands.reverse
  | some (.fault fault) => .error fault
  | some (.refused reason) => nomatch reason

end NovelScript
