import NovelScript.Operand.Value

/-!
# Scripts as trees

A script is a flat sequence of units. A terminator is a single byte; an instruction names an
executor and carries arguments, each of them an id with a list of operands; everything else is a run
of raw text. Each part remembers the address at which it was found, so that reports and relocation
can speak about places.

The stored form of every part is its `bytes`. Addresses are not stored, they follow from it.
-/

set_option autoImplicit false

namespace NovelScript

/-- The byte of a terminator. -/
def terminatorTag : UInt8 := 0x1A

/-- The byte that starts an instruction. -/
def instructionTag : UInt8 := 0x1B

/-- The byte that closes an argument list and an operand list. -/
def listEnd : UInt8 := 0xFF

/-- The least byte of raw text. -/
def textFloor : UInt8 := 0x20

/-- Whether a byte belongs to raw text. -/
def isText (b : UInt8) : Bool :=
  textFloor ≤ b

/-- A tagged value and the address of its tag. -/
structure Operand where
  /-- The tag byte. -/
  tag : UInt8
  /-- The address of the tag byte. -/
  address : Nat
  /-- The value after the tag. -/
  value : Value
  deriving DecidableEq

namespace Operand

/-- The address of the first byte after the tag. -/
def valueAddress (operand : Operand) : Nat :=
  operand.address + 1

/-- The address one past the operand. -/
def finish (operand : Operand) : Nat :=
  operand.address + 1 + operand.value.size

/-- The layout of the value. -/
def shape (operand : Operand) : Shape :=
  operand.value.shape

/-- Where the text of a string operand starts: after the tag and the length. -/
def payloadAddress (operand : Operand) : Nat :=
  operand.valueAddress + 4

/-- The stored form of an operand. -/
def bytes (operand : Operand) : Bytes :=
  operand.tag :: operand.value.bytes

/-- An operand is its tag and its value. -/
@[simp] theorem length_bytes (operand : Operand) :
    operand.bytes.length = 1 + operand.value.size := by
  simp [bytes, Nat.add_comm]

end Operand

/-- The head of an argument. -/
structure ArgumentHead where
  /-- The address of the id byte. -/
  address : Nat
  /-- The id byte. -/
  id : UInt8
  /-- The position of the argument in its instruction, counted from one. -/
  ordinal : Nat
  deriving DecidableEq

/-- An argument: its head and its operands in order. -/
structure Argument extends ArgumentHead where
  /-- The operands, in address order. -/
  operands : List Operand
  deriving DecidableEq

/-- The stored form of an argument. -/
def Argument.bytes (argument : Argument) : Bytes :=
  argument.id :: argument.operands.flatMap Operand.bytes ++ [listEnd]

/-- The head of an instruction. -/
structure InstructionHead where
  /-- The address of the instruction tag. -/
  address : Nat
  /-- Which executor runs the instruction. -/
  executor : UInt16
  deriving DecidableEq

/-- The stored form of the head of an instruction. -/
def InstructionHead.bytes (head : InstructionHead) : Bytes :=
  instructionTag :: LittleEndian.encode 2 head.executor.toNat

/-- An instruction: its head, its arguments in order and where it ends. -/
structure Instruction extends InstructionHead where
  /-- The arguments, in address order. -/
  arguments : List Argument
  /-- The address one past the byte that closes the argument list. -/
  finish : Nat
  deriving DecidableEq

/-- The stored form of an instruction. -/
def Instruction.bytes (instruction : Instruction) : Bytes :=
  instruction.toInstructionHead.bytes ++ instruction.arguments.flatMap Argument.bytes ++ [listEnd]

/-- The operands of an instruction, in address order. -/
def Instruction.operands (instruction : Instruction) : List Operand :=
  instruction.arguments.flatMap Argument.operands

/-- A run of raw text. -/
structure TextRun where
  /-- The address of the first byte of the run. -/
  address : Nat
  /-- The run itself. -/
  bytes : Bytes
  deriving DecidableEq

/-- The address one past a run of raw text. -/
def TextRun.finish (run : TextRun) : Nat :=
  run.address + run.bytes.length

/-- One unit of a script. -/
inductive Command
  /-- A terminator. -/
  | terminator (address : Nat)
  /-- An instruction with all its arguments. -/
  | instruction (instruction : Instruction)
  /-- A run of raw text. -/
  | text (run : TextRun)
  deriving DecidableEq

namespace Command

/-- The address of the first byte of a unit. -/
def address : Command → Nat
  | terminator address => address
  | instruction i => i.address
  | text run => run.address

/-- The address one past the last byte of a unit. -/
def finish : Command → Nat
  | terminator address => address + 1
  | instruction i => i.finish
  | text run => run.finish

/-- The executor of an instruction, and zero for any other unit. -/
def executor : Command → UInt16
  | instruction i => i.executor
  | _ => 0

/-- The operands of a unit, in address order; only an instruction has any. -/
def operands : Command → List Operand
  | instruction i => i.operands
  | _ => []

/-- The stored form of a unit. -/
def bytes : Command → Bytes
  | terminator _ => [terminatorTag]
  | instruction i => i.bytes
  | text run => run.bytes

end Command

/-- The stored form of a sequence of units. -/
def serialize (commands : List Command) : Bytes :=
  commands.flatMap Command.bytes

end NovelScript
