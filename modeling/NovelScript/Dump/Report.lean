import NovelScript.Decimal.Positional
import NovelScript.Jump.Hint
import NovelScript.Line.Escape
import NovelScript.Text.Numeral

/-!
# The debug report of a script

The report has one line for every plausible reading of a jump-shaped operand, then a header, then
one line for every unit with its address, its executor and its contents.
-/

set_option autoImplicit false

namespace NovelScript.Report

open Numeral (hex paddedHex decimal)

/-- The number by which a 32-bit variant is known: one to four. -/
def variantNumber (kind : Fin 4) : String :=
  decimal (kind.val + 1)

/-- What one plausible reading of an operand is reported as. -/
def hintLine (operand : Operand) : JumpHint → String
  | .absolute target =>
    s!"MaybeAbsoluteJump at {hex operand.valueAddress}, target: {hex target}"
  | .relative target =>
    match operand.value with
    | .int32Variant kind word =>
      s!"MaybeRelativeJump{variantNumber kind} at {hex operand.valueAddress}, " ++
        s!"target: {hex target}, rel: {hex word.toNat}"
    | _ => s!"MaybeRelativeJump at {hex operand.valueAddress}, target: {hex target}"

/-- The lines on the plausible readings of an operand. -/
def hintLines (data : Bytes) (operand : Operand) : List Bytes :=
  (operand.jumpHints data).map fun hint => Bytes.ascii (hintLine operand hint)

/-- The line between the readings and the units. -/
def header : Bytes :=
  Bytes.ascii "Command Address, Executor Type, Command Text"

/-- The value of an operand in the listing. -/
def value (operand : Operand) : Bytes :=
  match operand.value with
  | .int32 word => Bytes.ascii s!"ReadInt32[{hex word.toNat}]"
  | .int32Variant kind word =>
    Bytes.ascii s!"ReadInt32_AsType{variantNumber kind}[{hex word.toNat}]"
  | .int16 word => Bytes.ascii s!"ReadInt16[{hex word.toNat}]"
  | .int8 word => Bytes.ascii s!"ReadInt8[{hex word.toNat}]"
  | .float64 bits => Bytes.ascii s!"ReadDouble[{Binary64.text bits}]"
  | .marker => Bytes.ascii s!"Marker[{hex operand.tag.toNat}]"
  | .string payload => Bytes.ascii "ReadString[" ++ Line.escape payload ++ Bytes.ascii "]"

/-- A plausible reading in the listing. -/
def hint : JumpHint → Bytes
  | .absolute target => Bytes.ascii s!"[MaybeAbsoluteJump to {hex target}]"
  | .relative target => Bytes.ascii s!"[MaybeRelativeJump to {hex target}]"

/-- An operand in the listing. -/
def operand (data : Bytes) (operand : Operand) : Bytes :=
  value operand ++ (operand.jumpHints data).flatMap hint ++ Bytes.ascii ", "

/-- An argument in the listing. -/
def argument (data : Bytes) (argument : Argument) : Bytes :=
  Bytes.ascii s!"ArgId.{hex argument.id.toNat}< " ++
    argument.operands.flatMap (Report.operand data) ++ Bytes.ascii "> | "

/-- The contents of a unit in the listing. -/
def contents (data : Bytes) : Command → Bytes
  | .terminator _ => Bytes.ascii "0x1A"
  | .text run => Bytes.ascii "RawText: " ++ run.bytes
  | .instruction i =>
    if i.arguments.isEmpty then Bytes.ascii "Empty" else i.arguments.flatMap (argument data)

/-- What the line of a unit opens with: its address and its executor. -/
def opening (command : Command) : Bytes :=
  Bytes.ascii s!"{paddedHex 8 command.address}, {paddedHex 4 command.executor.toNat}, "

/-- The line of a unit. -/
def unitLine (data : Bytes) (command : Command) : Bytes :=
  opening command ++ contents data command

/-- The lines of the report. -/
def lines (data : Bytes) (commands : List Command) : List Bytes :=
  (commands.flatMap Command.operands).flatMap (hintLines data) ++
    header :: commands.map (unitLine data)

/-- The report, each line closed by a line feed. -/
def bytes (data : Bytes) (commands : List Command) : Bytes :=
  (lines data commands).flatMap fun line => line ++ [Bytes.lf]

end NovelScript.Report
