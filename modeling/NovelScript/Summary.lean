import NovelScript.Jump.Hint
import NovelScript.Script.Tree

/-!
# Counting what a script contains

A summary counts the units of a script by kind, its string operands, and its jump-shaped operands by
their plausible readings.
-/

set_option autoImplicit false

namespace NovelScript

/-- Counts over a script. -/
structure Summary where
  /-- The length of the script. -/
  size : Nat
  /-- Terminators. -/
  terminators : Nat
  /-- Instructions. -/
  instructions : Nat
  /-- Runs of raw text. -/
  textRuns : Nat
  /-- String operands. -/
  stringOperands : Nat
  /-- Jump-shaped operands. -/
  jumpShaped : Nat
  /-- Jump-shaped operands that read as the address of a plausible target. -/
  absoluteCandidates : Nat
  /-- Jump-shaped operands that read as the distance of a plausible target. -/
  relativeCandidates : Nat
  /-- Absolute candidates that an injection relocates. -/
  relocatableSites : Nat
  deriving DecidableEq

namespace Summary

/-- The number of lines in a dump of the script. -/
def textUnits (summary : Summary) : Nat :=
  summary.textRuns + summary.stringOperands

/-- Counts over the units that `data` decodes to. -/
def ofCommands (data : Bytes) (commands : List Command) : Summary :=
  let operands := commands.flatMap Command.operands
  { size := data.length
    terminators := commands.countP fun | .terminator _ => true | _ => false
    instructions := commands.countP fun | .instruction _ => true | _ => false
    textRuns := commands.countP fun | .text _ => true | _ => false
    stringOperands := operands.countP fun operand => operand.value.payload?.isSome
    jumpShaped := operands.countP fun operand => operand.value.jumpWord?.isSome
    absoluteCandidates := operands.countP fun operand => (operand.absoluteTarget? data).isSome
    relativeCandidates := operands.countP fun operand => (operand.relativeTarget? data).isSome
    relocatableSites := operands.countP fun operand =>
      operand.shape.isRelocatable && (operand.absoluteTarget? data).isSome }

end Summary

/-- Counts what a script contains. -/
def summarize (data : Bytes) : Except FormatError Summary :=
  match decode data with
  | .ok commands => .ok (Summary.ofCommands data commands)
  | .error fault => .error fault

end NovelScript
