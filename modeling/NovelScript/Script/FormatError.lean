import NovelScript.Text.Numeral

/-!
# Why a byte string is not a script

A byte string fails to be a script for one of three reasons, each found at one place: a byte that
starts no unit, an operand tag that is not in the table, or an end that comes too early.
-/

set_option autoImplicit false

namespace NovelScript

/-- The first fault met when a byte string is read as a script. -/
inductive FormatError
  /-- The byte at `address` starts no unit. -/
  | unknownUnitTag (tag : UInt8) (address : Nat)
  /-- The byte at `address` is no known operand tag. -/
  | unknownOperandTag (tag : UInt8) (address : Nat)
  /-- The script ends within the `needed` bytes read at `address`. -/
  | truncated (address needed : Nat)
  deriving DecidableEq

namespace FormatError

/-- What is told to the user. -/
def message : FormatError → String
  | unknownUnitTag tag address =>
    s!"unknown unit tag {Numeral.paddedHex 4 tag.toNat} at {Numeral.hex address}"
  | unknownOperandTag tag address =>
    s!"unknown operand tag {Numeral.paddedHex 4 tag.toNat} at {Numeral.hex address}"
  | truncated address needed =>
    s!"unexpected end of script: {Numeral.decimal needed} byte(s) needed at {Numeral.hex address}"

end FormatError

end NovelScript
