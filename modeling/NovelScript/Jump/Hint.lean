import NovelScript.Jump.Plausible

/-!
# Readings of a value as a jump

A jump-shaped value has two readings: as an address of the script, and as a distance from the end of
its operand. A reading is kept when it lands on a plausible target. Distances are added in 32 bits,
so a negative one jumps backwards.
-/

set_option autoImplicit false

namespace NovelScript

/-- A reading of a value that lands on a plausible target. -/
inductive JumpHint
  /-- The value is the address of the target. -/
  | absolute (target : Nat)
  /-- The value is the distance of the target from the end of the operand. -/
  | relative (target : Nat)
  deriving DecidableEq

/-- The target of a value read as an address, if it is plausible; zero and below never are. -/
def absoluteTarget? (data : Bytes) (word : BitVec 32) : Option Nat :=
  if 0 < word.toInt ∧ isPlausibleTarget data word.toNat = true then some word.toNat else none

/-- The target of a value read as a distance from `finish`, if it is plausible. -/
def relativeTarget? (data : Bytes) (word : BitVec 32) (finish : Nat) : Option Nat :=
  let target := (word + BitVec.ofNat 32 finish).toNat
  if isPlausibleTarget data target then some target else none

/-- The plausible readings of a value whose operand ends at `finish`, as an address first. -/
def jumpHints (data : Bytes) (word : BitVec 32) (finish : Nat) : List JumpHint :=
  ((absoluteTarget? data word).map .absolute).toList ++
    ((relativeTarget? data word finish).map .relative).toList

namespace Operand

/-- The target of an operand read as an address, if it is jump-shaped and the target plausible. -/
def absoluteTarget? (data : Bytes) (operand : Operand) : Option Nat :=
  operand.value.jumpWord?.bind (NovelScript.absoluteTarget? data)

/-- The target of an operand read as a distance, if it is jump-shaped and the target plausible. -/
def relativeTarget? (data : Bytes) (operand : Operand) : Option Nat :=
  operand.value.jumpWord?.bind fun word => NovelScript.relativeTarget? data word operand.finish

/-- The plausible readings of an operand; only a jump-shaped one has any. -/
def jumpHints (data : Bytes) (operand : Operand) : List JumpHint :=
  match operand.value.jumpWord? with
  | some word => NovelScript.jumpHints data word operand.finish
  | none => []

end Operand

end NovelScript
