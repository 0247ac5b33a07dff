/-!
# The shortest decimal of a binary floating point number

A 64-bit floating point number stands for every real that rounds to it, an interval around its exact
value. Its shortest decimal is the point of that interval on the coarsest decimal grid that has one;
of two points on that grid the one nearer to the exact value, and the upper one of two equally near.

All arithmetic is exact. Lengths are counted in units of `2 ^ (-1076)`, in which the value of every
finite number and both ends of its interval are whole.
-/

set_option autoImplicit false

namespace NovelScript

/-- The number `coefficient * 10 ^ exponent`. -/
structure Decimal where
  /-- The digits, read as a whole number. -/
  coefficient : Nat
  /-- The power of ten that they count. -/
  exponent : Int
  deriving DecidableEq

namespace Binary64

/-- A binary floating point number taken apart. -/
inductive Parts
  /-- Not a number. -/
  | notANumber
  /-- An infinity. -/
  | infinite (negative : Bool)
  /-- A zero. -/
  | zero (negative : Bool)
  /-- A finite number other than zero, with the interval of the reals that round to its size. -/
  | finite (negative : Bool) (low value high : Nat) (closed : Bool)
  deriving DecidableEq

/-- Takes the bits of a floating point number apart. The interval is closed when the last bit of the
significand is zero; it is narrower below a power of two, where the numbers are denser. -/
def parts (bits : BitVec 64) : Parts :=
  let negative := bits.msb
  let biased := (bits.extractLsb' 52 11).toNat
  let fraction := (bits.extractLsb' 0 52).toNat
  if biased = 2047 then
    if fraction = 0 then .infinite negative else .notANumber
  else if biased = 0 ∧ fraction = 0 then .zero negative
  else
    let significand := if biased = 0 then fraction else fraction + 1 <<< 52
    let shift := if biased = 0 then 2 else biased + 1
    let value := significand <<< shift
    let below := if fraction = 0 ∧ 1 < biased then 1 <<< (shift - 2) else 1 <<< (shift - 1)
    let above := 1 <<< (shift - 1)
    .finite negative (value - below) value (value + above) (significand % 2 = 0)

/-- Whether a point lies in an interval. -/
def within (low high : Nat) (closed : Bool) (point : Nat) : Bool :=
  if closed then low ≤ point && point ≤ high else low < point && point < high

/-- The point of the interval on the grid of multiples of `10 ^ exponent`, if there is one. -/
def onGrid? (low value high : Nat) (closed : Bool) (exponent : Int) : Option Decimal :=
  let scale := Nat.pow 10 (-exponent).toNat
  let step := Nat.pow 10 exponent.toNat <<< 1076
  let floor := value * scale / step
  let hit (coefficient : Nat) : Bool :=
    within (low * scale) (high * scale) closed (coefficient * step)
  match hit floor, hit (floor + 1) with
  | true, true =>
    let past := value * scale - floor * step
    some { coefficient := if step ≤ 2 * past then floor + 1 else floor, exponent }
  | true, false => some { coefficient := floor, exponent }
  | false, true => some { coefficient := floor + 1, exponent }
  | false, false => none

/-- The powers of ten among which the grid of a finite number is found, the largest first. -/
def gridExponents : List Int :=
  (List.range 633).map fun (k : Nat) => 308 - Int.ofNat k

/-- The shortest decimal in an interval. The smallest grid is finer than the narrowest interval, so
a point is always found. -/
def shortest (low value high : Nat) (closed : Bool) : Decimal :=
  (gridExponents.findSome? (onGrid? low value high closed)).getD { coefficient := 0, exponent := 0 }

end Binary64

end NovelScript
