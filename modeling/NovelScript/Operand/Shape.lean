import NovelScript.Bytes

/-!
# The operand tag table

An operand is a tag byte followed by a value, and the tag alone decides how the value is laid out.
`Shape.ofTag?` is that table. A tag outside it has no width, so nothing after it can be read.

Two questions are asked of a shape besides its width. A jump-shaped value may be read as an address
of the script, and a relocatable value follows its target after text has changed its length. The
four 32-bit variants are jump-shaped but stay as they are.
-/

set_option autoImplicit false

namespace NovelScript

/-- How the bytes after an operand tag are laid out. -/
inductive Shape
  /-- A plain 32-bit integer, the only relocatable shape. -/
  | int32
  /-- One of the four 32-bit variants, counted from zero. -/
  | int32Variant (kind : Fin 4)
  /-- A 16-bit integer. -/
  | int16
  /-- An 8-bit integer. -/
  | int8
  /-- A 32-bit length followed by that many bytes. -/
  | string
  /-- A 64-bit floating point number. -/
  | float64
  /-- No bytes at all. -/
  | marker
  deriving DecidableEq

/-- The inclusive ranges of the tags that carry no value. -/
def markerRanges : List (UInt8 × UInt8) :=
  [(0x80, 0xB8), (0xC0, 0xC0), (0xC8, 0xC9), (0xD0, 0xD2), (0xD4, 0xDE)]

/-- Whether a tag carries no value. -/
def isMarker (tag : UInt8) : Bool :=
  markerRanges.any fun (low, high) => low ≤ tag && tag ≤ high

namespace Shape

/-- The shape that a tag announces, if the tag is known. -/
def ofTag? (tag : UInt8) : Option Shape :=
  match tag with
  | 0x01 => some int32
  | 0x02 => some int16
  | 0x03 => some int8
  | 0x04 => some string
  | 0x05 => some float64
  | 0x10 => some (int32Variant 0)
  | 0x11 => some (int32Variant 1)
  | 0x12 => some (int32Variant 2)
  | 0x13 => some (int32Variant 3)
  | tag => if isMarker tag then some marker else none

/-- The width of the value in bytes, unless a length in front of it decides. -/
def width? : Shape → Option Nat
  | int32 => some 4
  | int32Variant _ => some 4
  | int16 => some 2
  | int8 => some 1
  | string => none
  | float64 => some 8
  | marker => some 0

/-- Whether a value of this shape may be read as an address of the script. -/
def isJumpShaped : Shape → Bool
  | int32 => true
  | int32Variant _ => true
  | _ => false

/-- Whether a value of this shape is corrected when text before its target changes length. -/
def isRelocatable : Shape → Bool
  | int32 => true
  | _ => false

/-- Every relocatable shape is jump-shaped. -/
theorem isJumpShaped_of_isRelocatable {shape : Shape} (h : shape.isRelocatable = true) :
    shape.isJumpShaped = true := by
  cases shape <;> simp_all [isRelocatable, isJumpShaped]

end Shape

end NovelScript
