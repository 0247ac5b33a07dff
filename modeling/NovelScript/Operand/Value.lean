import NovelScript.Bytes.LittleEndian
import NovelScript.Operand.Shape

/-!
# Operand values

The value of an operand, and its one stored form. Integers are kept as words of their own width,
since a negative value is written and printed as its two's complement there. A floating point number
is kept as its 64 bits, so that no payload of a NaN is lost.
-/

set_option autoImplicit false

namespace NovelScript

/-- The value that follows an operand tag. -/
inductive Value
  /-- A plain 32-bit integer. -/
  | int32 (word : BitVec 32)
  /-- A 32-bit integer of one of the four variants, counted from zero. -/
  | int32Variant (kind : Fin 4) (word : BitVec 32)
  /-- A 16-bit integer. -/
  | int16 (word : BitVec 16)
  /-- An 8-bit integer. -/
  | int8 (word : BitVec 8)
  /-- Text, without the length in front of it. -/
  | string (payload : Bytes)
  /-- The bits of a 64-bit floating point number. -/
  | float64 (bits : BitVec 64)
  /-- The tag said it all. -/
  | marker
  deriving DecidableEq

namespace Value

/-- The shape of a value. -/
def shape : Value → Shape
  | int32 _ => .int32
  | int32Variant kind _ => .int32Variant kind
  | int16 _ => .int16
  | int8 _ => .int8
  | string _ => .string
  | float64 _ => .float64
  | marker => .marker

/-- The bytes that store a value after its tag. -/
def bytes : Value → Bytes
  | int32 word => LittleEndian.encode 4 word.toNat
  | int32Variant _ word => LittleEndian.encode 4 word.toNat
  | int16 word => LittleEndian.encode 2 word.toNat
  | int8 word => LittleEndian.encode 1 word.toNat
  | string payload => LittleEndian.encode 4 payload.length ++ payload
  | float64 bits => LittleEndian.encode 8 bits.toNat
  | marker => []

/-- The number of bytes that store a value after its tag. -/
def size : Value → Nat
  | string payload => 4 + payload.length
  | value => value.shape.width?.getD 0

/-- The word of a jump-shaped value. -/
def jumpWord? : Value → Option (BitVec 32)
  | int32 word => some word
  | int32Variant _ word => some word
  | _ => none

/-- The text of a string value. -/
def payload? : Value → Option Bytes
  | string payload => some payload
  | _ => none

/-- Whether a length in front of the value can say how long it is. -/
def Fits : Value → Prop
  | string payload => payload.length < 0x100000000
  | _ => True

/-- Only the length of a text has to be looked at. -/
instance (value : Value) : Decidable value.Fits := by
  cases value <;> unfold Fits <;> infer_instance

/-- The size of a value is the length of its stored form. -/
@[simp] theorem length_bytes (value : Value) : value.bytes.length = value.size := by
  cases value <;> simp [bytes, size, shape, Shape.width?]

/-- A value has a jump word exactly when its shape is jump-shaped. -/
theorem isSome_jumpWord? (value : Value) :
    value.jumpWord?.isSome = value.shape.isJumpShaped := by
  cases value <;> rfl

end Value

end NovelScript
