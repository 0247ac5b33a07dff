import NovelScript.Operand.Value
import NovelScript.Script.FormatError

/-!
# Reading operand values

A value is read from the front of a byte string, at an address that is only used to say where the
script ended too early. A value of fixed width is missed as a whole; for a string the length is
missed first and the text after it.

Reading takes off exactly the stored form of the value that it returns (`read_eq_ok`), and reads
every stored form back (`read_bytes`).
-/

set_option autoImplicit false

namespace NovelScript

/-- The next `count` bytes and what follows them. -/
def takeBytes (address count : Nat) (bytes : Bytes) : Except FormatError (Bytes × Bytes) :=
  match bytes.split? count with
  | some parts => .ok parts
  | none => .error (.truncated address count)

/-- Bytes that stand in front are taken off whole. -/
theorem takeBytes_append {front : Bytes} {count : Nat} (width : front.length = count)
    (address : Nat) (rest : Bytes) :
    takeBytes address count (front ++ rest) = .ok (front, rest) := by
  simp [takeBytes, Bytes.split?_append width]

/-- What is taken off stood in front, and is as long as asked for. -/
theorem takeBytes_eq_ok {address count : Nat} {bytes front rest : Bytes}
    (h : takeBytes address count bytes = .ok (front, rest)) :
    bytes = front ++ rest ∧ front.length = count := by
  unfold takeBytes at h
  split at h
  case h_1 parts taken =>
    simp only [Except.ok.injEq] at h
    subst h
    exact Bytes.split?_eq_some taken
  case h_2 => simp at h

namespace Value

/-- The value of the given shape at the front of `bytes`, and what follows it. -/
def read (shape : Shape) (address : Nat) (bytes : Bytes) : Except FormatError (Value × Bytes) :=
  match shape with
  | .int32 => do
    let (word, rest) ← takeBytes address 4 bytes
    return (.int32 (BitVec.ofNat 32 (LittleEndian.decode word)), rest)
  | .int32Variant kind => do
    let (word, rest) ← takeBytes address 4 bytes
    return (.int32Variant kind (BitVec.ofNat 32 (LittleEndian.decode word)), rest)
  | .int16 => do
    let (word, rest) ← takeBytes address 2 bytes
    return (.int16 (BitVec.ofNat 16 (LittleEndian.decode word)), rest)
  | .int8 => do
    let (word, rest) ← takeBytes address 1 bytes
    return (.int8 (BitVec.ofNat 8 (LittleEndian.decode word)), rest)
  | .string => do
    let (length, rest) ← takeBytes address 4 bytes
    let (payload, rest) ← takeBytes (address + 4) (LittleEndian.decode length) rest
    return (.string payload, rest)
  | .float64 => do
    let (word, rest) ← takeBytes address 8 bytes
    return (.float64 (BitVec.ofNat 64 (LittleEndian.decode word)), rest)
  | .marker => .ok (.marker, bytes)

/-- The word that was read is the one that its stored form spells. -/
theorem encode_ofNat_decode {word : Bytes} {width : Nat} (h : word.length = width) :
    LittleEndian.encode width (BitVec.ofNat (8 * width) (LittleEndian.decode word)).toNat =
      word := by
  have small := LittleEndian.decode_lt word
  rw [h, LittleEndian.capacity_eq_shiftLeft, Nat.one_shiftLeft] at small
  rw [BitVec.toNat_ofNat, Nat.mod_eq_of_lt small, ← h, LittleEndian.encode_decode]

/-- A word is read back from its stored form. -/
theorem ofNat_decode_encode {width : Nat} (word : BitVec (8 * width)) :
    BitVec.ofNat (8 * width) (LittleEndian.decode (LittleEndian.encode width word.toNat)) =
      word := by
  have small : word.toNat < LittleEndian.capacity width := by
    rw [LittleEndian.capacity_eq_shiftLeft, Nat.one_shiftLeft]
    exact word.isLt
  rw [LittleEndian.decode_encode_of_lt small, BitVec.ofNat_toNat, BitVec.setWidth_eq]

/-- Reading a value takes off exactly its stored form, and the value has the shape asked for. -/
theorem read_eq_ok {shape : Shape} {address : Nat} {bytes rest : Bytes} {value : Value}
    (h : read shape address bytes = .ok (value, rest)) :
    bytes = value.bytes ++ rest ∧ value.shape = shape ∧ value.Fits := by
  cases shape
  case marker =>
    simp only [read, Except.ok.injEq, Prod.mk.injEq] at h
    obtain ⟨rfl, rfl⟩ := h
    exact ⟨rfl, rfl, trivial⟩
  case string =>
    simp only [read, bind, Except.bind, pure, Except.pure] at h
    split at h
    · simp at h
    next parts first =>
    obtain ⟨length, middle⟩ := parts
    simp only at h
    split at h
    · simp at h
    next parts second =>
    obtain ⟨payload, last⟩ := parts
    simp only [Except.ok.injEq, Prod.mk.injEq] at h
    obtain ⟨rfl, rfl⟩ := h
    obtain ⟨rfl, wide⟩ := takeBytes_eq_ok first
    obtain ⟨rfl, long⟩ := takeBytes_eq_ok second
    have small := LittleEndian.decode_lt length
    rw [wide] at small
    refine ⟨?_, rfl, ?_⟩
    · have stored := LittleEndian.encode_decode length
      rw [wide] at stored
      simp [Value.bytes, long, stored]
    · rw [← long] at small
      exact small
  all_goals
    simp only [read, bind, Except.bind, pure, Except.pure] at h
    split at h
    · simp at h
    next parts first =>
    obtain ⟨word, last⟩ := parts
    simp only [Except.ok.injEq, Prod.mk.injEq] at h
    obtain ⟨rfl, rfl⟩ := h
    obtain ⟨rfl, wide⟩ := takeBytes_eq_ok first
    refine ⟨?_, rfl, trivial⟩
    simp only [Value.bytes]
    congr 1
    exact (encode_ofNat_decode wide).symm

/-- The stored form of a value is read back as that value, whatever follows it. -/
theorem read_bytes {value : Value} (fits : value.Fits) (address : Nat) (rest : Bytes) :
    read value.shape address (value.bytes ++ rest) = .ok (value, rest) := by
  cases value
  case marker => rfl
  case string payload =>
    have small : payload.length < LittleEndian.capacity 4 := fits
    simp only [read, shape, Value.bytes, List.append_assoc]
    rw [takeBytes_append (LittleEndian.length_encode 4 payload.length)]
    simp only [bind, Except.bind, LittleEndian.decode_encode_of_lt small]
    rw [takeBytes_append rfl]
    rfl
  case int32 word =>
    simp only [read, shape, Value.bytes]
    rw [takeBytes_append (LittleEndian.length_encode 4 word.toNat)]
    exact congrArg (fun w => Except.ok (Value.int32 w, rest)) (@ofNat_decode_encode 4 word)
  case int32Variant kind word =>
    simp only [read, shape, Value.bytes]
    rw [takeBytes_append (LittleEndian.length_encode 4 word.toNat)]
    exact congrArg (fun w => Except.ok (Value.int32Variant kind w, rest))
      (@ofNat_decode_encode 4 word)
  case int16 word =>
    simp only [read, shape, Value.bytes]
    rw [takeBytes_append (LittleEndian.length_encode 2 word.toNat)]
    exact congrArg (fun w => Except.ok (Value.int16 w, rest)) (@ofNat_decode_encode 2 word)
  case int8 word =>
    simp only [read, shape, Value.bytes]
    rw [takeBytes_append (LittleEndian.length_encode 1 word.toNat)]
    exact congrArg (fun w => Except.ok (Value.int8 w, rest)) (@ofNat_decode_encode 1 word)
  case float64 bits =>
    simp only [read, shape, Value.bytes]
    rw [takeBytes_append (LittleEndian.length_encode 8 bits.toNat)]
    exact congrArg (fun w => Except.ok (Value.float64 w, rest)) (@ofNat_decode_encode 8 bits)

end Value

end NovelScript
