import NovelScript.Bytes

/-!
# Little-endian words

Every multi-byte number of a script is stored least significant byte first. `encode` writes the low
bytes of a number at a fixed width and `decode` reads a byte string back as a number. They undo each
other in both directions at a given width, so a word has exactly one stored form. `capacity` counts
the numbers that a width can store.
-/

set_option autoImplicit false

namespace NovelScript.LittleEndian

/-- The low `width` bytes of `n`, least significant first; higher bytes are dropped. -/
def encode : (width n : Nat) → Bytes
  | 0, _ => []
  | width + 1, n => UInt8.ofNat n :: encode width (n / 256)

/-- The number whose bytes, least significant first, are given. -/
def decode : Bytes → Nat
  | [] => 0
  | b :: bytes => b.toNat + 256 * decode bytes

/-- How many numbers can be stored in `width` bytes. -/
def capacity : (width : Nat) → Nat
  | 0 => 1
  | width + 1 => 256 * capacity width

/-- A byte holds eight bits. -/
theorem capacity_eq_shiftLeft (width : Nat) : capacity width = 1 <<< (8 * width) := by
  induction width with
  | zero => rfl
  | succ width ih =>
    simp only [capacity, ih, Nat.mul_succ, Nat.shiftLeft_succ]
    omega

/-- A stored form has the width that was asked for, whether the number fits or not. -/
@[simp] theorem length_encode (width n : Nat) : (encode width n).length = width := by
  induction width generalizing n with
  | zero => rfl
  | succ width ih => simp [encode, ih]

/-- A number read from bytes is one of those that their width can store. -/
theorem decode_lt (bytes : Bytes) : decode bytes < capacity bytes.length := by
  induction bytes with
  | nil => exact Nat.one_pos
  | cons b bytes ih =>
    have hb : b.toNat < 256 := b.toNat_lt
    simp only [decode, List.length_cons, capacity]
    omega

/-- Reading back what was written gives the number, cut to the width. -/
theorem decode_encode (width n : Nat) : decode (encode width n) = n % capacity width := by
  induction width generalizing n with
  | zero => exact (Nat.mod_one n).symm
  | succ width ih =>
    have hb : (UInt8.ofNat n).toNat = n % 256 := by simp
    rw [encode, decode, ih, hb, capacity, Nat.mod_mul]

/-- A number that fits its width is read back unchanged. -/
theorem decode_encode_of_lt {width n : Nat} (h : n < capacity width) :
    decode (encode width n) = n := by
  rw [decode_encode, Nat.mod_eq_of_lt h]

/-- Writing what was read gives the bytes back. -/
theorem encode_decode (bytes : Bytes) : encode bytes.length (decode bytes) = bytes := by
  induction bytes with
  | nil => rfl
  | cons b bytes ih =>
    have hb : b.toNat < 256 := b.toNat_lt
    have low : UInt8.ofNat (b.toNat + 256 * decode bytes) = b := by
      apply UInt8.toNat_inj.mp
      simp
    have high : (b.toNat + 256 * decode bytes) / 256 = decode bytes := by omega
    simp only [decode, List.length_cons, encode, low, high, ih]

/-- Writing a number cut to the width writes the number itself. -/
theorem encode_mod (width n : Nat) : encode width (n % capacity width) = encode width n := by
  rw [← decode_encode]
  have h := encode_decode (encode width n)
  rwa [length_encode] at h

end NovelScript.LittleEndian
