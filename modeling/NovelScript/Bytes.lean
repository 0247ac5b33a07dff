/-!
# Byte strings

Scripts, text streams and reports are all byte strings. They are lists of bytes rather than packed
arrays: a list is what a proof can take apart, and the outer layer converts at the edges. Script
text is never transcoded, so nothing here knows about characters beyond the ASCII texts that the
program itself writes.
-/

set_option autoImplicit false

namespace NovelScript

/-- A byte string, first byte first. -/
abbrev Bytes := List UInt8

namespace Bytes

/-- The carriage return byte. -/
def cr : UInt8 := 0x0D

/-- The line feed byte. -/
def lf : UInt8 := 0x0A

/-- The bytes of an ASCII text, one byte a character. -/
def ascii (text : String) : Bytes :=
  text.toList.map fun c => UInt8.ofNat c.toNat

/-- The first `count` bytes and what follows them, when there are that many. -/
def split? (count : Nat) (bytes : Bytes) : Option (Bytes × Bytes) :=
  if count ≤ bytes.length then some (bytes.take count, bytes.drop count) else none

/-- What follows `front` when `bytes` starts with it. -/
def after? : (front bytes : Bytes) → Option Bytes
  | [], bytes => some bytes
  | _ :: _, [] => none
  | a :: front, b :: bytes => if a = b then after? front bytes else none

/-- What follows the first occurrence of `pattern` in `bytes`. -/
def afterFirst? (pattern : Bytes) : Bytes → Option Bytes
  | [] => after? pattern []
  | b :: bytes =>
    match after? pattern (b :: bytes) with
    | some rest => some rest
    | none => afterFirst? pattern bytes

/-- Bytes in front split off exactly when they are as many as asked for. -/
theorem split?_append {front : Bytes} {count : Nat} (width : front.length = count) (rest : Bytes) :
    split? count (front ++ rest) = some (front, rest) := by
  subst width
  simp [split?]

/-- A split loses nothing, and its first part has the width asked for. -/
theorem split?_eq_some {count : Nat} {bytes front rest : Bytes}
    (h : split? count bytes = some (front, rest)) :
    bytes = front ++ rest ∧ front.length = count := by
  unfold split? at h
  split at h
  case isTrue enough =>
    simp only [Option.some.injEq, Prod.mk.injEq] at h
    obtain ⟨rfl, rfl⟩ := h
    exact ⟨(List.take_append_drop count bytes).symm, by simp [enough]⟩
  case isFalse => simp at h

/-- A split fails exactly when too few bytes are left. -/
theorem split?_eq_none_iff {count : Nat} {bytes : Bytes} :
    split? count bytes = none ↔ bytes.length < count := by
  unfold split?
  split <;> simp_all

/-- `after?` takes off exactly the bytes asked for. -/
theorem after?_eq_some_iff {front bytes rest : Bytes} :
    after? front bytes = some rest ↔ bytes = front ++ rest := by
  induction front generalizing bytes with
  | nil => simp [after?]
  | cons a front ih =>
    cases bytes with
    | nil => simp [after?]
    | cons b bytes =>
      by_cases h : a = b
      · simp [after?, h, ih]
      · simp [after?, h, Ne.symm h]

end Bytes

end NovelScript
