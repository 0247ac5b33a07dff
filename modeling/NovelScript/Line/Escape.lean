import NovelScript.Bytes

/-!
# Line breaks inside a line

The text of a string operand may hold line breaks, but a dumped line must not. A carriage return is
written `[r]` and a line feed `[n]`. Text that already holds one of these marks cannot be told apart
from an escaped break, and comes back as a real one.
-/

set_option autoImplicit false

namespace NovelScript.Line

/-- The bracket that opens the mark of a line break. -/
def markOpen : UInt8 := 0x5B

/-- The bracket that closes the mark of a line break. -/
def markClose : UInt8 := 0x5D

/-- The letter of the mark of a carriage return. -/
def crLetter : UInt8 := 0x72

/-- The letter of the mark of a line feed. -/
def lfLetter : UInt8 := 0x6E

/-- Writes a mark with the given letter for every occurrence of a byte. -/
def mark (byte letter : UInt8) (bytes : Bytes) : Bytes :=
  bytes.flatMap fun b => if b = byte then [markOpen, letter, markClose] else [b]

/-- Writes a byte for every mark with the given letter, from left to right. -/
def unmark (letter byte : UInt8) : Bytes → Bytes
  | b :: c :: d :: rest =>
    if b = markOpen ∧ c = letter ∧ d = markClose then byte :: unmark letter byte rest
    else b :: unmark letter byte (c :: d :: rest)
  | b :: rest => b :: unmark letter byte rest
  | [] => []

/-- Marks every line break: carriage returns first, then line feeds. -/
def escape (bytes : Bytes) : Bytes :=
  mark Bytes.lf lfLetter (mark Bytes.cr crLetter bytes)

/-- Turns every mark into a line break: carriage returns first, then line feeds. -/
def unescape (bytes : Bytes) : Bytes :=
  unmark lfLetter Bytes.lf (unmark crLetter Bytes.cr bytes)

end NovelScript.Line
