import NovelScript.Text.Numeral

/-!
# Control codes in lines

A line that goes to a terminal must not steer it. The codes with which a terminal is steered are
spelled out: escape, bell, backspace, form feed and delete by two hexadecimal digits, and the codes
from 80 to 9F, which some terminals take for whole escape sequences, by their number in braces. All
other characters stay as they are, a backslash included, so a spelled text is meant to be read and
not to be taken back.
-/

set_option autoImplicit false

namespace NovelScript.ControlCode

/-- Whether a character is one of the short codes that steer a terminal. -/
def isShort (c : Char) : Bool :=
  c.toNat = 0x07 || c.toNat = 0x08 || c.toNat = 0x0C || c.toNat = 0x1B || c.toNat = 0x7F

/-- Whether a character is one of the codes from 80 to 9F. -/
def isLong (c : Char) : Bool :=
  0x80 ≤ c.toNat && c.toNat ≤ 0x9F

/-- How a character is shown. -/
def spellChar (c : Char) : List Char :=
  if isShort c then
    ['\\', 'x', Nat.digitChar (c.toNat / 16), Nat.digitChar (c.toNat % 16)]
  else if isLong c then
    ['\\', 'u', '{'] ++ Nat.toDigits 16 c.toNat ++ ['}']
  else [c]

/-- A text with its control codes spelled out. -/
def spell (text : String) : String :=
  String.ofList (text.toList.flatMap spellChar)

end NovelScript.ControlCode
