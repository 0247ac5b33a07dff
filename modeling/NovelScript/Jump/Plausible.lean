import NovelScript.Script.Command

/-!
# Plausible jump targets

The format does not say which integers are addresses. A value is taken for one when it points at
something that looks like the start of a unit: the tag of an instruction or a terminator, or text in
code page 932. Text is looked at up to the next zero byte.

The guess is no part of the format. Other data can pass for text, and a real target can fail to.
-/

set_option autoImplicit false

namespace NovelScript

namespace CodePage932

/-- Whether a byte never stands at the start of a character: a control byte other than a line break,
or half-width katakana, which scripts do not use. -/
def isForbidden (b : UInt8) : Bool :=
  (b < 0x20 && b != Bytes.cr && b != Bytes.lf) || (0xA0 ≤ b && b < 0xE0)

/-- Whether a byte starts a character of two bytes. -/
def isLead (b : UInt8) : Bool :=
  (0x81 ≤ b && b ≤ 0x9F) || (0xE0 ≤ b && b ≤ 0xFC)

/-- Whether a byte ends a character of two bytes. -/
def isTrail (b : UInt8) : Bool :=
  0x40 ≤ b && b ≤ 0xFC

/-- Whether bytes are a sequence of characters, none of them cut short. -/
def isSequence : Bytes → Bool
  | [] => true
  | b :: rest =>
    if isForbidden b then false
    else if isLead b then
      match rest with
      | [] => false
      | trail :: rest => isTrail trail && isSequence rest
    else isSequence rest

/-- Whether bytes look like text: a sequence of at least one character. -/
def isPlausible (bytes : Bytes) : Bool :=
  !bytes.isEmpty && isSequence bytes

end CodePage932

/-- Text at a target starts with a byte above this one. -/
def targetTextFloor : UInt8 := 0x80

/-- Whether a unit plausibly starts at an address. -/
def isPlausibleTarget (data : Bytes) (address : Nat) : Bool :=
  match data.drop address with
  | [] => false
  | first :: rest =>
    if first = instructionTag || first = terminatorTag then true
    else if first ≤ targetTextFloor then false
    else CodePage932.isPlausible ((first :: rest).takeWhile (· != 0))

/-- The addresses at which a unit plausibly starts, the end of the script included in the search. -/
def plausibleTargets (data : Bytes) : List Nat :=
  (List.range (data.length + 1)).filter (isPlausibleTarget data)

end NovelScript
