import NovelScript.Script.FormatError

/-!
# Why text cannot be injected

Injecting fails on a byte string that is no script, on a script with more texts than there are
lines, and on a jump whose target would leave the 32-bit range.
-/

set_option autoImplicit false

namespace NovelScript

/-- Why lines could not be put into a script. -/
inductive InjectError
  /-- The bytes are not a script. -/
  | fault (fault : FormatError)
  /-- No line was left for the text at `address`. -/
  | linesExhausted (address consumed : Nat)
  /-- The jump written at `site` would have to go to `value`. -/
  | jumpOutOfRange (site : Nat) (value : Int)
  deriving DecidableEq

/-- What is told to the user. -/
def InjectError.message : InjectError → String
  | fault cause => cause.message
  | linesExhausted address consumed =>
    s!"not enough translation lines: ran out at unit {Numeral.hex address} " ++
      s!"after {Numeral.decimal consumed} line(s)"
  | jumpOutOfRange site value =>
    s!"relocated jump at {Numeral.hex site} is out of range: {Numeral.signed value}"

end NovelScript
