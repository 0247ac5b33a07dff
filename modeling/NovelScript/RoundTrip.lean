import NovelScript.Dump
import NovelScript.Inject
import NovelScript.Line.Split

/-!
# Round trips

Dumping a script and injecting the untouched dump should give the script back. A round trip reports
how far it does.
-/

set_option autoImplicit false

namespace NovelScript

/-- The first place at which two byte strings differ, counted from `address`; a missing byte differs
from every byte. -/
def firstDifferenceFrom (address : Nat) : Bytes → Bytes → Option Nat
  | [], [] => none
  | [], _ :: _ => some address
  | _ :: _, [] => some address
  | a :: left, b :: right =>
    if a = b then firstDifferenceFrom (address + 1) left right else some address

/-- The outcome of a round trip. -/
structure RoundTrip where
  /-- The length of the script. -/
  size : Nat
  /-- The length of what came back. -/
  rebuiltSize : Nat
  /-- The number of dumped lines. -/
  lines : Nat
  /-- The first address at which the two differ, if they do. -/
  firstDifference : Option Nat
  deriving DecidableEq

namespace RoundTrip

/-- Whether the script came back unchanged. -/
def isIdentical (report : RoundTrip) : Bool :=
  report.firstDifference.isNone

/-- Compares a script with what its dump was injected into. -/
def compare (data : Bytes) (dump : Dump) (injection : Injection) : RoundTrip :=
  { size := data.length
    rebuiltSize := injection.script.length
    lines := dump.lines
    firstDifference := firstDifferenceFrom 0 data injection.script }

end RoundTrip

/-- Dumps a script and injects the untouched dump. -/
def verify (rules : TagRules) (data : Bytes) : Except InjectError RoundTrip :=
  match dump rules data with
  | .error fault => .error (.fault fault)
  | .ok dump =>
    match inject data (Line.split dump.text) with
    | .error problem => .error problem
    | .ok injection => .ok (RoundTrip.compare data dump injection)

end NovelScript
