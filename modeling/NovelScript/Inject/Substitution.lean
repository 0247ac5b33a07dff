import NovelScript.Inject.Relocation
import NovelScript.Jump.Hint
import NovelScript.Line.Replacement
import NovelScript.Script.Walk

/-!
# Substituting text

The old script is walked and copied. Every string operand and every run of raw text takes the next
line in place of its text; all other bytes are copied as they are, in one piece up to the next
replacement. On the way the substitution keeps a ledger of what it replaced and a list of the plain
32-bit operands that read as the address of a plausible target, which have to be relocated later.
-/

set_option autoImplicit false

namespace NovelScript

/-- A text for which no line was left. -/
structure Shortage where
  /-- The address of the operand or run. -/
  address : Nat
  /-- How many lines had been used. -/
  consumed : Nat
  deriving DecidableEq

/-- A copy of a script in the making. -/
structure Substitution where
  /-- How many lines have been used. -/
  consumed : Nat
  /-- Bytes of the old script before this address are dealt with. -/
  copied : Nat
  /-- The new script so far. -/
  out : Bytes
  /-- What has been replaced. -/
  ledger : Ledger
  /-- The jumps to relocate, in address order. -/
  sites : List JumpSite
  deriving DecidableEq

namespace Substitution

/-- The copy before the first event. -/
def start : Substitution :=
  { consumed := 0, copied := 0, out := [], ledger := .empty, sites := [] }

/-- Copies the old script up to an address. -/
def copyThrough (source : Bytes) (address : Nat) (s : Substitution) : Substitution :=
  { s with
    out := s.out ++ (source.drop s.copied).take (address - s.copied)
    copied := address }

/-- Where in the new script a byte will stand that is not copied yet. -/
def outputAddress (s : Substitution) (address : Nat) : Nat :=
  s.out.length + (address - s.copied)

/-- Puts new bytes in place of the old ones up to `finish`, and records the text among them. -/
def replace (finish : Nat) (bytes : Bytes) (sentence : Sentence) (s : Substitution) :
    Substitution :=
  { s with
    consumed := s.consumed + 1
    copied := finish
    out := s.out ++ bytes
    ledger := s.ledger.record sentence }

/-- Replaces the text of a string operand, and the length in front of it. -/
def replaceString (source : Bytes) (operand : Operand) (old new : Bytes) (s : Substitution) :
    Substitution :=
  (s.copyThrough source operand.valueAddress).replace operand.finish
    (LittleEndian.encode 4 new.length ++ new)
    { address := operand.payloadAddress, oldLength := old.length, newLength := new.length }

/-- Replaces a run of raw text. -/
def replaceRun (source : Bytes) (run : TextRun) (new : Bytes) (s : Substitution) : Substitution :=
  (s.copyThrough source run.address).replace run.finish new
    { address := run.address, oldLength := run.bytes.length, newLength := new.length }

/-- Notes a jump that has to be relocated. -/
def enrol (operand : Operand) (target : BitVec 32) (s : Substitution) : Substitution :=
  let site : JumpSite :=
    { outputAddress := s.outputAddress operand.valueAddress
      sourceAddress := operand.valueAddress
      target }
  { s with sites := s.sites ++ [site] }

/-- The substitution as a visitor, which refuses a text that no line is left for. -/
def visitor (source : Bytes) (lines : List Bytes) : Visitor Substitution Shortage := fun s event =>
  match event with
  | .operand _ _ operand =>
    match operand.value with
    | .string payload =>
      match lines[s.consumed]? with
      | some line => (s.replaceString source operand payload (Line.replacement line), none)
      | none => (s, some { address := operand.address, consumed := s.consumed })
    | .int32 word =>
      if (absoluteTarget? source word).isSome then (s.enrol operand word, none) else (s, none)
    | _ => (s, none)
  | .text run =>
    match lines[s.consumed]? with
    | some line => (s.replaceRun source run (Line.replacement line), none)
    | none => (s, some { address := run.address, consumed := s.consumed })
  | _ => (s, none)

/-- Copies what is left of the old script. -/
def finish (source : Bytes) (s : Substitution) : Substitution :=
  s.copyThrough source source.length

/-- Walks a script and substitutes its text. -/
def run (source : Bytes) (lines : List Bytes) : WalkResult Substitution Shortage :=
  walk (visitor source lines) start source

end Substitution

end NovelScript
