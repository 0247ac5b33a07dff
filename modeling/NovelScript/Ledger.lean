/-!
# The ledger of replaced text

Replacing text changes its length, and moves everything behind it. The ledger holds, in address
order, every text that was replaced, with its old and new length. How far an address has moved is
then a sum over the texts in front of it.
-/

set_option autoImplicit false

namespace NovelScript

/-- A text that was replaced. -/
structure Sentence where
  /-- The address of the first byte of the old text. -/
  address : Nat
  /-- The length of the old text. -/
  oldLength : Nat
  /-- The length of the new text. -/
  newLength : Nat
  deriving DecidableEq

/-- How far everything behind a text moves. -/
def Sentence.delta (sentence : Sentence) : Int :=
  sentence.newLength - sentence.oldLength

/-- How far everything behind some texts moves. -/
def Sentence.deltas : List Sentence → Int
  | [] => 0
  | sentence :: sentences => sentence.delta + deltas sentences

/-- The texts replaced so far, at most one for each address, in address order. -/
structure Ledger where
  /-- The texts, in address order. -/
  sentences : List Sentence
  deriving DecidableEq

namespace Ledger

/-- The ledger before the first replacement. -/
def empty : Ledger :=
  { sentences := [] }

/-- Puts a text in its place among others in address order, instead of one at the same address. -/
def insert (sentence : Sentence) : List Sentence → List Sentence
  | [] => [sentence]
  | first :: rest =>
    if sentence.address < first.address then sentence :: first :: rest
    else if sentence.address = first.address then sentence :: rest
    else first :: insert sentence rest

/-- Records a replaced text; an earlier record at its address is lost. -/
def record (ledger : Ledger) (sentence : Sentence) : Ledger :=
  { sentences := insert sentence ledger.sentences }

/-- The number of texts recorded. -/
def size (ledger : Ledger) : Nat :=
  ledger.sentences.length

/-- How far an address has moved: the sum over the texts that start strictly before it. -/
def deltaBefore (ledger : Ledger) (address : Nat) : Int :=
  Sentence.deltas (ledger.sentences.takeWhile fun sentence => sentence.address < address)

/-- How much the whole script has grown. -/
def totalDelta (ledger : Ledger) : Int :=
  Sentence.deltas ledger.sentences

end Ledger

end NovelScript
