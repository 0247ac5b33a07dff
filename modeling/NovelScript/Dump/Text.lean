import NovelScript.Line.Replacement
import NovelScript.Tagging.Rules
import NovelScript.Text.Numeral

/-!
# The text stream of a script

A script is dumped as one line for every string operand and every run of raw text, in address order.
A line opens with an address in decimal and the separator. A string operand is filed under the
address of its instruction, with the mark of its category and its line breaks escaped; a run of raw
text is filed under its own address and written as it is.

An instruction that marks unfinished text writes a mark where it starts. The mark has no line of its
own: it sticks to whichever line comes next, and stands alone at the end when none does.
-/

set_option autoImplicit false

namespace NovelScript

/-- A piece of the text stream. -/
inductive Piece
  /-- The mark of unfinished text. -/
  | unfinished
  /-- The line of a string operand in the instruction at `address`. -/
  | string (address : Nat) (category : Category) (payload : Bytes)
  /-- The line of a run of raw text. -/
  | run (address : Nat) (bytes : Bytes)
  deriving DecidableEq

namespace Piece

/-- Whether a piece is a line. -/
def isLine : Piece → Bool
  | unfinished => false
  | string .. => true
  | run .. => true

/-- What a line opens with. -/
def opening (address : Nat) : Bytes :=
  Bytes.ascii (Numeral.decimal address) ++ Line.separator

/-- A piece as it is written. -/
def bytes : Piece → Bytes
  | unfinished => Line.unfinishedMark
  | string address category payload =>
    opening address ++ Bytes.ascii category.mark ++ Line.escape payload ++ [Bytes.lf]
  | run address bytes => opening address ++ bytes ++ [Bytes.lf]

end Piece

/-- The lines of an argument. -/
def Argument.pieces (rules : TagRules) (instruction : InstructionHead) (argument : Argument) :
    List Piece :=
  argument.operands.filterMap fun operand =>
    operand.value.payload?.map
      (.string instruction.address (rules.category instruction.executor argument.toArgumentHead))

/-- The pieces of an instruction. -/
def Instruction.pieces (rules : TagRules) (instruction : Instruction) : List Piece :=
  (if rules.marksUnfinished instruction.executor then [.unfinished] else []) ++
    instruction.arguments.flatMap (Argument.pieces rules instruction.toInstructionHead)

/-- The pieces of a unit. -/
def Command.pieces (rules : TagRules) : Command → List Piece
  | terminator _ => []
  | instruction i => i.pieces rules
  | text run => [.run run.address run.bytes]

end NovelScript
