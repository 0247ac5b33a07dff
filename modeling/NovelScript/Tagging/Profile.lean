import NovelScript.Tagging.Rules
import NovelScript.Toml.Document

/-!
# Dump profiles

A profile is a configuration file that sets the tagging rules of a title:

    spec3 = [0x1f9]
    pre_unfinish = [0x1f8]

    [[spec1]]
    executor = 0x1c
    argument_id = 0x02
    ordinal = 3

A list that the file leaves out keeps its built-in entries. A key other than these three is refused;
inside a rule other keys are ignored. A rule may also be written as the list of its values in the
order executor, argument id, ordinal, of which the last may be missing and more are ignored.
-/

set_option autoImplicit false

namespace NovelScript

open Toml (Node Table)

/-- A whole number below a bound. -/
def Toml.Node.natBelow? (bound : Nat) : Node → Option Nat
  | .integer value => if 0 ≤ value ∧ value < bound then some value.toNat else none
  | _ => none

/-- The elements of an array, or of a list of tables. -/
def Toml.Node.elements? : Node → Option (List Node)
  | .array elements => some elements
  | .tables earlier last => some ((earlier ++ [last]).map (.table .headed))
  | _ => none

/-- An executor. -/
def executorOfNode? (node : Node) : Option UInt16 :=
  (node.natBelow? UInt16.size).map UInt16.ofNat

/-- A list of executors. -/
def executorsOfNode? (node : Node) : Option (List UInt16) :=
  node.elements?.bind fun elements => elements.mapM executorOfNode?

namespace ArgumentRule

/-- The rule with the given parts. -/
def ofParts? (executor argumentId : Node) (ordinal? : Option Node) : Option ArgumentRule := do
  let executor ← executorOfNode? executor
  let argumentId ← argumentId.natBelow? UInt8.size
  let ordinal? ←
    match ordinal? with
    | none => some none
    | some node => (node.natBelow? UInt64.size).map some
  return { executor, argumentId := UInt8.ofNat argumentId, ordinal? }

/-- The rule that a table or a list of values describes. -/
def ofNode? : Node → Option ArgumentRule
  | .table _ entries => do
    ofParts? (← entries.lookup "executor") (← entries.lookup "argument_id")
      (entries.lookup "ordinal")
  | .array (executor :: argumentId :: rest) => ofParts? executor argumentId rest.head?
  | _ => none

end ArgumentRule

namespace TagRules

/-- Sets the list that a key of a profile names. -/
def set? (rules : TagRules) (key : String) (node : Node) : Option TagRules :=
  if key = "spec1" then
    (node.elements?.bind fun elements => elements.mapM ArgumentRule.ofNode?).map fun spec1 =>
      { rules with spec1 }
  else if key = "spec3" then
    (executorsOfNode? node).map fun spec3 => { rules with spec3 }
  else if key = "pre_unfinish" then
    (executorsOfNode? node).map fun unfinished => { rules with unfinished }
  else none

/-- The rules that a table sets, the others left as they are built in. -/
def ofTable? (table : Table) : Option TagRules :=
  table.foldlM (fun rules (key, node) => rules.set? key node) standard

/-- The rules that a profile sets. -/
def ofProfile? (text : String) : Option TagRules :=
  (Toml.parse? text).bind ofTable?

end TagRules

end NovelScript
