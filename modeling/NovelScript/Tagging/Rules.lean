import NovelScript.Script.Command

/-!
# Categories of text

Every dumped string operand carries the mark of one of three categories, chosen by where the string
sits in its instruction. The rules differ from title to title; `TagRules.standard` are the built-in
ones. The first category wins over the third, and the second takes everything else.
-/

set_option autoImplicit false

namespace NovelScript

/-- The category of a dumped string operand. -/
inductive Category
  /-- Chosen by executor and argument. -/
  | spec1
  /-- Everything that no rule names. -/
  | spec2
  /-- Chosen by executor alone. -/
  | spec3
  deriving DecidableEq

/-- The mark of a category in the text stream. -/
def Category.mark : Category → String
  | spec1 => "[Spec1]"
  | spec2 => "[Spec2]"
  | spec3 => "[Spec3]"

/-- A place of strings: the arguments of one id under one executor, at one position or at any. -/
structure ArgumentRule where
  /-- The executor of the instruction. -/
  executor : UInt16
  /-- The id of the argument. -/
  argumentId : UInt8
  /-- The position of the argument, counted from one; any position when absent. -/
  ordinal? : Option Nat
  deriving DecidableEq

/-- Whether a rule names an argument of an instruction. -/
def ArgumentRule.matches (rule : ArgumentRule) (executor : UInt16) (argument : ArgumentHead) :
    Bool :=
  rule.executor = executor && rule.argumentId = argument.id &&
    match rule.ordinal? with
    | some ordinal => ordinal = argument.ordinal
    | none => true

/-- The rules that tag dumped text. -/
structure TagRules where
  /-- The places of strings of the first category. -/
  spec1 : List ArgumentRule
  /-- The executors whose strings are of the third category. -/
  spec3 : List UInt16
  /-- The executors after which the next line is marked as unfinished. -/
  unfinished : List UInt16
  deriving DecidableEq

namespace TagRules

/-- The built-in rules. -/
def standard : TagRules :=
  { spec1 :=
      [{ executor := 0x1C, argumentId := 0x02, ordinal? := some 3 },
       { executor := 0x28, argumentId := 0x02, ordinal? := some 3 },
       { executor := 0x200, argumentId := 0x00, ordinal? := none }]
    spec3 := [0x1F9]
    unfinished := [0x1F8] }

/-- The category of a string in an argument of an instruction. -/
def category (rules : TagRules) (executor : UInt16) (argument : ArgumentHead) : Category :=
  if rules.spec1.any fun rule => rule.matches executor argument then .spec1
  else if rules.spec3.contains executor then .spec3
  else .spec2

/-- Whether an instruction marks the next line as unfinished. -/
def marksUnfinished (rules : TagRules) (executor : UInt16) : Bool :=
  rules.unfinished.contains executor

end TagRules

end NovelScript
