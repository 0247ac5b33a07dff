import NovelScript.Line.Escape

/-!
# What a line puts into the script

A dumped line is an address, a separator and the text, with a mark of its category in front of the
text of a string operand. An edited line may still carry all of these or have lost them.
`replacement` keeps only the text.

The two marks exclude each other. A line whose address was taken out by hand may still start with
the mark of unfinished text; it only loses that mark, and keeps a category and escaped line breaks
behind it as they stand.
-/

set_option autoImplicit false

namespace NovelScript.Line

/-- What stands between the address of a line and its text. -/
def separator : Bytes :=
  Bytes.ascii ":::::"

/-- What every category mark starts with. -/
def categoryStem : Bytes :=
  Bytes.ascii "[Spec"

/-- The length of a whole category mark. -/
def categoryWidth : Nat := 7

/-- What is written before the line after an instruction that marks it as unfinished. -/
def unfinishedMark : Bytes :=
  Bytes.ascii "[pre_unfinish]"

/-- A line without everything up to the first separator. -/
def body (line : Bytes) : Bytes :=
  (Bytes.afterFirst? separator line).getD line

/-- The text that a line puts into the script. -/
def replacement (line : Bytes) : Bytes :=
  let body := body line
  match Bytes.after? categoryStem body with
  | some _ => unescape (body.drop categoryWidth)
  | none => (Bytes.after? unfinishedMark body).getD body

end NovelScript.Line
