import NovelScript.Dump.Report
import NovelScript.Dump.Text
import NovelScript.Script.Tree

/-!
# Dumping a script

A dump is the text stream of a script, its debug report, and the number of lines and units. A byte
string that is not a script has no dump.
-/

set_option autoImplicit false

namespace NovelScript

/-- What a script is dumped as. -/
structure Dump where
  /-- The text stream. -/
  text : Bytes
  /-- The debug report. -/
  debug : Bytes
  /-- The number of lines of the text stream. -/
  lines : Nat
  /-- The number of units of the script. -/
  units : Nat
  deriving DecidableEq

/-- The dump of the units that `data` decodes to. -/
def Dump.ofCommands (rules : TagRules) (data : Bytes) (commands : List Command) : Dump :=
  let pieces := commands.flatMap (Command.pieces rules)
  { text := pieces.flatMap Piece.bytes
    debug := Report.bytes data commands
    lines := pieces.countP Piece.isLine
    units := commands.length }

/-- Dumps a script. -/
def dump (rules : TagRules) (data : Bytes) : Except FormatError Dump :=
  match decode data with
  | .ok commands => .ok (Dump.ofCommands rules data commands)
  | .error fault => .error fault

end NovelScript
