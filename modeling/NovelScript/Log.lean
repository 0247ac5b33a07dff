import NovelScript.Files.Access
import NovelScript.Inject
import NovelScript.Text.ControlCode

/-!
# The log

What the tasks note down while they run. Every kind of record belongs to one part of the program,
which is named in its line, and has one level. A filter lets records through up to a level. Paths
may hold any character, so control codes are spelled out in a line.
-/

set_option autoImplicit false

namespace NovelScript

/-- How important a record is, the most important first. -/
inductive LogLevel
  | error
  | warn
  | info
  | debug
  | trace
  deriving DecidableEq

namespace LogLevel

/-- The place of a level, counted from one; zero is left for nothing at all. -/
def rank : LogLevel → Nat
  | error => 1
  | warn => 2
  | info => 3
  | debug => 4
  | trace => 5

/-- How a level is named in a line. -/
def label : LogLevel → String
  | error => "ERROR"
  | warn => "WARN"
  | info => "INFO"
  | debug => "DEBUG"
  | trace => "TRACE"

end LogLevel

/-- Which records are let through: those up to a level, or none. -/
structure LogFilter where
  /-- The last level that is let through, if any is. -/
  level? : Option LogLevel
  deriving DecidableEq

/-- The filter with a given name. -/
def LogFilter.ofName? (name : String) : Option LogFilter :=
  if name = "off" then some { level? := none }
  else if name = "error" then some { level? := some .error }
  else if name = "warn" then some { level? := some .warn }
  else if name = "info" then some { level? := some .info }
  else if name = "debug" then some { level? := some .debug }
  else if name = "trace" then some { level? := some .trace }
  else none

/-- What a task notes down. -/
inductive LogRecord
  /-- A script was decoded. -/
  | decoded (units size : Nat)
  /-- A script was dumped. -/
  | dumped (lines units : Nat)
  /-- A jump will be relocated. -/
  | enrolled (site : JumpSite)
  /-- Lines were left over. -/
  | unusedLines (count : Nat)
  /-- Text was injected. -/
  | injected (sentences jumps oldSize newSize : Nat)
  /-- A profile was loaded. -/
  | profileLoaded (path : Path)
  /-- Lines were read. -/
  | linesRead (count : Nat) (path : Path)
  /-- Contents are ready to be moved into place. -/
  | staged (size : Nat) (path : Path)
  /-- Contents were moved into place. -/
  | wrote (path : Path)
  /-- A file could not be taken back. -/
  | leftBehind (path : Path) (fault : AccessFault)
  deriving DecidableEq

namespace LogRecord

/-- The level of a record. -/
def level : LogRecord → LogLevel
  | decoded .. => .debug
  | dumped .. => .info
  | enrolled _ => .debug
  | unusedLines _ => .warn
  | injected .. => .info
  | profileLoaded _ => .info
  | linesRead .. => .debug
  | staged .. => .debug
  | wrote _ => .debug
  | leftBehind .. => .warn

/-- The part of the program that a record belongs to. -/
def origin : LogRecord → String
  | decoded .. => "katascript::formats::script::decoder"
  | dumped .. => "katascript::formats::script::dump"
  | enrolled _ => "katascript::formats::script::inject"
  | unusedLines _ => "katascript::formats::script::inject"
  | injected .. => "katascript::formats::script::inject"
  | profileLoaded _ => "katascript::config"
  | linesRead .. => "katascript::operations"
  | staged .. => "katascript::operations"
  | wrote _ => "katascript::operations"
  | leftBehind .. => "katascript::operations"

open Numeral (decimal hex)

/-- What a record says. -/
def message : LogRecord → String
  | decoded units size => s!"Decoded {decimal units} units from {decimal size} bytes"
  | dumped lines units => s!"Dumped {decimal lines} text lines from {decimal units} units"
  | enrolled site =>
    s!"Enrolled jump at {hex site.sourceAddress} (output {hex site.outputAddress}) " ++
      s!"to {hex site.target.toNat}"
  | unusedLines count => s!"{decimal count} translation line(s) were not used"
  | injected sentences jumps oldSize newSize =>
    s!"Injected {decimal sentences} sentences, relocated {decimal jumps} jumps, " ++
      s!"size {decimal oldSize} -> {decimal newSize}"
  | profileLoaded path => s!"Loaded dump profile from {path.text}"
  | linesRead count path => s!"Read {decimal count} translation lines from {path.text}"
  | staged size path => s!"Staged {decimal size} bytes for {path.text}"
  | wrote path => s!"Wrote {path.text}"
  | leftBehind path fault => s!"Could not remove {path.text} after a failed dump: {fault.text}"

/-- A record as a line. -/
def line (record : LogRecord) : String :=
  s!"{record.level.label} {record.origin}: {ControlCode.spell record.message}"

/-- Whether a filter lets a record through. -/
def passes (filter : LogFilter) (record : LogRecord) : Bool :=
  match filter.level? with
  | none => false
  | some level => record.level.rank ≤ level.rank

end LogRecord

end NovelScript
