import NovelScript.Files.Host
import NovelScript.RoundTrip
import NovelScript.Summary
import NovelScript.Tagging.Profile

/-!
# Tasks on files

A task reads all its inputs, works on them in memory, and only then writes. Every output is first
staged in a temporary file next to its target and then moved into place, so that no reader ever sees
half of it. A dump stages both of its outputs before it moves either, and takes the text stream away
again when the debug report cannot be moved.
-/

set_option autoImplicit false

namespace NovelScript

/-- Why a task failed. -/
inductive Failure
  /-- The script or the lines are at fault. -/
  | script (cause : InjectError)
  /-- The profile is not valid. -/
  | profile
  /-- A file could not be accessed. -/
  | access (path : Path) (purpose : Purpose) (fault : AccessFault)
  deriving DecidableEq

/-- What is told to the user. -/
def Failure.message : Failure → String
  | script cause => cause.message
  | profile => "invalid dump profile"
  | access path purpose fault => s!"cannot access {purpose.label} file {path.text}: {fault.text}"

/-- What a finished dump reports. -/
structure DumpReport where
  /-- Where the text stream is. -/
  textPath : Path
  /-- Where the debug report is. -/
  debugPath : Path
  /-- The number of lines of the text stream. -/
  lines : Nat
  /-- The number of units of the script. -/
  units : Nat
  deriving DecidableEq

/-- A task on a host. -/
abbrev Task (m : Type → Type) (α : Type) := ExceptT Failure m α

namespace Task

variable {m : Type → Type} {Temporary : Type} [Monad m] [Host m Temporary]

/-- Asks the host for access to a file. -/
def access {α : Type} (path : Path) (purpose : Purpose) (request : m (Except AccessFault α)) :
    Task m α := do
  match ← request with
  | .ok answer => return answer
  | .error fault => throw (.access path purpose fault)

/-- Runs a task, and a last action if it fails. -/
def orElseDo {α : Type} (task : Task m α) (cleanUp : m Unit) : Task m α :=
  tryCatch task fun failure => do
    cleanUp
    throw failure

/-- Notes a record in the log. -/
def note (record : LogRecord) : Task m Unit :=
  ExceptT.lift (Host.note record)

/-- Reads a whole file. -/
def readInput (path : Path) (purpose : Purpose) : Task m Bytes :=
  access path purpose (Host.read path)

/-- Writes contents to a temporary file next to their target. -/
def stage (path : Path) (bytes : Bytes) (purpose : Purpose) : Task m Temporary := do
  let temporary ← access path purpose (Host.createTemporary path.directory bytes)
  note (.staged bytes.length path)
  return temporary

/-- Moves staged contents into place. -/
def commit (temporary : Temporary) (path : Path) (purpose : Purpose) : Task m Unit := do
  orElseDo (access path purpose (Host.rename temporary path)) (Host.discard temporary)
  note (.wrote path)

/-- Writes a file in one step. -/
def writeAtomically (path : Path) (bytes : Bytes) (purpose : Purpose) : Task m Unit := do
  commit (← stage path bytes purpose) path purpose

/-- Takes back a file that was just moved into place. -/
def retract (path : Path) : m Unit := do
  match ← Host.remove path with
  | .ok () => return ()
  | .error fault => Host.note (.leftBehind path fault)

/-- Decodes a script. -/
def decode (data : Bytes) : Task m (List Command) := do
  match NovelScript.decode data with
  | .ok commands =>
    note (.decoded commands.length data.length)
    return commands
  | .error fault => throw (.script (.fault fault))

/-- Dumps a script. -/
def dump (rules : TagRules) (data : Bytes) : Task m Dump := do
  let dump := Dump.ofCommands rules data (← decode data)
  note (.dumped dump.lines dump.units)
  return dump

/-- Injects lines into a script. The jumps met on the way are noted even if it fails later. -/
def inject (data : Bytes) (lines : List Bytes) : Task m Injection := do
  let result := Substitution.run data lines
  result.state.sites.forM fun site => note (.enrolled site)
  match Injection.ofWalk data lines result with
  | .ok injection =>
    injection.warnings.forM fun (.surplusLines count) => note (.unusedLines count)
    note (.injected injection.ledger.size injection.sites.length data.length
      injection.script.length)
    return injection
  | .error cause => throw (.script cause)

/-- Loads the tagging rules of a profile. -/
def loadProfile (path : Path) : Task m TagRules := do
  let bytes ← readInput path .profile
  match String.fromUTF8? (ByteArray.mk bytes.toArray) with
  | none => throw (.access path .profile .invalidData)
  | some text =>
    match TagRules.ofProfile? text with
    | none => throw .profile
    | some rules =>
      note (.profileLoaded path)
      return rules

/-- Dumps a script file to a text stream and a debug report next to it. -/
def dumpFile (script text : Path) (rules : TagRules) : Task m DumpReport := do
  let data ← readInput script .scriptInput
  let dump ← dump rules data
  let debug := text.debugReport
  let stagedText ← stage text dump.text .textOutput
  let stagedDebug ← orElseDo (stage debug dump.debug .debugOutput) (Host.discard stagedText)
  orElseDo (commit stagedText text .textOutput) (Host.discard stagedDebug)
  orElseDo (commit stagedDebug debug .debugOutput) (retract text)
  return { textPath := text, debugPath := debug, lines := dump.lines, units := dump.units }

/-- Injects the lines of a text stream into a script file, and writes a new one. -/
def injectFile (script text output : Path) : Task m Injection := do
  let data ← readInput script .scriptInput
  let lines := Line.split (← readInput text .linesInput)
  note (.linesRead lines.length text)
  let injection ← inject data lines
  writeAtomically output injection.script .scriptOutput
  return injection

/-- Counts what a script file contains. -/
def inspectFile (script : Path) : Task m Summary := do
  let data ← readInput script .scriptInput
  return Summary.ofCommands data (← decode data)

/-- Dumps a script file in memory and injects the untouched dump. -/
def verifyFile (script : Path) (rules : TagRules) : Task m RoundTrip := do
  let data ← readInput script .scriptInput
  let dump ← dump rules data
  let injection ← inject data (Line.split dump.text)
  return RoundTrip.compare data dump injection

end Task

end NovelScript
