import NovelScript.CommandLine.Invocation
import NovelScript.Files.Task

/-!
# Running a command line

A run prints what its task reports and ends with status zero, or prints why it failed and ends with
status one. A command line that asks for nothing known ends with status two.
-/

set_option autoImplicit false

namespace NovelScript

/-- What a run leaves behind besides files and log. -/
structure Outcome where
  /-- The exit status. -/
  status : Nat
  /-- What is printed to the standard output. -/
  stdout : String
  /-- What is printed to the standard error output. -/
  stderr : String
  deriving DecidableEq

namespace Outcome

/-- Lines, each with its end. -/
def unlines (lines : List String) : String :=
  String.join (lines.map (· ++ "\n"))

/-- A run that went well. -/
def success (lines : List String) : Outcome :=
  { status := 0, stdout := unlines lines, stderr := "" }

/-- A run that failed for a reason. -/
def failure (lines : List String) : Outcome :=
  { status := 1, stdout := "", stderr := unlines lines }

/-- How to call the program. -/
def usage : List String :=
  ["Usage: katascript <COMMAND>",
   "",
   "Commands:",
   "  dump [-p PROFILE] <SCRIPT> <TEXT>   Dump the text of a script, and a report to <TEXT>.debug",
   "  inject <SCRIPT> <TEXT> <OUTPUT>     Inject lines into a script, relocating jumps",
   "  info <SCRIPT>                       Show what a script contains",
   "  verify [-p PROFILE] <SCRIPT>        Check that a dump injects back to the same script"]

open Numeral (decimal explicitlySigned hex)

/-- What a failed task prints. -/
def ofFailure (problem : Failure) : Outcome :=
  match problem with
  | .access _ _ fault =>
    failure [s!"Error: {problem.message}", "", "Caused by:", s!"    {fault.text}"]
  | _ => failure [s!"Error: {problem.message}"]

/-- What a dump prints. -/
def ofDump (report : DumpReport) : Outcome :=
  success
    [s!"Dumped {decimal report.lines} lines from {decimal report.units} units " ++
       s!"to {report.textPath.text}",
     s!"Debug report: {report.debugPath.text}"]

/-- What an injection prints. -/
def ofInjection (output : Path) (injection : Injection) : Outcome :=
  { status := 0
    stdout := unlines
      [s!"Injected {decimal injection.ledger.size} sentences " ++
         s!"({explicitlySigned injection.ledger.totalDelta} bytes), " ++
         s!"relocated {decimal injection.sites.length} jumps",
       s!"Output saved to {output.text}"]
    stderr := unlines (injection.warnings.map fun warning => s!"Warning: {warning.message}") }

/-- What a summary prints. -/
def ofSummary (script : Path) (summary : Summary) : Outcome :=
  success
    [s!"Script: {script.text}",
     s!"  Size:              {decimal summary.size} bytes",
     s!"  Instructions:      {decimal summary.instructions}",
     s!"  Terminators:       {decimal summary.terminators}",
     s!"  Raw text runs:     {decimal summary.textRuns}",
     s!"  String operands:   {decimal summary.stringOperands}",
     s!"  Text lines:        {decimal summary.textUnits}",
     s!"  Jump-shaped ints:  {decimal summary.jumpShaped}",
     s!"    absolute:        {decimal summary.absoluteCandidates}",
     s!"    relative:        {decimal summary.relativeCandidates}",
     s!"    relocatable:     {decimal summary.relocatableSites}"]

/-- What a round trip prints; a script that comes back changed is a failure. -/
def ofRoundTrip (report : RoundTrip) : Outcome :=
  match report.firstDifference with
  | none =>
    success
      [s!"OK: {decimal report.lines} lines round-trip to an identical " ++
         s!"{decimal report.size} byte script"]
  | some address =>
    failure
      [s!"Error: round trip differs at {hex address} ({decimal report.size} bytes in, " ++
         s!"{decimal report.rebuiltSize} bytes out)"]

/-- The outcome of a task, told by `render` if it succeeds. -/
def ofTask {m : Type → Type} [Monad m] {α : Type} (task : Task m α) (render : α → Outcome) :
    m Outcome := do
  match ← task.run with
  | .ok answer => return render answer
  | .error problem => return ofFailure problem

end Outcome

namespace Invocation

variable {m : Type → Type} {Temporary : Type} [Monad m] [Host m Temporary]

/-- The rules of a profile, or the built-in ones when none is given. -/
def rules (profile? : Option Path) : Task m TagRules :=
  match profile? with
  | some path => Task.loadProfile path
  | none => return .standard

/-- Runs what a command line asks for. -/
def run : Invocation → m Outcome
  | dump script text profile? =>
    Outcome.ofTask (do Task.dumpFile script text (← rules profile?)) Outcome.ofDump
  | inject script text output =>
    Outcome.ofTask (Task.injectFile script text output) (Outcome.ofInjection output)
  | info script => Outcome.ofTask (Task.inspectFile script) (Outcome.ofSummary script)
  | verify script profile? =>
    Outcome.ofTask (do Task.verifyFile script (← rules profile?)) Outcome.ofRoundTrip
  | version => return Outcome.success ["katascript 0.1.0"]
  | help => return Outcome.success Outcome.usage

end Invocation

/-- Runs a command line, without the name of the program. -/
def runCommandLine {m : Type → Type} {Temporary : Type} [Monad m] [Host m Temporary]
    (arguments : List String) : m Outcome :=
  match Invocation.parse? arguments with
  | some invocation => invocation.run
  | none => return { status := 2, stdout := "", stderr := Outcome.unlines Outcome.usage }

end NovelScript
