import NovelScript.CommandLine.Run

/-!
# The program

The machine as a host, and the entry point of the program. Log records up to the level named by the
environment variable `NOVELSCRIPT_LOG` go to the standard output; by default there are none.
-/

set_option autoImplicit false

namespace NovelScript

/-- What a host error means for a task. -/
def AccessFault.ofHostError (problem : IO.Error) : AccessFault :=
  match problem with
  | .noFileOrDirectory .. => .notFound
  | .inappropriateType _ code details =>
    if code = 21 then .isADirectory
    else if code = 20 then .notADirectory
    else .other code.toNat details
  | .permissionDenied _ code details => .other code.toNat details
  | .alreadyExists _ code details => .other code.toNat details
  | .resourceBusy code details =>
    if code = 16 then .resourceBusy else .other code.toNat details
  | .invalidArgument _ code details =>
    if code = 36 then .nameTooLong else .other code.toNat details
  | .resourceExhausted _ code details => .other code.toNat details
  | .hardwareFault code details => .other code.toNat details
  | .unsupportedOperation code details => .other code.toNat details
  | .otherError code details => .other code.toNat details
  | problem => .other 0 (toString problem)

/-- Runs an action of the host, turning its errors into faults. -/
def attempt {α : Type} (action : IO α) : IO (Except AccessFault α) := do
  match ← action.toBaseIO with
  | .ok answer => return .ok answer
  | .error problem => return .error (.ofHostError problem)

/-- The path of a directory from the root. -/
def fromRoot (directory : Path) : IO Path := do
  if directory.isAbsolute then return directory
  let here ← IO.currentDir
  return { text := s!"{here.toString}/{directory.text}" }

/-- Creates a file under a random name in a directory, trying again when the name is taken. -/
def createUnderFreshName (directory : Path) : (attempts : Nat) → IO (IO.FS.Handle × Path)
  | 0 => throw (IO.userError "no name is left for a temporary file")
  | attempts + 1 => do
    let name := s!"{directory.text}/.tmp{toString (← IO.rand 100000 999999)}"
    try
      return (← IO.FS.Handle.mk name .writeNew, { text := name })
    catch
      | .alreadyExists .. => createUnderFreshName directory attempts
      | problem => throw problem

/-- Writes a new file under a random name in a directory. A file that cannot be written to the end is
removed again. -/
def writeTemporary (directory : Path) (bytes : Bytes) : IO Path := do
  let (handle, path) ← createUnderFreshName (← fromRoot directory) 1000
  try
    handle.write (ByteArray.mk bytes.toArray)
    handle.flush
    return path
  catch problem =>
    let _ ← attempt (IO.FS.removeFile path.text)
    throw problem

/-- The machine as a host, with the filter of its log. -/
abbrev Machine := ReaderT LogFilter IO

/-- The machine serves a task with its own files. -/
instance : Host Machine Path where
  read path := attempt do return (← IO.FS.readBinFile path.text).toList
  createTemporary directory bytes := attempt (writeTemporary directory bytes)
  rename temporary target := attempt (IO.FS.rename temporary.text target.text)
  discard temporary := do
    let _ ← attempt (IO.FS.removeFile temporary.text)
  remove path := attempt (IO.FS.removeFile path.text)
  note record := do
    if record.passes (← read) then IO.println record.line

end NovelScript

open NovelScript in
/-- Runs the program. -/
def main (arguments : List String) : IO UInt32 := do
  let name := (← IO.getEnv "NOVELSCRIPT_LOG").getD "off"
  let filter := (LogFilter.ofName? name).getD { level? := none }
  let outcome ← (runCommandLine arguments : Machine Outcome).run filter
  IO.print outcome.stdout
  IO.eprint outcome.stderr
  return UInt32.ofNat outcome.status
