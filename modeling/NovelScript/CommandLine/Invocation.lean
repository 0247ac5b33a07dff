import NovelScript.Files.Path

/-!
# Command lines

A command line names a task and its files. Files are given by position; `dump` and `verify` also
take a profile, written `-p FILE`, `-pFILE`, `-p=FILE`, `--profile FILE` or `--profile=FILE`,
anywhere after the name of the task and at most once. A double dash ends the options, a single dash
is a file, and an empty argument names none.
-/

set_option autoImplicit false

namespace NovelScript

/-- What a command line asks for. -/
inductive Invocation
  /-- Dump a script to a text stream. -/
  | dump (script text : Path) (profile? : Option Path)
  /-- Inject a text stream into a script. -/
  | inject (script text output : Path)
  /-- Count what a script contains. -/
  | info (script : Path)
  /-- Dump a script and inject it again, in memory. -/
  | verify (script : Path) (profile? : Option Path)
  /-- Tell the version. -/
  | version
  /-- Tell how to call the program. -/
  | help
  deriving DecidableEq

namespace Invocation

/-- The arguments of a task, taken apart. -/
structure Arguments where
  /-- The files given by position. -/
  files : List Path
  /-- The profile, if one was given. -/
  profile? : Option Path
  deriving DecidableEq

/-- How many files a task takes, and whether it takes a profile. -/
structure Signature where
  /-- The number of files. -/
  files : Nat
  /-- Whether a profile may be given. -/
  takesProfile : Bool
  deriving DecidableEq

/-- What follows `front` at the front of an argument. -/
def afterText? (front : String) (argument : String) : Option String :=
  if front.toList.isPrefixOf argument.toList then
    some (String.ofList (argument.toList.drop front.length))
  else none

/-- Whether an argument is read as an option. -/
def looksLikeOption (argument : String) : Bool :=
  (afterText? "-" argument).isSome && argument ≠ "-"

/-- Adds a file. -/
def Arguments.addFile? (signature : Signature) (file : String) (arguments : Arguments) :
    Option Arguments :=
  if file = "" ∨ arguments.files.length = signature.files then none
  else some { arguments with files := arguments.files ++ [{ text := file }] }

/-- Sets the profile. -/
def Arguments.setProfile? (signature : Signature) (file : String) (arguments : Arguments) :
    Option Arguments :=
  if file = "" ∨ arguments.profile?.isSome ∨ signature.takesProfile = false then none
  else some { arguments with profile? := some { text := file } }

/-- What an option asks for. -/
inductive Switch
  /-- Tell how to call the program. -/
  | help
  /-- The profile is the next argument. -/
  | profileNext
  /-- The profile is given. -/
  | profile (file : String)
  deriving DecidableEq

/-- Reads an argument as an option. -/
def switch? (argument : String) : Option Switch :=
  if argument = "--help" then some .help
  else if argument = "--profile" ∨ argument = "-p" then some .profileNext
  else if let some file := afterText? "--profile=" argument then some (.profile file)
  else if (afterText? "--" argument).isSome then none
  else if let some file := afterText? "-p=" argument then some (.profile file)
  else if let some file := afterText? "-p" argument then some (.profile file)
  else if (afterText? "-h" argument).isSome then some .help
  else none

/-- Arguments with as many files as the task takes. -/
def Arguments.complete? (signature : Signature) (arguments : Arguments) : Option Arguments :=
  if arguments.files.length = signature.files then some arguments else none

/-- Takes the arguments of a task apart, from left to right; `none` inside stands for a plea for
help, which is answered before anything behind it is looked at. -/
def scan? (signature : Signature) : Arguments → List String → Option (Option Arguments)
  | arguments, [] => (arguments.complete? signature).map some
  | arguments, argument :: rest =>
    if argument = "--" then
      match rest.foldlM (fun arguments file => arguments.addFile? signature file) arguments with
      | none => none
      | some arguments => (arguments.complete? signature).map some
    else if looksLikeOption argument then
      match switch? argument with
      | none => none
      | some .help => some none
      | some (.profile file) =>
        match arguments.setProfile? signature file with
        | none => none
        | some arguments => scan? signature arguments rest
      | some .profileNext =>
        match rest with
        | [] => none
        | file :: rest =>
          if looksLikeOption file then none
          else
            match arguments.setProfile? signature file with
            | none => none
            | some arguments => scan? signature arguments rest
    else
      match arguments.addFile? signature argument with
      | none => none
      | some arguments => scan? signature arguments rest

/-- Reads the arguments of a task. -/
def task? (signature : Signature) (make : Arguments → Option Invocation) (arguments : List String) :
    Option Invocation :=
  match scan? signature { files := [], profile? := none } arguments with
  | none => none
  | some none => some .help
  | some (some arguments) => make arguments

/-- The names of the tasks. -/
def taskNames : List String :=
  ["dump", "inject", "info", "verify", "help"]

/-- Reads a command line, without the name of the program. -/
def parse? : List String → Option Invocation
  | [] => none
  | first :: rest =>
    if first = "dump" then
      task? { files := 2, takesProfile := true }
        (fun arguments =>
          match arguments.files with
          | [script, text] => some (.dump script text arguments.profile?)
          | _ => none)
        rest
    else if first = "inject" then
      task? { files := 3, takesProfile := false }
        (fun arguments =>
          match arguments.files with
          | [script, text, output] => some (.inject script text output)
          | _ => none)
        rest
    else if first = "info" then
      task? { files := 1, takesProfile := false }
        (fun arguments =>
          match arguments.files with
          | [script] => some (.info script)
          | _ => none)
        rest
    else if first = "verify" then
      task? { files := 1, takesProfile := true }
        (fun arguments =>
          match arguments.files with
          | [script] => some (.verify script arguments.profile?)
          | _ => none)
        rest
    else if first = "help" then
      match rest with
      | [] => some .help
      | [name] => if taskNames.contains name then some .help else none
      | _ => none
    else if first = "--version" ∨ (afterText? "-V" first).isSome then some .version
    else if first = "--help" ∨ (afterText? "-h" first).isSome then some .help
    else none

end Invocation

end NovelScript
