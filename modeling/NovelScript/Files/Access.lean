import NovelScript.Files.Path

/-!
# Why a file cannot be accessed

An access fault is what the host says when a file cannot be read or written. A failed task tells the
user which of its paths it was about, by the purpose of the file.
-/

set_option autoImplicit false

namespace NovelScript

/-- What a file is read or written for. -/
inductive Purpose
  /-- The script. -/
  | scriptInput
  /-- The edited text stream. -/
  | linesInput
  /-- The dumped text stream. -/
  | textOutput
  /-- The debug report. -/
  | debugOutput
  /-- The new script. -/
  | scriptOutput
  /-- A dump profile. -/
  | profile
  deriving DecidableEq

namespace Purpose

/-- All purposes. -/
def all : List Purpose :=
  [scriptInput, linesInput, textOutput, debugOutput, scriptOutput, profile]

/-- How a purpose is named in messages. -/
def label : Purpose → String
  | scriptInput => "script input"
  | linesInput => "translation input"
  | textOutput => "text output"
  | debugOutput => "debug output"
  | scriptOutput => "script output"
  | profile => "dump profile"

/-- The purpose with a given label. -/
def ofLabel? (label : String) : Option Purpose :=
  all.find? fun purpose => purpose.label = label

end Purpose

/-- Why the host refuses to read or write. -/
inductive AccessFault
  /-- A name on the path does not exist. -/
  | notFound
  /-- A directory stands where a file is meant. -/
  | isADirectory
  /-- A file stands where a directory is meant. -/
  | notADirectory
  /-- A place is meant that the host does not give up. -/
  | resourceBusy
  /-- A name or the whole path is too long. -/
  | nameTooLong
  /-- The path holds the character that ends a path for the host. -/
  | invalidPath
  /-- The contents are not text. -/
  | invalidData
  /-- Any other reason, with the number that the host gives it. -/
  | other (code : Nat) (description : String)
  deriving DecidableEq

/-- How the host words a fault. -/
def AccessFault.text : AccessFault → String
  | notFound => "No such file or directory (os error 2)"
  | isADirectory => "Is a directory (os error 21)"
  | notADirectory => "Not a directory (os error 20)"
  | resourceBusy => "Device or resource busy (os error 16)"
  | nameTooLong => "File name too long (os error 36)"
  | invalidPath => "file name contained an unexpected NUL byte"
  | invalidData => "stream did not contain valid UTF-8"
  | other code description => s!"{description} (os error {toString code})"

end NovelScript
