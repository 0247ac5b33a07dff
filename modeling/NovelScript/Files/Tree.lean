import NovelScript.Bytes
import NovelScript.Files.Access
import NovelScript.Files.Location

/-!
# File trees

A file tree is what the tasks know of the files of a host: files with their contents, and
directories, each filed under its location. The working directory and the directories above it are
always there.

Paths are resolved as a host does it. Every step but the last has to lead through a directory, and
double dots go back up. A path whose last step is a dot or double dots names a directory that is
already there; any other names a place, which may be empty, and means a directory if it ends in a
slash.

New contents are first written to a temporary file, under a name that is not taken, and then moved
over their target in one step. Which name that is, the tree does not say: it is given, and a path may
spell it like any other. A host names a temporary file by its whole path from the root, so the
working directory's own path counts for the length that a host allows.
-/

set_option autoImplicit false

namespace NovelScript

/-- What stands at a location. -/
inductive Entry
  /-- A file and its contents. -/
  | file (bytes : Bytes)
  /-- A directory. -/
  | directory
  deriving DecidableEq

/-- Files and directories by their locations. -/
structure FileTree where
  /-- Where paths begin that do not begin at the root. -/
  workingDirectory : Location
  /-- The entries, at most one for each location. -/
  entries : List (Location × Entry)
  deriving DecidableEq

namespace FileTree

/-- The tree with nothing in it. -/
def empty (workingDirectory : Location) : FileTree :=
  { workingDirectory, entries := [] }

/-- What stands at a location; the working directory and those above it are there. -/
def find? (tree : FileTree) (location : Location) : Option Entry :=
  if location.isPrefixOf tree.workingDirectory then some .directory
  else tree.entries.lookup location

/-- The entries below the working directory, with the names that lead to them from there. -/
def inside (tree : FileTree) : List (List String × Entry) :=
  tree.entries.filterMap fun entry =>
    if tree.workingDirectory.isPrefixOf entry.1 then
      some (entry.1.drop tree.workingDirectory.length, entry.2)
    else none

/-- Where the steps of a path begin. -/
def origin (tree : FileTree) (path : Path) : Location :=
  if path.isAbsolute then [] else tree.workingDirectory

/-- Puts an entry at a location, in place of an earlier one. -/
def put (tree : FileTree) (location : Location) (entry : Entry) : FileTree :=
  if tree.entries.any fun other => other.1 = location then
    { tree with entries := tree.entries.map fun other =>
        if other.1 = location then (location, entry) else other }
  else { tree with entries := tree.entries ++ [(location, entry)] }

/-- Takes the entry at a location away. -/
def erase (tree : FileTree) (location : Location) : FileTree :=
  { tree with entries := tree.entries.filter fun other => other.1 ≠ location }

/-- The largest length of a name in bytes. -/
def nameLimit : Nat := 255

/-- The largest length of a path in bytes. -/
def pathLimit : Nat := 4095

/-- Follows steps from a directory through directories. -/
def follow (tree : FileTree) : Location → List String → Except AccessFault Location
  | here, [] => .ok here
  | here, name :: names =>
    if name = "." ∨ name = ".." then tree.follow (here.step name) names
    else if nameLimit < name.utf8ByteSize then .error .nameTooLong
    else
      match tree.find? (here.step name) with
      | none => .error .notFound
      | some (.file _) => .error .notADirectory
      | some .directory => tree.follow (here.step name) names

/-- What a host refuses in a path before it follows a step. -/
def refusal? (path : Path) : Option AccessFault :=
  if path.holdsNul then some .invalidPath
  else if path.text = "" then some .notFound
  else if pathLimit < path.text.utf8ByteSize then some .nameTooLong
  else none

/-- What a path leads to. -/
inductive Destination
  /-- A directory that is there, by a last step that is a dot or double dots, or by none. -/
  | directory
  /-- A place with a name, where something may stand or not. -/
  | place (location : Location)
  deriving DecidableEq

/-- What a path leads to. -/
def resolve (tree : FileTree) (path : Path) : Except AccessFault Destination :=
  match refusal? path with
  | some fault => .error fault
  | none =>
    match tree.follow (tree.origin path) path.steps.dropLast, path.steps.getLast? with
    | .error fault, _ => .error fault
    | .ok _, none => .ok .directory
    | .ok holder, some last =>
      if last = "." ∨ last = ".." then .ok .directory
      else if nameLimit < last.utf8ByteSize then .error .nameTooLong
      else .ok (.place (holder.step last))

/-- The contents of the file that a path names. -/
def read (tree : FileTree) (path : Path) : Except AccessFault Bytes :=
  match tree.resolve path with
  | .error fault => .error fault
  | .ok .directory => .error .isADirectory
  | .ok (.place location) =>
    match tree.find? location with
    | none => .error .notFound
    | some .directory => .error .isADirectory
    | some (.file bytes) => if path.endsInSlash then .error .notADirectory else .ok bytes

/-- The length in bytes of the path of a temporary file in a directory. -/
def temporaryPathLength (tree : FileTree) (directory : Path) (name : String) : Nat :=
  let base :=
    if directory.isAbsolute then 0 else tree.workingDirectory.path.text.utf8ByteSize + 1
  base + directory.text.utf8ByteSize + 1 + name.utf8ByteSize

/-- Writes a temporary file into a directory under a name that is not taken there. -/
def createTemporary (tree : FileTree) (directory : Path) (name : String) (bytes : Bytes) :
    Except AccessFault (Location × FileTree) :=
  if directory.holdsNul then .error .invalidPath
  else if pathLimit < tree.temporaryPathLength directory name then .error .nameTooLong
  else
    match tree.follow (tree.origin directory) directory.steps with
    | .error fault => .error fault
    | .ok holder =>
      let location := holder ++ [name]
      match tree.find? location with
      | some _ => .error (.other 17 "File exists")
      | none => .ok (location, tree.put location (.file bytes))

/-- Moves a temporary file over its target, unless a directory stands or is meant there. -/
def rename (tree : FileTree) (source : Location) (target : Path) : Except AccessFault FileTree :=
  match tree.resolve target with
  | .error fault => .error fault
  | .ok .directory => .error .resourceBusy
  | .ok (.place location) =>
    if target.endsInSlash then .error .notADirectory
    else
      match tree.find? location, tree.find? source with
      | some .directory, _ => .error .isADirectory
      | _, some entry => .ok ((tree.erase source).put location entry)
      | _, none => .error .notFound

/-- Removes the file that a path names. -/
def remove (tree : FileTree) (path : Path) : Except AccessFault FileTree :=
  match tree.resolve path with
  | .error fault => .error fault
  | .ok .directory => .error .isADirectory
  | .ok (.place location) =>
    match tree.find? location with
    | none => .error .notFound
    | some .directory => .error .isADirectory
    | some (.file _) =>
      if path.endsInSlash then .error .notADirectory else .ok (tree.erase location)

/-! ## Names for temporary files -/

/-- A name of the form that hosts give to temporary files, with a number in it. -/
def temporaryName (number : Nat) : String :=
  let digits := Nat.toDigits 10 number
  ".tmp" ++ String.ofList (List.replicate (6 - digits.length) '0' ++ digits)

/-- Every name that stands in the tree, in whatever directory. -/
def namesInUse (tree : FileTree) : List String :=
  tree.workingDirectory ++ tree.entries.flatMap fun entry => entry.1

/-- Numbered names that are not in use in the tree, one after the other. -/
def unusedName (tree : FileTree) (index : Nat) : String :=
  let candidates := (List.range (tree.namesInUse.length + index + 1)).map temporaryName
  (candidates.filter fun name => !tree.namesInUse.contains name).getD index ""

/-! ## Building trees -/

/-- The tree with directories all along the steps from a location, and where the steps lead. -/
def withDirectories (tree : FileTree) : Location → List String → FileTree × Location
  | here, [] => (tree, here)
  | here, name :: names =>
    let next := here.step name
    let tree := if (tree.find? next).isSome then tree else tree.put next .directory
    tree.withDirectories next names

/-- The tree with a directory where a path leads, and directories on the way to it. -/
def withDirectory (tree : FileTree) (path : Path) : FileTree :=
  (tree.withDirectories (tree.origin path) path.steps).1

/-- The tree with a file where a path leads, and directories on the way to it. -/
def withFile (tree : FileTree) (path : Path) (bytes : Bytes) : FileTree :=
  match path.steps.getLast? with
  | none => tree
  | some last =>
    let (tree, holder) := tree.withDirectories (tree.origin path) path.steps.dropLast
    tree.put (holder.step last) (.file bytes)

/-- The tree without what stands where a path leads and below it. -/
def without (tree : FileTree) (path : Path) : FileTree :=
  let location := path.steps.foldl Location.step (tree.origin path)
  { tree with entries := tree.entries.filter fun entry => !location.isPrefixOf entry.1 }

end FileTree

end NovelScript
