/-!
# Paths

A path is kept as it was given, since that is how messages name a file. Its steps are the parts
between slashes, without the empty ones; a single dot is a step that leads nowhere. The directory
of a path is the path without its last name and what leads nowhere around it; in front of that it is
kept as it was given as well, since a host counts every character of a path.
-/

set_option autoImplicit false

namespace NovelScript

/-- A path as it was given. -/
structure Path where
  /-- The text of the path. -/
  text : String
  deriving DecidableEq

namespace Path

/-- The parts of a text between slashes, at least one. -/
def splitSlashes : List Char → List (List Char)
  | [] => [[]]
  | c :: rest =>
    if c = '/' then [] :: splitSlashes rest
    else
      match splitSlashes rest with
      | [] => [[c]]
      | part :: parts => (c :: part) :: parts

/-- The parts of a path between slashes. -/
def parts (path : Path) : List String :=
  (splitSlashes path.text.toList).map String.ofList

/-- The steps along a path, dots and double dots among them. -/
def steps (path : Path) : List String :=
  path.parts.filter fun part => part ≠ ""

/-- Whether a path starts at the root of the host rather than at the working directory. -/
def isAbsolute (path : Path) : Bool :=
  path.text.toList.head? = some '/'

/-- Whether a path ends in a slash, and so can only name a directory. -/
def endsInSlash (path : Path) : Bool :=
  path.text.toList.getLast? = some '/'

/-- Whether a path holds the character that ends a path for the host. -/
def holdsNul (path : Path) : Bool :=
  path.text.toList.any fun c => c.toNat = 0

/-- Parts up to the last one that leads somewhere. -/
def trimParts (parts : List String) : List String :=
  (parts.reverse.dropWhile fun part => part = "" || part = ".").reverse

/-- The directory that holds what a path names; the working directory when there is no other. -/
def directory (path : Path) : Path :=
  let named := trimParts path.parts
  let holder := trimParts named.dropLast
  if holder ≠ [] then { text := "/".intercalate holder }
  else if named ≠ [] && path.isAbsolute then { text := "/" }
  else { text := "." }

/-- The path of the debug report next to a text stream. -/
def debugReport (path : Path) : Path :=
  { text := path.text ++ ".debug" }

end Path

end NovelScript
