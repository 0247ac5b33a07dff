import NovelScript.Files.Path

/-!
# Locations

A location is where a path leads: the names down to it from the root of the host. Locations are
reached by steps, one for each step of a path, so that no location holds a dot or double dots.
-/

set_option autoImplicit false

namespace NovelScript

/-- The names that lead to a place from the root of the host. -/
abbrev Location := List String

namespace Location

/-- The location that a step of a path leads to; above the root is the root. -/
def step (here : Location) (name : String) : Location :=
  if name = "." then here
  else if name = ".." then here.dropLast
  else here ++ [name]

/-- The path from the root to a location. -/
def path (location : Location) : Path :=
  { text := "/" ++ "/".intercalate location }

end Location

end NovelScript
