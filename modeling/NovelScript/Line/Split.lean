import NovelScript.Bytes

/-!
# The lines of a text stream

A line ends at a line feed; a carriage return in front of it belongs to the ending. Bytes after the
last line feed are a line of their own, and no bytes there are none.
-/

set_option autoImplicit false

namespace NovelScript.Line

/-- Drops one carriage return from the end. -/
def trimReturn (line : Bytes) : Bytes :=
  if line.getLast? = some Bytes.cr then line.dropLast else line

/-- The lines of a text stream, without their endings. -/
def split (text : Bytes) : List Bytes :=
  match text with
  | [] => []
  | first :: more =>
    let line := (first :: more).takeWhile (· != Bytes.lf)
    match _tail : (first :: more).dropWhile (· != Bytes.lf) with
    | [] => [trimReturn line]
    | _ :: rest => trimReturn line :: split rest
termination_by text.length
decreasing_by
  have whole := congrArg List.length
    (List.takeWhile_append_dropWhile (p := (· != Bytes.lf)) (l := first :: more))
  rw [List.length_append, _tail] at whole
  simp only [List.length_cons] at whole ⊢
  omega

end NovelScript.Line
