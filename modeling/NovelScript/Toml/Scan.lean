/-!
# Blanks, comments and line ends

A scanner takes what it wants from the front of a text and returns the rest. The scanners here skip
what carries no meaning.
-/

set_option autoImplicit false

namespace NovelScript.Toml

/-- Reads something from the front of a text and returns what follows it. -/
abbrev Scanner (α : Type) := List Char → Option (α × List Char)

/-- Whether a character may stand between the parts of a line. -/
def isBlank (c : Char) : Bool :=
  c = ' ' || c = '\t'

/-- Whether a character may stand in a comment: anything but a control character other than tab. -/
def isCommentChar (c : Char) : Bool :=
  c = '\t' || (0x20 ≤ c.toNat && c.toNat ≤ 0x7E) || 0x80 ≤ c.toNat

/-- Skips blanks. -/
def skipBlanks (text : List Char) : List Char :=
  text.dropWhile isBlank

/-- What follows a line end at the front of a text. -/
def afterNewline? : List Char → Option (List Char)
  | '\n' :: rest => some rest
  | '\r' :: '\n' :: rest => some rest
  | _ => none

/-- Skips a comment up to the end of its line. -/
def skipComment : List Char → List Char
  | '#' :: rest => rest.dropWhile isCommentChar
  | text => text

/-- Skips the rest of a line that holds nothing more than blanks and a comment. -/
def finishLine? (text : List Char) : Option (List Char) :=
  match skipComment (skipBlanks text) with
  | [] => some []
  | rest => afterNewline? rest

/-- Skips blanks, line ends and comments. A comment ends with its line, and a text that breaks off
elsewhere in it is left standing for the caller to refuse. -/
def skipFiller (inComment : Bool) : List Char → List Char
  | [] => []
  | '\r' :: '\n' :: rest => skipFiller false rest
  | c :: rest =>
    if c = '\n' then skipFiller false rest
    else if inComment then
      if isCommentChar c then skipFiller true rest else c :: rest
    else if isBlank c then skipFiller false rest
    else if c = '#' then skipFiller true rest
    else c :: rest

end NovelScript.Toml
