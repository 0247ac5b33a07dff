import NovelScript.Toml.Value

/-!
# Configuration files

A file is a sequence of lines: a key and its value, a header that opens a table, a header in double
brackets that opens one more table of a list, or nothing. Keys belong to the table that was opened
last, at first to the file itself. A file in which anything is defined twice is refused.
-/

set_option autoImplicit false

namespace NovelScript.Toml

/-- What one line of a file says. -/
inductive Statement
  /-- A key with its value. -/
  | assign (path : List String) (name : String) (node : Node)
  /-- A header. -/
  | openTable (path : List String) (name : String)
  /-- A header in double brackets. -/
  | openElement (path : List String) (name : String)

/-- The statement at the front of a text that starts with neither blanks nor a line end. -/
def statement? (text : List Char) : Option (Statement × List Char) :=
  match text with
  | '[' :: '[' :: rest =>
    match key? rest with
    | some ((path, name), ']' :: ']' :: rest) => some (.openElement path name, rest)
    | _ => none
  | '[' :: rest =>
    match key? rest with
    | some ((path, name), ']' :: rest) => some (.openTable path name, rest)
    | _ => none
  | text =>
    match key? text with
    | some ((path, name), '=' :: rest) =>
      (topValue? (skipBlanks rest)).map fun (node, rest) => (.assign path name node, rest)
    | _ => none

/-- The statements of a text; `fuel` bounds the number of its lines. -/
def statements? : (fuel : Nat) → List Char → Option (List Statement)
  | 0, _ => none
  | fuel + 1, text =>
    match finishLine? text with
    | some [] => some []
    | some rest => statements? fuel rest
    | none =>
      (statement? (skipBlanks text)).bind fun (statement, rest) =>
        (finishLine? rest).bind fun rest =>
          (statements? fuel rest).map fun statements => statement :: statements

/-- A file in the making: its table, and the path of the table that was opened last. -/
structure Assembly where
  /-- Everything defined so far. -/
  root : Table
  /-- Where keys belong. -/
  current : List String

/-- Adds what one line says. -/
def Assembly.add? (assembly : Assembly) : Statement → Option Assembly
  | .assign path name node =>
    (Table.under? (Table.assign? name node path) assembly.current assembly.root).map fun root =>
      { assembly with root }
  | .openTable path name =>
    (Table.under? (Table.openTable? name) path assembly.root).map fun root =>
      { root, current := path ++ [name] }
  | .openElement path name =>
    (Table.under? (Table.openElement? name) path assembly.root).map fun root =>
      { root, current := path ++ [name] }

/-- Drops a byte order mark. -/
def skipByteOrderMark : List Char → List Char
  | [] => []
  | c :: rest => if c.toNat = 0xFEFF then rest else c :: rest

/-- The table that a configuration file defines. -/
def parse? (text : String) : Option Table :=
  let text := skipByteOrderMark text.toList
  (statements? (text.length + 1) text).bind fun statements =>
    (statements.foldlM Assembly.add? { root := [], current := [] }).map Assembly.root

end NovelScript.Toml
