/-!
# Configuration trees

A configuration file is a table of named nodes. A table can be written in four ways, and the way
decides who may add to it later: a header opens a table once; the tables that a longer header or a
dotted key passes through come into being on the way; an inline table is complete where it stands.

`Table.assign?` and `Table.under?` are the two ways to reach into a table. Both refuse to define
anything twice.
-/

set_option autoImplicit false

namespace NovelScript.Toml

/-- How a table came into being. -/
inductive TableKind
  /-- Opened by a header of its own. -/
  | headed
  /-- Passed through by a longer header. -/
  | implied
  /-- Passed through by a dotted key. -/
  | dotted
  /-- Written in braces. -/
  | inline
  deriving DecidableEq

/-- A value of a configuration file. -/
inductive Node
  /-- A text. -/
  | string (text : String)
  /-- A whole number. -/
  | integer (value : Int)
  /-- A floating point number, as it was written. -/
  | float (written : String)
  /-- A truth value. -/
  | boolean (value : Bool)
  /-- A date, a time of day or both, as it was written. -/
  | dateTime (written : String)
  /-- A list in brackets. -/
  | array (elements : List Node)
  /-- A table. -/
  | table (kind : TableKind) (entries : List (String × Node))
  /-- The tables opened one after the other by headers in double brackets, the last one apart. -/
  | tables (earlier : List (List (String × Node))) (last : List (String × Node))

/-- The named nodes of a table. -/
abbrev Table := List (String × Node)

namespace Table

/-- Gives a name its node, in place of an earlier one. -/
def set (name : String) (node : Node) : Table → Table
  | [] => [(name, node)]
  | entry :: rest => if entry.1 = name then (name, node) :: rest else entry :: set name node rest

/-- Changes the table at the end of a path of headers. Tables on the way come into being, and of
tables in double brackets the path means the last. -/
def under? (change : Table → Option Table) : List String → Table → Option Table
  | [], table => change table
  | name :: path, table =>
    match table.lookup name with
    | none => (under? change path []).map fun sub => table.set name (.table .implied sub)
    | some (.table .inline _) => none
    | some (.table kind sub) =>
      (under? change path sub).map fun sub => table.set name (.table kind sub)
    | some (.tables earlier last) =>
      (under? change path last).map fun last => table.set name (.tables earlier last)
    | some _ => none

/-- Gives a new name its node. -/
def add? (name : String) (node : Node) (table : Table) : Option Table :=
  match table.lookup name with
  | none => some (table ++ [(name, node)])
  | some _ => none

/-- Gives a new name its node in the table that a dotted key leads to. A dotted key cannot reach
into a table that was opened by a header or written in braces, and its last table must be one that
only dotted keys have made. -/
def assign? (name : String) (node : Node) : List String → Table → Option Table
  | [], table => table.add? name node
  | step :: path, table =>
    match table.lookup step with
    | none => (assign? name node path []).map fun sub => table.set step (.table .dotted sub)
    | some (.table .dotted sub) =>
      (assign? name node path sub).map fun sub => table.set step (.table .dotted sub)
    | some (.table .implied sub) =>
      if path.isEmpty then none
      else (assign? name node path sub).map fun sub => table.set step (.table .implied sub)
    | some (.tables earlier last) =>
      if path.isEmpty then none
      else (assign? name node path last).map fun last => table.set step (.tables earlier last)
    | some _ => none

/-- Opens a table by its header, once. -/
def openTable? (name : String) (table : Table) : Option Table :=
  match table.lookup name with
  | none => some (table.set name (.table .headed []))
  | some (.table .implied sub) => some (table.set name (.table .headed sub))
  | some _ => none

/-- Opens one more table of a list by its header in double brackets. -/
def openElement? (name : String) (table : Table) : Option Table :=
  match table.lookup name with
  | none => some (table.set name (.tables [] []))
  | some (.tables earlier last) => some (table.set name (.tables (earlier ++ [last]) []))
  | some _ => none

end Table

end NovelScript.Toml
