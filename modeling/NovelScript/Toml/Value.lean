import NovelScript.Toml.DateTime
import NovelScript.Toml.Node

/-!
# Keys and values

A key is a name or a dotted path of names, each bare or in quotation marks. Values nest: arrays may
spread over lines and end in a comma, inline tables may not. Nesting is bounded, both of values and
of dotted keys.

The readers of nested values count down on the length of the text, which bounds how often they can
call each other.
-/

set_option autoImplicit false

namespace NovelScript.Toml

/-- Values nest, and dotted keys reach, less deep than this. -/
def nestingLimit : Nat := 80

/-- Whether a character may stand in a bare name. -/
def isBareChar (c : Char) : Bool :=
  c.isAlphanum || c = '_' || c = '-'

/-- A name: bare, or in quotation marks on one line. -/
def name? (text : List Char) : Option (String × List Char) :=
  match text with
  | [] => none
  | c :: _ =>
    if c = doubleQuote ∨ c = singleQuote then quotedLine? c text
    else
      let bare := text.takeWhile isBareChar
      if bare.isEmpty then none else some (String.ofList bare, text.dropWhile isBareChar)

/-- A dotted path of names, with blanks allowed around each; `fuel` bounds the number of names. -/
def path? : (fuel : Nat) → Scanner (List String)
  | 0, _ => none
  | fuel + 1, text =>
    (name? (skipBlanks text)).bind fun (name, rest) =>
      match skipBlanks rest with
      | '.' :: rest => (path? fuel rest).map fun (path, rest) => (name :: path, rest)
      | rest => some ([name], rest)

/-- A key: the tables that it leads through and the name in the last of them. -/
def key? (text : List Char) : Option ((List String × String) × List Char) :=
  (path? (nestingLimit - 1) text).bind fun (path, rest) =>
    path.getLast?.map fun name => ((path.dropLast, name), rest)

/-- A number, a date or a time. -/
def numeric? (text : List Char) : Option (Node × List Char) :=
  match dateTime? text with
  | some (written, rest) => some (.dateTime written, rest)
  | none =>
    match decimalFloat? text, specialFloat? text with
    | some (written, rest), _ => some (.float written, rest)
    | none, some (written, rest) => some (.float written, rest)
    | none, none => (integer? text).map fun (value, rest) => (.integer value, rest)

/-- A value that holds no others. -/
def scalar? (text : List Char) : Option (Node × List Char) :=
  match text with
  | [] => none
  | 't' :: 'r' :: 'u' :: 'e' :: rest => some (.boolean true, rest)
  | 'f' :: 'a' :: 'l' :: 's' :: 'e' :: rest => some (.boolean false, rest)
  | c :: _ =>
    if c = doubleQuote ∨ c = singleQuote then
      (quoted? c text).map fun (text, rest) => (.string text, rest)
    else numeric? text

mutual

/-- A value. `depth` is how many more levels of nesting are allowed. -/
def value? : (fuel depth : Nat) → Scanner Node
  | 0, _, _ => none
  | fuel + 1, depth, text =>
    match text with
    | '[' :: rest =>
      if depth = 0 then none
      else (elements? fuel (depth - 1) rest).map fun (elements, rest) => (.array elements, rest)
    | '{' :: rest =>
      if depth = 0 then none
      else
        match skipBlanks rest with
        | '}' :: rest => some (.table .inline [], rest)
        | rest =>
          (entries? fuel (depth - 1) [] rest).map fun (table, rest) => (.table .inline table, rest)
    | text => scalar? text

/-- The elements of an array up to the closing bracket. -/
def elements? : (fuel depth : Nat) → Scanner (List Node)
  | 0, _, _ => none
  | fuel + 1, depth, text =>
    match skipFiller false text with
    | ']' :: rest => some ([], rest)
    | text =>
      (value? fuel depth text).bind fun (first, rest) =>
        match skipFiller false rest with
        | ']' :: rest => some ([first], rest)
        | ',' :: rest =>
          (elements? fuel depth rest).map fun (elements, rest) => (first :: elements, rest)
        | _ => none

/-- The entries of an inline table up to the closing brace, added to those before them. -/
def entries? : (fuel depth : Nat) → Table → Scanner Table
  | 0, _, _, _ => none
  | fuel + 1, depth, table, text =>
    match key? text with
    | some ((path, name), '=' :: rest) =>
      (value? fuel depth (skipBlanks rest)).bind fun (node, rest) =>
        (table.assign? name node path).bind fun table =>
          match skipBlanks rest with
          | '}' :: rest => some (table, rest)
          | ',' :: rest => entries? fuel depth table rest
          | _ => none
    | _ => none

end

/-- A value at the top of a text. -/
def topValue? (text : List Char) : Option (Node × List Char) :=
  value? (2 * text.length + 2) (nestingLimit - 1) text

end NovelScript.Toml
