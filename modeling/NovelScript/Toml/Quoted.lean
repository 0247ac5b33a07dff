import NovelScript.Toml.Scan

/-!
# Quoted texts

Texts in double quotes know escapes, texts in single quotes do not. Either kind is written between
single quotation marks on one line, or between triple ones over several lines, where the first line
end is dropped and up to two marks may stand before the closing three.
-/

set_option autoImplicit false

namespace NovelScript.Toml

/-- The double quotation mark. -/
def doubleQuote : Char := Char.ofNat 0x22

/-- The single quotation mark. -/
def singleQuote : Char := Char.ofNat 0x27

/-- The backslash. -/
def backslash : Char := Char.ofNat 0x5C

/-- The value of a hexadecimal digit. -/
def hexValue? (c : Char) : Option Nat :=
  if '0' ≤ c ∧ c ≤ '9' then some (c.toNat - 0x30)
  else if 'a' ≤ c ∧ c ≤ 'f' then some (c.toNat - 0x61 + 10)
  else if 'A' ≤ c ∧ c ≤ 'F' then some (c.toNat - 0x41 + 10)
  else none

/-- The number spelled by exactly `count` hexadecimal digits. -/
def hexNumber? : (count value : Nat) → Scanner Nat
  | 0, value, text => some (value, text)
  | _ + 1, _, [] => none
  | count + 1, value, c :: rest =>
    match hexValue? c with
    | some digit => hexNumber? count (16 * value + digit) rest
    | none => none

/-- The character with a given number, if there is one. -/
def charOfNumber? (n : Nat) : Option Char :=
  if n < 0xD800 ∨ (0xDFFF < n ∧ n ≤ 0x10FFFF) then some (Char.ofNat n) else none

/-- The character that an escape stands for; the text starts after the backslash. -/
def escape? : Scanner Char
  | [] => none
  | c :: rest =>
    if c = 'b' then some (Char.ofNat 0x08, rest)
    else if c = 't' then some ('\t', rest)
    else if c = 'n' then some ('\n', rest)
    else if c = 'f' then some (Char.ofNat 0x0C, rest)
    else if c = 'r' then some ('\r', rest)
    else if c = doubleQuote ∨ c = backslash then some (c, rest)
    else if c = 'u' then (hexNumber? 4 0 rest).bind fun (n, rest) => (charOfNumber? n).map (·, rest)
    else if c = 'U' then (hexNumber? 8 0 rest).bind fun (n, rest) => (charOfNumber? n).map (·, rest)
    else none

/-- The text up to the closing quotation mark of its line. -/
def singleLine? (quote : Char) : (fuel : Nat) → Scanner (List Char)
  | 0, _ => none
  | _ + 1, [] => none
  | fuel + 1, c :: rest =>
    if c = quote then some ([], rest)
    else if c = backslash ∧ quote = doubleQuote then
      (escape? rest).bind fun (c, rest) =>
        (singleLine? quote fuel rest).map fun (text, rest) => (c :: text, rest)
    else if isCommentChar c then
      (singleLine? quote fuel rest).map fun (text, rest) => (c :: text, rest)
    else none

/-- Skips blanks and line ends. -/
def skipSpace : List Char → List Char
  | [] => []
  | '\r' :: '\n' :: rest => skipSpace rest
  | c :: rest => if isBlank c || c = '\n' then skipSpace rest else c :: rest

/-- The text up to three closing quotation marks. -/
def multiLine? (quote : Char) : (fuel : Nat) → Scanner (List Char)
  | 0, _ => none
  | _ + 1, [] => none
  | fuel + 1, c :: rest =>
    if c = quote then
      let marks := (c :: rest).takeWhile (· = quote)
      let others := (c :: rest).dropWhile (· = quote)
      if marks.length < 3 then
        (multiLine? quote fuel others).map fun (text, rest) => (marks ++ text, rest)
      else if marks.length ≤ 5 then some (marks.drop 3, others)
      else none
    else if c = backslash ∧ quote = doubleQuote then
      match afterNewline? (skipBlanks rest) with
      | some rest => multiLine? quote fuel (skipSpace rest)
      | none =>
        (escape? rest).bind fun (c, rest) =>
          (multiLine? quote fuel rest).map fun (text, rest) => (c :: text, rest)
    else
      match afterNewline? (c :: rest) with
      | some rest => (multiLine? quote fuel rest).map fun (text, rest) => ('\n' :: text, rest)
      | none =>
        if isCommentChar c then
          (multiLine? quote fuel rest).map fun (text, rest) => (c :: text, rest)
        else none

/-- A text on one line, opened by the given quotation mark. -/
def quotedLine? (quote : Char) (text : List Char) : Option (String × List Char) :=
  match text with
  | [] => none
  | c :: rest =>
    if c = quote then
      (singleLine? quote text.length rest).map fun (text, rest) => (String.ofList text, rest)
    else none

/-- A text of either layout, opened by the given quotation mark. -/
def quoted? (quote : Char) (text : List Char) : Option (String × List Char) :=
  match text with
  | a :: b :: c :: rest =>
    if a = quote ∧ b = quote ∧ c = quote then
      let body := (afterNewline? rest).getD rest
      (multiLine? quote text.length body).map fun (text, rest) => (String.ofList text, rest)
    else quotedLine? quote text
  | _ => quotedLine? quote text

end NovelScript.Toml
