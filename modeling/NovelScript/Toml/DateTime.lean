import NovelScript.Toml.Numeric

/-!
# Dates and times

A date, a time of day, or both, and then perhaps an offset. Every part has to be in its range: a
month has as many days as its year gives it, and a minute may end in a leap second.
-/

set_option autoImplicit false

namespace NovelScript.Toml

/-- The number spelled by exactly `count` decimal digits. -/
def fixedNumber? : (count value : Nat) → Scanner Nat
  | 0, value, text => some (value, text)
  | _ + 1, _, [] => none
  | count + 1, value, c :: rest =>
    match digitValue? 10 c with
    | some digit => fixedNumber? count (10 * value + digit) rest
    | none => none

/-- Takes off one given character. -/
def expect? (c : Char) : List Char → Option (List Char)
  | [] => none
  | d :: rest => if c = d then some rest else none

/-- Whether a year has a leap day. -/
def isLeapYear (year : Nat) : Bool :=
  year % 4 = 0 && (year % 100 ≠ 0 || year % 400 = 0)

/-- The number of days in a month. -/
def daysIn (year month : Nat) : Nat :=
  if month = 2 then (if isLeapYear year then 29 else 28)
  else if month = 4 ∨ month = 6 ∨ month = 9 ∨ month = 11 then 30
  else 31

/-- Takes off a date. -/
def date? (text : List Char) : Option (List Char) := do
  let (year, rest) ← fixedNumber? 4 0 text
  let (month, rest) ← fixedNumber? 2 0 (← expect? '-' rest)
  let (day, rest) ← fixedNumber? 2 0 (← expect? '-' rest)
  if 1 ≤ month ∧ month ≤ 12 ∧ 1 ≤ day ∧ day ≤ daysIn year month then some rest else none

/-- Takes off a fraction of a second, if there is one. -/
def secondFraction? : List Char → Option (List Char)
  | '.' :: c :: rest => if c.isDigit then some (rest.dropWhile Char.isDigit) else none
  | '.' :: [] => none
  | text => some text

/-- Takes off a time of day. -/
def time? (text : List Char) : Option (List Char) := do
  let (hour, rest) ← fixedNumber? 2 0 text
  let (minute, rest) ← fixedNumber? 2 0 (← expect? ':' rest)
  let (second, rest) ← fixedNumber? 2 0 (← expect? ':' rest)
  if hour ≤ 23 ∧ minute ≤ 59 ∧ second ≤ 60 then secondFraction? rest else none

/-- Takes off an offset, if there is one. -/
def offset? (text : List Char) : Option (List Char) :=
  match text with
  | [] => some []
  | c :: rest =>
    if c = 'Z' ∨ c = 'z' then some rest
    else if c = '+' ∨ c = '-' then do
      let (hour, rest) ← fixedNumber? 2 0 rest
      let (minute, rest) ← fixedNumber? 2 0 (← expect? ':' rest)
      if hour ≤ 23 ∧ minute ≤ 59 then some rest else none
    else some text

/-- Whether a text goes on with the time that belongs to a date. A blank may just end the date. -/
def startsTime (text : List Char) : Bool :=
  match text with
  | mark :: a :: b :: ':' :: _ => (mark = 'T' || mark = 't' || mark = ' ') && a.isDigit && b.isDigit
  | _ => false

/-- Takes off a date, a time or both. -/
def dateTime? (text : List Char) : Option (String × List Char) :=
  match date? text with
  | some rest =>
    if startsTime rest then
      ((time? (rest.drop 1)).bind offset?).map fun rest => (consumed text rest, rest)
    else some (consumed text rest, rest)
  | none => (time? text).map fun rest => (consumed text rest, rest)

end NovelScript.Toml
