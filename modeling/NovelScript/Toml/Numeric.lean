import NovelScript.Toml.Quoted

/-!
# Numbers

Whole numbers are decimal with an optional sign and without leading zeros, or hexadecimal, octal or
binary behind `0x`, `0o` or `0b` without a sign; they have 64 bits. Floating point numbers have a
fraction, an exponent or both, or are `inf` or `nan`. An underscore may stand between two digits.

What a scanner leaves behind a number is refused by its caller unless it may follow a value, so a
leading zero or a stray underscore needs no rule of its own.
-/

set_option autoImplicit false

namespace NovelScript.Toml

/-- The value of a digit in a base of at most sixteen. -/
def digitValue? (base : Nat) (c : Char) : Option Nat :=
  (hexValue? c).filter (· < base)

/-- Digits with an underscore allowed before each. -/
def moreDigits (base : Nat) : List Char → List Nat × List Char
  | [] => ([], [])
  | [c] =>
    match digitValue? base c with
    | some digit => ([digit], [])
    | none => ([], [c])
  | c :: d :: rest =>
    match digitValue? base c with
    | some digit =>
      let (digits, rest) := moreDigits base (d :: rest)
      (digit :: digits, rest)
    | none =>
      match (if c = '_' then digitValue? base d else none) with
      | some digit =>
        let (digits, rest) := moreDigits base rest
        (digit :: digits, rest)
      | none => ([], c :: d :: rest)

/-- One digit or more, with an underscore allowed between two of them. -/
def digitRun? (base : Nat) : Scanner (List Nat)
  | [] => none
  | c :: rest =>
    match digitValue? base c with
    | some digit =>
      let (digits, rest) := moreDigits base rest
      some (digit :: digits, rest)
    | none => none

/-- The number that digits spell. -/
def numberOf (base : Nat) (digits : List Nat) : Nat :=
  digits.foldl (fun n digit => base * n + digit) 0

/-- Takes off a sign. -/
def sign : List Char → Option Char × List Char
  | '+' :: rest => (some '+', rest)
  | '-' :: rest => (some '-', rest)
  | text => (none, text)

/-- The digits of a decimal number without leading zeros. -/
def decimalDigits? : Scanner (List Nat)
  | '0' :: rest => some ([0], rest)
  | text => digitRun? 10 text

/-- The size of the lowest whole number of 64 bits. -/
def magnitudeLimit : Nat :=
  0x8000000000000000

/-- A whole number of 64 bits. -/
def integer? (text : List Char) : Option (Int × List Char) :=
  let inBase (base : Nat) (digits : List Char) : Option (Int × List Char) :=
    (digitRun? base digits).bind fun (digits, rest) =>
      let value := numberOf base digits
      if value < magnitudeLimit then some (value, rest) else none
  match text with
  | '0' :: 'x' :: digits => inBase 16 digits
  | '0' :: 'o' :: digits => inBase 8 digits
  | '0' :: 'b' :: digits => inBase 2 digits
  | _ =>
    let (sign, digits) := sign text
    (decimalDigits? digits).bind fun (digits, rest) =>
      let value := numberOf 10 digits
      if sign = some '-' then
        if value ≤ magnitudeLimit then some (-value, rest) else none
      else if value < magnitudeLimit then some (value, rest)
      else none

/-- An exponent, zero when there is none. -/
def exponent? : Scanner Int
  | [] => some (0, [])
  | c :: rest =>
    if c = 'e' ∨ c = 'E' then
      let (sign, digits) := sign rest
      (digitRun? 10 digits).map fun (digits, rest) =>
        let value : Int := numberOf 10 digits
        (if sign = some '-' then -value else value, rest)
    else some (0, c :: rest)

/-- Whether `coefficient * 10 ^ exponent` is too large for a 64-bit floating point number. The exact
comparison is only made where the sizes are close. -/
def overflows (coefficient : Nat) (exponent : Int) : Bool :=
  let magnitude : Int := (Nat.toDigits 10 coefficient).length + exponent
  if coefficient = 0 ∨ magnitude < 300 then false
  else if 320 < magnitude then true
  else
    (1 <<< 1024 - 1 <<< 970) * Nat.pow 10 (-exponent).toNat ≤
      coefficient * Nat.pow 10 exponent.toNat

/-- The digits of a fraction, none when there is no point. -/
def fraction? : Scanner (List Nat)
  | '.' :: rest => digitRun? 10 rest
  | text => some ([], text)

/-- What was taken off the front of a text. -/
def consumed (text rest : List Char) : String :=
  String.ofList (text.take (text.length - rest.length))

/-- A floating point number written with digits. One above the largest is refused. -/
def decimalFloat? (text : List Char) : Option (String × List Char) :=
  let (sign, digits) := sign text
  (decimalDigits? digits).bind fun (whole, afterWhole) =>
    (fraction? afterWhole).bind fun (fraction, afterFraction) =>
      (exponent? afterFraction).bind fun (exponent, rest) =>
        if rest.length = afterWhole.length then none
        else if sign ≠ some '-' ∧
            overflows (numberOf 10 (whole ++ fraction)) (exponent - fraction.length) then none
        else some (consumed text rest, rest)

/-- An infinity or not a number. -/
def specialFloat? (text : List Char) : Option (String × List Char) :=
  let (_, word) := sign text
  match word with
  | 'i' :: 'n' :: 'f' :: rest => some (consumed text rest, rest)
  | 'n' :: 'a' :: 'n' :: rest => some (consumed text rest, rest)
  | _ => none

end NovelScript.Toml
