/-!
# Written numbers

The numbers in reports and messages: decimal, decimal with a sign always written, and hexadecimal in
lower case behind `0x`, bare or filled up with zeros to a least width that counts the `0x`.
-/

set_option autoImplicit false

namespace NovelScript.Numeral

/-- The digits of a number in a base of at most sixteen, the most significant first. -/
def digits (base n : Nat) : String :=
  String.ofList (Nat.toDigits base n)

/-- A number in decimal. -/
def decimal (n : Nat) : String :=
  digits 10 n

/-- A signed number in decimal, with a sign only when it is negative. -/
def signed (n : Int) : String :=
  if n < 0 then "-" ++ decimal n.natAbs else decimal n.natAbs

/-- A signed number in decimal, with a sign in every case; zero counts as positive. -/
def explicitlySigned (n : Int) : String :=
  if n < 0 then "-" ++ decimal n.natAbs else "+" ++ decimal n.natAbs

/-- A number in hexadecimal behind `0x`. -/
def hex (n : Nat) : String :=
  "0x" ++ digits 16 n

/-- A number in hexadecimal behind `0x`, filled up with zeros to `width` characters in all. -/
def paddedHex (width n : Nat) : String :=
  let written := Nat.toDigits 16 n
  "0x" ++ String.ofList (List.replicate (width - 2 - written.length) '0' ++ written)

end NovelScript.Numeral
