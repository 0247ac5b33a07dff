import NovelScript.Decimal.Shortest
import NovelScript.Text.Numeral

/-!
# Floating point numbers in reports

A floating point number is written with its shortest digits and never with an exponent. Zeros fill
the places up to the point, and a whole number has no point. Both zeros keep their sign; a NaN has
none.
-/

set_option autoImplicit false

namespace NovelScript

/-- A decimal written out place by place. -/
def Decimal.positional (decimal : Decimal) : String :=
  let digits := (Numeral.decimal decimal.coefficient).toList
  let places := (-decimal.exponent).toNat
  if places = 0 then
    String.ofList (digits ++ List.replicate decimal.exponent.toNat '0')
  else if places < digits.length then
    let whole := digits.length - places
    String.ofList (digits.take whole ++ '.' :: digits.drop whole)
  else
    String.ofList ('0' :: '.' :: List.replicate (places - digits.length) '0' ++ digits)

/-- The text of a floating point number. -/
def Binary64.text (bits : BitVec 64) : String :=
  let sign (negative : Bool) : String := if negative then "-" else ""
  match parts bits with
  | .notANumber => "NaN"
  | .infinite negative => sign negative ++ "inf"
  | .zero negative => sign negative ++ "0"
  | .finite negative low value high closed =>
    sign negative ++ (shortest low value high closed).positional

end NovelScript
