import LiveDoc.Decimal.Binary
import LiveDoc.Text.Basic

namespace LiveDoc.Decimal

def digitsValue (digits : List Char) : Nat :=
  digits.foldl (fun value c => value * 10 + (c.toNat - 48)) 0

-- The double nearest to `digits * 10 ^ exponent`. Exponents far outside the range of doubles
-- are settled without building the power.
def ofDigits (negative : Bool) (digits : Nat) (exponent : Int) : Float :=
  let size := (Nat.toDigits 10 digits).length
  if digits = 0 then nearest negative 0 1
  else if 400 < exponent then infinity negative
  else if exponent + size < -400 then nearest negative 0 1
  else nearest negative (digits * Nat.pow 10 exponent.toNat) (Nat.pow 10 (-exponent).toNat)

-- Digits with at most one point among them, and at least one digit.
def unsigned? (text : List Char) : Option (Nat × Int) :=
  let whole := text.takeWhile Char.isDigit
  match text.dropWhile Char.isDigit with
  | [] => if whole = [] then none else some (digitsValue whole, 0)
  | c :: part =>
      if c ≠ '.' ∨ !part.all Char.isDigit ∨ (whole = [] ∧ part = []) then none
      else some (digitsValue (whole ++ part), -(part.length : Int))

def exponent? : List Char → Option Int
  | '-' :: digits => natural? digits |>.map fun n => -(n : Int)
  | '+' :: digits => natural? digits |>.map fun n => (n : Int)
  | digits => natural? digits |>.map fun n => (n : Int)
where
  natural? (digits : List Char) : Option Nat :=
    if digits ≠ [] ∧ digits.all Char.isDigit then some (digitsValue digits) else none

def magnitude? (negative : Bool) (text : List Char) : Option Float :=
  let word := String.ofList (text.map Char.toLower)
  if word = "inf" ∨ word = "infinity" then some (infinity negative)
  else if word = "nan" then some notANumber
  else
    let plain := text.takeWhile fun c => c ≠ 'e' && c ≠ 'E'
    match unsigned? plain, text.drop plain.length with
    | some (digits, exponent), [] => some (ofDigits negative digits exponent)
    | some (digits, exponent), _ :: power =>
        (exponent? power).map fun p => ofDigits negative digits (exponent + p)
    | none, _ => none

-- Reads a number: an optional sign, then digits with an optional point and exponent, or the
-- name of a special value.
def read? : List Char → Option Float
  | '-' :: text => magnitude? true text
  | '+' :: text => magnitude? false text
  | text => magnitude? false text

end LiveDoc.Decimal
