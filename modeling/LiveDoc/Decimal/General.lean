import LiveDoc.Decimal.Shortest

namespace LiveDoc.Decimal

-- The exponent of the leading digit.
def Digits.magnitude (d : Digits) : Int := (digitText d.digits).length - 1 + d.exponent

-- One digit before the point, the others after it, and then the exponent.
def Digits.toScientific (d : Digits) : String :=
  let lead := match (digitText d.digits).toList with
    | [] => ""
    | [c] => String.ofList [c]
    | c :: rest => String.ofList (c :: '.' :: rest)
  lead ++ "e" ++ toString d.magnitude

-- A number that can be told from an integer: it has a point, or an exponent when it is below
-- 10^-4 or not below 10^16.
def general (value : Float) : String :=
  match Binary.ofFloat value with
  | .finite negative mantissa exponent =>
      let body :=
        if mantissa = 0 then "0.0"
        else
          let d := (Rounding.ofBinary mantissa exponent).shortest
          if d.magnitude < -4 ∨ 16 ≤ d.magnitude then d.toScientific
          else if 0 ≤ d.exponent then d.toText ++ ".0"
          else d.toText
      signText negative ++ body
  | _ => text value

end LiveDoc.Decimal
