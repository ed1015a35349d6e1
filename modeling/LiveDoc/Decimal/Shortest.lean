import LiveDoc.Decimal.Binary

namespace LiveDoc.Decimal

-- The number `digits * 10 ^ exponent`.
structure Digits where
  digits : Nat
  exponent : Int
  deriving DecidableEq, Repr

-- A positive double with the interval of numbers that round to it, all over one denominator.
-- An even mantissa owns the two ends of its interval.
structure Rounding where
  low : Nat
  value : Nat
  high : Nat
  den : Nat
  closed : Bool

def Rounding.ofBinary (mantissa : Nat) (exponent : Int) : Rounding :=
  -- Below a power of two the neighbour is only half as far away.
  let below := if mantissa = hiddenBit && -1074 < exponent then 1 else 2
  let up := scaled 1 (exponent - 2)
  { low := (4 * mantissa - below) * up
    value := 4 * mantissa * up
    high := (4 * mantissa + 2) * up
    den := scaled 1 (2 - exponent)
    closed := mantissa % 2 == 0 }

def power10 (power : Int) : Nat := Nat.pow 10 power.toNat

-- Whether `digits * 10 ^ exponent` rounds to the double.
def Rounding.holds (r : Rounding) (d : Digits) : Bool :=
  let point := d.digits * power10 d.exponent * r.den
  let unit := power10 (-d.exponent)
  let low := r.low * unit
  let high := r.high * unit
  if r.closed then low ≤ point && point ≤ high else low < point && point < high

-- The exponent of the leading decimal digit.
def Rounding.magnitude (r : Rounding) : Int :=
  if r.den ≤ r.value then ((Nat.toDigits 10 (r.value / r.den)).length : Int) - 1
  else
    match (List.range 400).find? fun k => r.den ≤ r.value * Nat.pow 10 k with
    | some k => -(k : Int)
    | none => 0

-- The two points of the grid of step `10 ^ exponent` beside the value, the nearer first. At
-- equal distance the upper one comes first.
def Rounding.neighbours (r : Rounding) (exponent : Int) : List Digits :=
  let num := r.value * power10 (-exponent)
  let step := r.den * power10 exponent
  let below := num / step
  let near := ⟨below, exponent⟩
  let far := ⟨below + 1, exponent⟩
  if 2 * (num % step) < step then [near, far] else [far, near]

def dropZeros : Nat → Digits → Digits
  | 0, d => d
  | fuel + 1, d =>
      if d.digits ≠ 0 ∧ d.digits % 10 = 0 then dropZeros fuel ⟨d.digits / 10, d.exponent + 1⟩ else d

-- Seventeen digits always read back, so the last grid has a hit.
def Rounding.shortest (r : Rounding) : Digits :=
  let top := r.magnitude
  let onGrid (count : Nat) := (r.neighbours (top - count)).find? r.holds
  match (List.range 18).findSome? onGrid with
  | some d => dropZeros 20 d
  | none => ⟨0, 0⟩

def digitText (n : Nat) : String := String.ofList (Nat.toDigits 10 n)

def zeros (count : Nat) : String := "".pushn '0' count

-- Positional notation without an exponent.
def Digits.toText (d : Digits) : String :=
  let text := digitText d.digits
  let count := text.length
  let places := (-d.exponent).toNat
  if 0 ≤ d.exponent then text ++ zeros d.exponent.toNat
  else if places < count then
    String.ofList (text.toList.take (count - places)) ++ "." ++
      String.ofList (text.toList.drop (count - places))
  else "0." ++ zeros (places - count) ++ text

def signText (negative : Bool) : String := if negative then "-" else ""

-- The fewest digits that read back as the same double, and of those the nearest to it.
def text (value : Float) : String :=
  match Binary.ofFloat value with
  | .nan => "NaN"
  | .infinite negative => signText negative ++ "inf"
  | .finite negative mantissa exponent =>
      signText negative ++
        (if mantissa = 0 then "0" else (Rounding.ofBinary mantissa exponent).shortest.toText)

end LiveDoc.Decimal
