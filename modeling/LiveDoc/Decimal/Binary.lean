namespace LiveDoc.Decimal

-- What a double stands for. A finite one is `mantissa * 2 ^ exponent`, negated when `negative`.
inductive Binary where
  | finite (negative : Bool) (mantissa : Nat) (exponent : Int)
  | infinite (negative : Bool)
  | nan
  deriving DecidableEq, Repr

-- The leading bit of a normal double's mantissa, which is not stored.
def hiddenBit : Nat := Nat.pow 2 52

def signPlace : Nat := Nat.pow 2 63

def Binary.ofBits (bits : Nat) : Binary :=
  let negative := bits / signPlace % 2 == 1
  let field : Nat := bits / hiddenBit % 2048
  let fraction := bits % hiddenBit
  if field = 2047 then
    if fraction = 0 then .infinite negative else .nan
  else if field = 0 then .finite negative fraction (-1074)
  else .finite negative (hiddenBit + fraction) (field - 1075)

def Binary.ofFloat (value : Float) : Binary := .ofBits value.toBits.toNat

def signBit (negative : Bool) : Nat := if negative then signPlace else 0

def infinityBits : Nat := 2047 * hiddenBit

-- A quotient rounded to the nearest integer, a half going to the even one.
def roundHalfEven (num den : Nat) : Nat :=
  let low := num / den
  let rest := 2 * (num % den)
  if rest < den then low
  else if den < rest then low + 1
  else low + low % 2

def scaled (value : Nat) (power : Int) : Nat := value * Nat.pow 2 power.toNat

-- The double nearest to a positive ratio. The mantissa gets 53 bits, fewer below the normal
-- range. Rounding up to a 54th bit carries into the exponent field, which is what is wanted.
def nearestBits (num den : Nat) : Nat :=
  if num = 0 then 0
  else
    let guess : Int := (num.log2 : Int) - den.log2 - 52
    let tooLarge := scaled num (-guess) < hiddenBit * scaled den guess
    let exponent := max (if tooLarge then guess - 1 else guess) (-1074)
    let mantissa := roundHalfEven (scaled num (-exponent)) (scaled den exponent)
    if mantissa < hiddenBit then mantissa
    else
      let bits := (exponent + 1075).toNat * hiddenBit + (mantissa - hiddenBit)
      min bits infinityBits

def nearest (negative : Bool) (num den : Nat) : Float :=
  Float.ofBits (UInt64.ofNat (signBit negative + nearestBits num den))

def infinity (negative : Bool) : Float :=
  Float.ofBits (UInt64.ofNat (signBit negative + infinityBits))

def notANumber : Float := Float.ofBits (UInt64.ofNat (infinityBits + hiddenBit / 2))

-- The remainder of truncating division. It is exact and keeps the sign of the dividend.
def remainder (a b : Float) : Float :=
  match Binary.ofFloat a, Binary.ofFloat b with
  | .finite negative m p, .finite _ n q =>
      if n = 0 then notANumber
      else
        let low := min p q
        let rest := scaled m (p - low) % scaled n (q - low)
        nearest negative (scaled rest low) (scaled 1 (-low))
  | .finite _ _ _, .infinite _ => a
  | _, _ => notANumber

end LiveDoc.Decimal
