import FrontEnd.Number.Decimal

/-!
# Binary floating point in 64 bits

A double is kept as its 64 bits in the IEEE 754 format `binary64`, so that two doubles are the same
exactly when their bits are. A decimal fraction is rounded to the nearest double, a tie to the even
one. The quotient of two natural numbers is scaled by a power of two until its whole part has 53
bits, or to the grid of the smallest doubles where it is too small for that; what is left decides
the rounding, exactly, in natural numbers.
-/

namespace FrontEnd.Binary64

/-- The bits of positive infinity. -/
def infinity : Nat :=
  0x7ff <<< 52

/-- The bits of the quiet value that is no number. -/
def notANumber : Nat :=
  0xfff <<< 51

/-- The bit of the sign. -/
def signBit : Nat :=
  1 <<< 63

/-- A quotient to the nearest natural number, a tie to the even one. -/
def roundEven (num den : Nat) : Nat :=
  let whole := num / den
  let twice := 2 * (num % den)
  if den < twice || (twice == den && whole % 2 == 1) then whole + 1 else whole

/-- A quotient divided by a power of two, as a quotient again. -/
def scaled (num den : Nat) (power : Int) : Nat × Nat :=
  if 0 ≤ power then (num, den <<< power.toNat) else (num <<< (-power).toNat, den)

/-- The power of two at or below a positive quotient. -/
def floorLog (num den : Nat) : Int :=
  let guess : Int := (Nat.log2 num : Int) - Nat.log2 den
  let (n, d) := scaled num den guess
  if d ≤ n then guess else guess - 1

/-- **The bits of the double nearest to a positive quotient.** The last place is worth
`2 ^ place`, never less than `2 ^ (-1074)`. A significand that rounds up to the next power of two
carries into the exponent, which is what the format asks for. -/
def ofQuotient (num den : Nat) : Nat :=
  let place := max (floorLog num den - 52) (-1074)
  let (n, d) := scaled num den place
  let significand := roundEven n d
  if significand < 1 <<< 52 then significand
  else min infinity (((place + 1075).toNat <<< 52) + (significand - (1 <<< 52)))

/-- **The bits of the double nearest to a decimal fraction.** Fractions of at least `10 ^ 310` are
infinite and those below `10 ^ (-325)` are zero, whatever their digits. -/
def ofFraction (f : Fraction) : Nat :=
  let size : Int := (Nat.toDigits 10 f.digits).length + f.exponent
  if f.digits = 0 then 0
  else if 310 < size then infinity
  else if size < -325 then 0
  else if 0 ≤ f.exponent then ofQuotient (f.digits * Nat.pow 10 f.exponent.toNat) 1
  else ofQuotient f.digits (Nat.pow 10 (-f.exponent).toNat)

/-- The words for the values that no digits write. -/
def special? (text : List Char) : Option Nat :=
  match String.ofList (text.map Char.toLower) with
  | "inf" | "infinity" => some infinity
  | "nan" => some notANumber
  | _ => none

/-- A text without a sign, read as the bits of a double. -/
def unsigned? (text : List Char) : Option Nat :=
  special? text <|> (fraction? text).map ofFraction

/-- **The bits of the double that a text writes**: an optional sign, then a fraction or one of the
words `inf`, `infinity` and `nan` in any case. -/
def ofText? (text : String) : Option UInt64 :=
  match text.toList with
  | '-' :: rest => (unsigned? rest).map fun bits => .ofNat (signBit + bits)
  | '+' :: rest => (unsigned? rest).map .ofNat
  | rest => (unsigned? rest).map .ofNat

end FrontEnd.Binary64
