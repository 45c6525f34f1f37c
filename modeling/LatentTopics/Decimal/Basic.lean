/-! Decimal numbers `± digits · 10^exponent`, read to the nearest double. -/
namespace LatentTopics

structure Decimal where
  negative : Bool
  digits : Nat
  exponent : Int
  deriving DecidableEq, Repr, Inhabited

namespace Decimal

def digitCount (number : Nat) : Nat :=
  (Nat.toDigits 10 number).length

def digitText (number : Nat) : String :=
  String.ofList (Nat.toDigits 10 number)

/-- The nearest double. Far outside the range of doubles the
result is zero or infinity without computing the power. -/
def magnitude (number : Decimal) : Float :=
  if number.digits = 0 then 0.0
  else
    let leading := number.exponent + digitCount number.digits
    if leading < -400 then 0.0
    else if 400 < leading then 1.0 / 0.0
    else
      match number.exponent with
      | .ofNat exponent => Float.ofScientific number.digits false exponent
      | .negSucc exponent => Float.ofScientific number.digits true (exponent + 1)

def toFloat (number : Decimal) : Float :=
  if number.negative then -number.magnitude else number.magnitude

def dropZeros : Nat → Nat → Int → Nat × Int
  | 0, digits, exponent => (digits, exponent)
  | steps + 1, digits, exponent =>
      if digits ≠ 0 ∧ digits % 10 = 0 then dropZeros steps (digits / 10) (exponent + 1)
      else (digits, exponent)

end Decimal

/-! The exact value of a double, `mantissa · 2^exponent`,
and its comparison with decimal numbers. -/

structure Dyadic where
  mantissa : Nat
  exponent : Int
  deriving DecidableEq, Repr, Inhabited

namespace Dyadic

def leastExponent : Int := -1074

/-- The leading bit of the mantissa of a normal double, which its word leaves out. -/
def hiddenBit : Nat := 1 <<< 52

def ofFloat? (x : Float) : Option Dyadic :=
  let bits := x.toBits.toNat
  let fraction := bits % hiddenBit
  let scale := (bits >>> 52) % 2048
  if scale = 2047 then none
  else if scale = 0 then some ⟨fraction, leastExponent⟩
  else some ⟨hiddenBit + fraction, (scale : Int) - 1075⟩

def isNegative (x : Float) : Bool :=
  1 <<< 63 ≤ x.toBits.toNat

def binaryScale (exponent : Int) : Nat × Nat :=
  (1 <<< exponent.toNat, 1 <<< (-exponent).toNat)

def decimalScale (exponent : Int) : Nat × Nat :=
  (Nat.pow 10 exponent.toNat, Nat.pow 10 (-exponent).toNat)

def fraction (value : Dyadic) : Nat × Nat :=
  let (up, down) := binaryScale value.exponent
  (value.mantissa * up, down)

def inUnits (value : Dyadic) (exponent : Int) : Nat × Nat :=
  let (numerator, denominator) := value.fraction
  let (up, down) := decimalScale exponent
  (numerator * down, denominator * up)

def roundHalfEven (numerator denominator : Nat) : Nat :=
  let quotient := numerator / denominator
  let rest := 2 * (numerator % denominator)
  if rest < denominator then quotient
  else if denominator < rest then quotient + 1
  else quotient + quotient % 2

def leadingExponent (value : Dyadic) : Int :=
  let (numerator, denominator) := value.fraction
  if denominator ≤ numerator then Decimal.digitCount (numerator / denominator) - 1
  else
    let guess := Decimal.digitCount (denominator / numerator)
    if denominator ≤ numerator * Nat.pow 10 (guess - 1) then 1 - guess else -guess

end Dyadic

end LatentTopics
