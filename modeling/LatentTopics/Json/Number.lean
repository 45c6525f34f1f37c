import LatentTopics.Decimal.Layout
import LatentTopics.Json.Value
import LatentTopics.Number

/-! What written numbers mean, and how numbers are written. A float is read in two steps: as many
digits as fit into 64 bits are taken as an integer, and that is scaled by a power of ten. It is
written with the fewest digits that read back, with an exponent from 10^16 on and below 10^-5. -/
namespace LatentTopics.Json.Numeral

def largest : Nat := 18446744073709551615

/-- A natural number of 64 bits. A minus sign is none, even before zero. -/
def natural? (number : Numeral) : Option Nat :=
  if number.isInteger && !number.negative && number.whole ≤ largest then some number.whole else none

def fit : Nat → Nat → Int → Nat × Int
  | 0, significand, exponent => (significand, exponent)
  | steps + 1, significand, exponent =>
      if largest < significand then fit steps (significand / 10) (exponent + 1)
      else (significand, exponent)

def extend : List Nat → Nat → Int → Nat × Int
  | [], significand, exponent => (significand, exponent)
  | digit :: digits, significand, exponent =>
      let grown := significand * 10 + digit
      if largest < grown then (significand, exponent) else extend digits grown (exponent - 1)

def powerOfTen (exponent : Nat) : Float :=
  Float.ofScientific 1 false exponent

/-- Scales by a power of ten, in steps of 308 when it is small. None above the range of doubles. -/
def scale : Nat → Float → Int → Option Float
  | 0, x, _ => some x
  | steps + 1, x, exponent =>
      if 308 < exponent then if x == 0.0 then some x else none
      else if exponent < -308 then
        if x == 0.0 then some x else scale steps (x / powerOfTen 308) (exponent + 308)
      else if 0 ≤ exponent then
        let scaled := x * powerOfTen exponent.toNat
        if scaled.isInf then none else some scaled
      else some (x / powerOfTen (-exponent).toNat)

def float? (number : Numeral) : Option Float :=
  let (significand, exponent) := fit (Decimal.digitCount number.whole) number.whole 0
  let (significand, exponent) := extend number.fraction significand exponent
  let magnitude := scale 8 (floatOfNat significand) (exponent + number.exponent.getD 0)
  magnitude.map fun x => if number.negative then -x else x

def nearest (number : Numeral) : Float :=
  let digits := number.fraction.foldl (fun digits digit => digits * 10 + digit) number.whole
  Decimal.toFloat ⟨number.negative, digits, number.exponent.getD 0 - number.fraction.length⟩

def ofInt (number : Int) : Numeral :=
  ⟨number < 0, number.natAbs, [], none⟩

def paddedDigits : Nat → Nat → List Nat
  | 0, _ => []
  | count + 1, number => number / Nat.pow 10 count % 10 :: paddedDigits count number

def ofDigits (negative : Bool) (digits : Nat) (exponent : Int) : Numeral :=
  let count := Decimal.digitCount digits
  let point := exponent + count
  if 0 ≤ exponent ∧ point ≤ 16 then ⟨negative, digits * Nat.pow 10 exponent.toNat, [0], none⟩
  else if 0 < point ∧ point ≤ 16 then
    let places := (-exponent).toNat
    ⟨negative, digits / Nat.pow 10 places, paddedDigits places digits, none⟩
  else if -5 < point ∧ point ≤ 0 then ⟨negative, 0, paddedDigits (-exponent).toNat digits, none⟩
  else ⟨negative, digits / Nat.pow 10 (count - 1), paddedDigits (count - 1) digits,
    some (point - 1)⟩

end LatentTopics.Json.Numeral

namespace LatentTopics.Json.Value

def ofInt (number : Int) : Value :=
  .number (Numeral.ofInt number)

def ofNat (number : Nat) : Value :=
  ofInt number

/-- A double that is no finite number is written as null. A
tie between digits goes to the even one. -/
def ofFloat (x : Float) : Value :=
  match Dyadic.ofFloat? x with
  | none => .null
  | some value =>
      let (digits, exponent) := Decimal.shortest .toEven value
      .number (Numeral.ofDigits (Dyadic.isNegative x) digits exponent)

end LatentTopics.Json.Value
