import LatentTopics.Decimal.Basic

/-! How doubles are written, and the shortest decimal numbers that are written for them. -/
namespace LatentTopics.Decimal

/-! The shortest decimal number that reads back as a given double. The doubles that round to a value
fill an interval around it, ends included when its mantissa is even. For one digit, two digits, and
so on, the two neighbours of the value on the grid of that many digits are tried; the first grid
with a neighbour in the interval wins, and of two such neighbours the nearer one. In an exact tie
the writer of the text decides. -/

inductive Tie where
  | up
  | toEven
  deriving DecidableEq, Repr

def Tie.takesUpper : Tie → Nat → Bool
  | .up, _ => true
  | .toEven, low => low % 2 = 1

/-- The ends of the interval, in quarters of the last binary place. -/
def intervalEnds (value : Dyadic) : Nat × Nat :=
  let below :=
    if value.mantissa = Dyadic.hiddenBit ∧ Dyadic.leastExponent < value.exponent then 1 else 2
  (4 * value.mantissa - below, 4 * value.mantissa + 2)

def readsBack (value : Dyadic) (candidate : Nat) (exponent : Int) : Bool :=
  let (low, high) := intervalEnds value
  let (up, down) := Dyadic.decimalScale exponent
  let (wide, narrow) := Dyadic.binaryScale (value.exponent - 2)
  let point := candidate * up * narrow
  let lower := low * wide * down
  let upper := high * wide * down
  if value.mantissa % 2 = 0 then lower ≤ point && point ≤ upper else lower < point && point < upper

def onGrid (tie : Tie) (value : Dyadic) (exponent : Int) : Option Nat :=
  let (numerator, denominator) := value.inUnits exponent
  let low := numerator / denominator
  let rest := 2 * (numerator % denominator)
  let takesUpper := denominator < rest || (denominator = rest && tie.takesUpper low)
  match readsBack value low exponent, readsBack value (low + 1) exponent with
  | true, true => some (if takesUpper then low + 1 else low)
  | true, false => some low
  | false, true => some (low + 1)
  | false, false => none

def shortestFrom (tie : Tie) (value : Dyadic) : Nat → Int → Nat × Int
  | 0, exponent =>
      (Dyadic.roundHalfEven (value.inUnits exponent).1 (value.inUnits exponent).2, exponent)
  | grids + 1, exponent =>
      match onGrid tie value exponent with
      | some digits => dropZeros 20 digits exponent
      | none => shortestFrom tie value grids (exponent - 1)

def shortest (tie : Tie) (value : Dyadic) : Nat × Int :=
  if value.mantissa = 0 then (0, 0) else shortestFrom tie value 17 value.leadingExponent

/-! How doubles are written: with the fewest digits that read back, always positional or with an
exponent outside a middle range, or with a given number of places. Rounding to places is exact, a
half goes to the even neighbour. -/

def zeros (count : Nat) : String :=
  String.ofList (List.replicate count '0')

def withPoint (digits places : Nat) : String :=
  if places = 0 then digitText digits
  else
    let text := digitText digits
    let padded := zeros (places + 1 - text.length) ++ text
    let whole := padded.length - places
    String.ofList (padded.toList.take whole) ++ "." ++ String.ofList (padded.toList.drop whole)

def signed (x : Float) (text : String) : String :=
  if Dyadic.isNegative x then "-" ++ text else text

def special (x : Float) : String :=
  if x.isNaN then "NaN" else signed x "inf"

/-- The shortest digits without an exponent; a tie goes up. -/
def positional (x : Float) : String :=
  match Dyadic.ofFloat? x with
  | none => special x
  | some value =>
      match shortest .up value with
      | (digits, .ofNat exponent) =>
          signed x (digitText digits ++ if digits = 0 then "" else zeros exponent)
      | (digits, .negSucc exponent) => signed x (withPoint digits (exponent + 1))

def fixed (places : Nat) (x : Float) : String :=
  match Dyadic.ofFloat? x with
  | none => special x
  | some value =>
      let (numerator, denominator) := value.inUnits (-places)
      signed x (withPoint (Dyadic.roundHalfEven numerator denominator) places)

/-- One digit, a point, `places` digits and an exponent without sign or padding for plus. -/
def scientific (places : Nat) (x : Float) : String :=
  match Dyadic.ofFloat? x with
  | none => special x
  | some value =>
      if value.mantissa = 0 then signed x (withPoint 0 places ++ "e0")
      else
        let leading := value.leadingExponent
        let (numerator, denominator) := value.inUnits (leading - places)
        let digits := Dyadic.roundHalfEven numerator denominator
        if digits = Nat.pow 10 (places + 1) then
          signed x (withPoint (Nat.pow 10 places) places ++ "e" ++ toString (leading + 1))
        else signed x (withPoint digits places ++ "e" ++ toString leading)

end LatentTopics.Decimal
