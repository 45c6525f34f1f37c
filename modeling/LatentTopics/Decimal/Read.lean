import LatentTopics.Decimal.Basic
import LatentTopics.Fault

/-! Reading numbers from text: natural numbers of a given width, and floating-point numbers with an
optional sign, point and exponent. -/
namespace LatentTopics.Decimal

def digit? (c : Char) : Option Nat :=
  if '0' ≤ c ∧ c ≤ '9' then some (c.toNat - '0'.toNat) else none

/-- Adds digits to a number that must stay at or below `limit`; the first offence counts. -/
def naturalFrom (limit : Nat) : List Char → Nat → Except NumeralFault Nat
  | [], number => .ok number
  | c :: rest, number =>
      match digit? c with
      | none => .error .invalidDigit
      | some digit =>
          let grown := number * 10 + digit
          if limit < grown then .error .tooLarge else naturalFrom limit rest grown

/-- A natural number of at most `limit`; a plus sign may precede its digits. -/
def natural (limit : Nat) (text : List Char) : Except NumeralFault Nat :=
  match text with
  | [] => .error .empty
  | ['+'] => .error .invalidDigit
  | '+' :: digits => naturalFrom limit digits 0
  | digits => naturalFrom limit digits 0

def natural32 : List Char → Except NumeralFault Nat :=
  natural 4294967295

def natural64 : List Char → Except NumeralFault Nat :=
  natural 18446744073709551615

def takeDigits : List Char → Nat → Nat → Nat × Nat × List Char
  | [], number, count => (number, count, [])
  | c :: rest, number, count =>
      match digit? c with
      | some digit => takeDigits rest (number * 10 + digit) (count + 1)
      | none => (number, count, c :: rest)

def takeSign : List Char → Bool × List Char
  | '+' :: rest => (false, rest)
  | '-' :: rest => (true, rest)
  | rest => (false, rest)

def exponent? : List Char → Option Int
  | [] => some 0
  | c :: rest =>
      if c = 'e' ∨ c = 'E' then
        let (negative, rest) := takeSign rest
        match takeDigits rest 0 0 with
        | (_, 0, _) => none
        | (number, _, []) => some (if negative then -(number : Int) else number)
        | _ => none
      else none

def unsigned? (text : List Char) : Option Decimal :=
  let (whole, wholeCount, rest) := takeDigits text 0 0
  match rest with
  | '.' :: rest =>
      let (number, fractionCount, rest) := takeDigits rest whole 0
      if wholeCount + fractionCount = 0 then none
      else (exponent? rest).map fun exponent => ⟨false, number, exponent - fractionCount⟩
  | rest =>
      if wholeCount = 0 then none
      else (exponent? rest).map fun exponent => ⟨false, whole, exponent⟩

/-- A floating-point number, `inf`, `infinity` or `nan` in any case, after an optional sign. -/
def float? (text : List Char) : Option Float :=
  let (negative, rest) := takeSign text
  let lower := String.ofList (rest.map Char.toLower)
  let magnitude :=
    if lower = "inf" ∨ lower = "infinity" then some (1.0 / 0.0)
    else if lower = "nan" then some (0.0 / 0.0)
    else (unsigned? rest).map Decimal.magnitude
  magnitude.map fun x => if negative then -x else x

end LatentTopics.Decimal
