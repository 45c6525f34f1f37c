import LatentTopics.Json.Value

/-! Reading a JSON document. Strings may hold any bytes but controls, with escapes of the right
form; numbers may be of any size. -/
namespace LatentTopics.Json

def skipBlanks : List UInt8 → List UInt8
  | [] => []
  | byte :: rest =>
      if byte = 32 ∨ byte = 10 ∨ byte = 9 ∨ byte = 13 then skipBlanks rest else byte :: rest

def digitOf? (byte : UInt8) : Option Nat :=
  if 48 ≤ byte ∧ byte ≤ 57 then some (byte.toNat - 48) else none

def isHex (byte : UInt8) : Bool :=
  (48 ≤ byte && byte ≤ 57) || (97 ≤ byte && byte ≤ 102) || (65 ≤ byte && byte ≤ 70)

def isEscapeLetter (byte : UInt8) : Bool :=
  [34, 92, 47, 98, 102, 110, 114, 116].contains byte

def literalFrom : List UInt8 → List UInt8 → Option (Literal × List UInt8)
  | [], _ => none
  | 92 :: 117 :: a :: b :: c :: d :: rest, taken =>
      if isHex a && isHex b && isHex c && isHex d then
        literalFrom rest (d :: c :: b :: a :: 117 :: 92 :: taken)
      else none
  | 92 :: letter :: rest, taken =>
      if isEscapeLetter letter then literalFrom rest (letter :: 92 :: taken) else none
  | byte :: rest, taken =>
      if byte = 34 then some (taken.reverse, rest)
      else if byte < 32 then none
      else literalFrom rest (byte :: taken)

def digitsFrom : List UInt8 → List Nat → List Nat × List UInt8
  | [], taken => (taken, [])
  | byte :: rest, taken =>
      match digitOf? byte with
      | some digit => digitsFrom rest (digit :: taken)
      | none => (taken, byte :: rest)

def numberOf (digits : List Nat) : Nat :=
  digits.foldl (fun number digit => number * 10 + digit) 0

def whole? (bytes : List UInt8) : Option (Nat × List UInt8) :=
  match digitsFrom bytes [] with
  | ([], _) => none
  | (digits, rest) =>
      if digits.length ≠ 1 ∧
        digits.getLast? = some 0 then none else some (numberOf digits.reverse, rest)

def fraction? : List UInt8 → Option (List Nat × List UInt8)
  | 46 :: rest =>
      match digitsFrom rest [] with
      | ([], _) => none
      | (digits, rest) => some (digits.reverse, rest)
  | rest => some ([], rest)

def exponentDigits? (negative : Bool) (bytes : List UInt8) : Option (Option Int × List UInt8) :=
  match digitsFrom bytes [] with
  | ([], _) => none
  | (digits, rest) =>
      let size : Int := numberOf digits.reverse
      some (some (if negative then -size else size), rest)

def exponentPart? : List UInt8 → Option (Option Int × List UInt8)
  | [] => some (none, [])
  | byte :: rest =>
      if byte = 101 ∨ byte = 69 then
        match rest with
        | 43 :: rest => exponentDigits? false rest
        | 45 :: rest => exponentDigits? true rest
        | rest => exponentDigits? false rest
      else some (none, byte :: rest)

def unsignedNumeral? (negative : Bool) (bytes : List UInt8) : Option (Numeral × List UInt8) := do
  let (whole, rest) ← whole? bytes
  let (fraction, rest) ← fraction? rest
  let (exponent, rest) ← exponentPart? rest
  return (⟨negative, whole, fraction, exponent⟩, rest)

def numeral? : List UInt8 → Option (Numeral × List UInt8)
  | 45 :: rest => unsignedNumeral? true rest
  | bytes => unsignedNumeral? false bytes

mutual

/-- Reads one value; each nested value takes one unit of
`fuel`, and the number of bytes is enough. -/
def valueFrom : Nat → List UInt8 → Option (Value × List UInt8)
  | 0, _ => none
  | fuel + 1, bytes =>
      match skipBlanks bytes with
      | 110 :: 117 :: 108 :: 108 :: rest => some (.null, rest)
      | 116 :: 114 :: 117 :: 101 :: rest => some (.bool true, rest)
      | 102 :: 97 :: 108 :: 115 :: 101 :: rest => some (.bool false, rest)
      | 34 :: rest => (literalFrom rest []).map fun (literal, rest) => (.string literal, rest)
      | 91 :: rest =>
          match skipBlanks rest with
          | 93 :: rest => some (.array [], rest)
          | rest => itemsFrom fuel rest []
      | 123 :: rest =>
          match skipBlanks rest with
          | 125 :: rest => some (.object [], rest)
          | rest => fieldsFrom fuel rest []
      | rest => (numeral? rest).map fun (numeral, rest) => (.number numeral, rest)

def itemsFrom : Nat → List UInt8 → List Value → Option (Value × List UInt8)
  | 0, _, _ => none
  | fuel + 1, bytes, items =>
      match valueFrom fuel bytes with
      | none => none
      | some (item, rest) =>
          match skipBlanks rest with
          | 44 :: rest => itemsFrom fuel rest (item :: items)
          | 93 :: rest => some (.array (item :: items).reverse, rest)
          | _ => none

def fieldsFrom : Nat → List UInt8 → List (Literal × Value) → Option (Value × List UInt8)
  | 0, _, _ => none
  | fuel + 1, bytes, fields =>
      match skipBlanks bytes with
      | 34 :: rest =>
          match literalFrom rest [] with
          | none => none
          | some (key, rest) =>
              match skipBlanks rest with
              | 58 :: rest =>
                  match valueFrom fuel rest with
                  | none => none
                  | some (value, rest) =>
                      match skipBlanks rest with
                      | 44 :: rest => fieldsFrom fuel rest ((key, value) :: fields)
                      | 125 :: rest => some (.object ((key, value) :: fields).reverse, rest)
                      | _ => none
              | _ => none
      | _ => none

end

def read? (bytes : List UInt8) : Option Value :=
  match valueFrom (bytes.length + 1) bytes with
  | some (value, rest) => if (skipBlanks rest).isEmpty then some value else none
  | none => none

end LatentTopics.Json
