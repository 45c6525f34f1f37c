import LatentTopics.Json.Value

/-! The text that a string literal stands for, and the literal of a text. -/
namespace LatentTopics.Json.Literal

def hexValue? (byte : UInt8) : Option Nat :=
  let code := byte.toNat
  if 48 ≤ code ∧ code ≤ 57 then some (code - 48)
  else if 97 ≤ code ∧ code ≤ 102 then some (code - 87)
  else if 65 ≤ code ∧ code ≤ 70 then some (code - 55)
  else none

def unit? (a b c d : UInt8) : Option Nat := do
  let a ← hexValue? a
  let b ← hexValue? b
  let c ← hexValue? c
  let d ← hexValue? d
  return ((a * 16 + b) * 16 + c) * 16 + d

def reversedBytes (code : Nat) : List UInt8 :=
  (String.singleton (Char.ofNat code)).toUTF8.toList.reverse

def escape? (letter : UInt8) : Option UInt8 :=
  match letter.toNat with
  | 34 => some 34
  | 92 => some 92
  | 47 => some 47
  | 98 => some 8
  | 102 => some 12
  | 110 => some 10
  | 114 => some 13
  | 116 => some 9
  | _ => none

/-- Bytes in reverse with escapes resolved; two units of a
surrogate pair make one code point and a unit alone makes none. -/
def decodeFrom : Literal → List UInt8 → Option (List UInt8)
  | [], decoded => some decoded
  | 92 :: 117 :: a :: b :: c :: d :: rest, decoded =>
      match unit? a b c d with
      | none => none
      | some unit =>
          if 0xDC00 ≤ unit ∧ unit ≤ 0xDFFF then none
          else if 0xD800 ≤ unit ∧ unit ≤ 0xDBFF then
            match rest with
            | 92 :: 117 :: a :: b :: c :: d :: rest =>
                match unit? a b c d with
                | none => none
                | some low =>
                    if 0xDC00 ≤ low ∧ low ≤ 0xDFFF then
                      let code := 0x10000 + (unit - 0xD800) * 0x400 + (low - 0xDC00)
                      decodeFrom rest (reversedBytes code ++ decoded)
                    else none
            | _ => none
          else decodeFrom rest (reversedBytes unit ++ decoded)
  | [92], _ => none
  | 92 :: letter :: rest, decoded =>
      match escape? letter with
      | some byte => decodeFrom rest (byte :: decoded)
      | none => none
  | byte :: rest, decoded => decodeFrom rest (byte :: decoded)

def decode? (literal : Literal) : Option String :=
  match decodeFrom literal [] with
  | some decoded => String.fromUTF8? ⟨decoded.reverse.toArray⟩
  | none => none

def hexDigit (digit : Nat) : UInt8 :=
  if digit < 10 then UInt8.ofNat (48 + digit) else UInt8.ofNat (87 + digit)

def encodeByte (byte : UInt8) : Literal :=
  match byte.toNat with
  | 34 => [92, 34]
  | 92 => [92, 92]
  | 8 => [92, 98]
  | 12 => [92, 102]
  | 10 => [92, 110]
  | 13 => [92, 114]
  | 9 => [92, 116]
  | code =>
      if code < 32 then [92, 117, 48, 48, hexDigit (code / 16), hexDigit (code % 16)] else [byte]

def ofString (text : String) : Literal :=
  text.toUTF8.toList.flatMap encodeByte

end LatentTopics.Json.Literal
