/-! JSON documents as they are written. A string keeps the bytes between its quotes and a number its
digits, so what a text or a number means is decided where it is used. -/
namespace LatentTopics.Json

structure Numeral where
  negative : Bool
  whole : Nat
  fraction : List Nat
  exponent : Option Int
  deriving DecidableEq, Repr, Inhabited

def Numeral.isInteger (number : Numeral) : Bool :=
  number.fraction.isEmpty && number.exponent.isNone

/-- The bytes between the quotes of a string. -/
abbrev Literal := List UInt8

inductive Value where
  | null
  | bool (value : Bool)
  | number (numeral : Numeral)
  | string (literal : Literal)
  | array (items : List Value)
  | object (fields : List (Literal × Value))
  deriving Repr, Inhabited

/-! Writing a JSON document on one line, or with a line for
every item and two spaces for each level. -/

def numeralText (number : Numeral) : String :=
  let digits := fun (xs : List Nat) => String.ofList (xs.map fun digit => Char.ofNat (48 + digit))
  (if number.negative then "-" else "") ++ toString number.whole ++
    (if number.fraction.isEmpty then "" else "." ++ digits number.fraction) ++
    (match number.exponent with
      | none => ""
      | some exponent => "e" ++ toString exponent)

def quoted (literal : Literal) (out : ByteArray) : ByteArray :=
  (literal.foldl ByteArray.push (out.push 34)).push 34

def lineBreak (pretty : Bool) (level : Nat) (out : ByteArray) : ByteArray :=
  if pretty then (List.replicate (2 * level) 32).foldl ByteArray.push (out.push 10) else out

def colon (pretty : Bool) (out : ByteArray) : ByteArray :=
  if pretty then (out.push 58).push 32 else out.push 58

mutual

def writeValue (pretty : Bool) (level : Nat) : Value → ByteArray → ByteArray
  | .null, out => out ++ "null".toUTF8
  | .bool true, out => out ++ "true".toUTF8
  | .bool false, out => out ++ "false".toUTF8
  | .number numeral, out => out ++ (numeralText numeral).toUTF8
  | .string literal, out => quoted literal out
  | .array [], out => (out.push 91).push 93
  | .array (item :: items), out =>
      let out := writeValue pretty (level + 1) item (lineBreak pretty (level + 1) (out.push 91))
      (lineBreak pretty level (writeItems pretty (level + 1) items out)).push 93
  | .object [], out => (out.push 123).push 125
  | .object ((key, value) :: fields), out =>
      let out := quoted key (lineBreak pretty (level + 1) (out.push 123))
      let out := writeValue pretty (level + 1) value (colon pretty out)
      (lineBreak pretty level (writeFields pretty (level + 1) fields out)).push 125

def writeItems (pretty : Bool) (level : Nat) : List Value → ByteArray → ByteArray
  | [], out => out
  | item :: items, out =>
      writeItems pretty level items
        (writeValue pretty level item (lineBreak pretty level (out.push 44)))

def writeFields (pretty : Bool) (level : Nat) : List (Literal × Value) → ByteArray → ByteArray
  | [], out => out
  | (key, value) :: fields, out =>
      let out := quoted key (lineBreak pretty level (out.push 44))
      writeFields pretty level fields (writeValue pretty level value (colon pretty out))

end

def Value.compact (value : Value) : ByteArray :=
  writeValue false 0 value ByteArray.empty

def Value.pretty (value : Value) : ByteArray :=
  writeValue true 0 value ByteArray.empty

end LatentTopics.Json
