/-! The lines of a file, and the fields of a line. -/
namespace LatentTopics.Text

/-! Lines of a file. A line ends at a line feed, and one carriage return before it belongs to the
end; the last line needs no end. Bytes that encode no text make their line unreadable. -/

def linesFrom : List UInt8 → List UInt8 → List (List UInt8)
  | [], [] => []
  | [], line => [line.reverse]
  | byte :: rest, line =>
      if byte = 10 then
        match line with
        | 13 :: line => line.reverse :: linesFrom rest []
        | line => line.reverse :: linesFrom rest []
      else linesFrom rest (byte :: line)

def lines (bytes : List UInt8) : List (List UInt8) :=
  linesFrom bytes []

def decode? (bytes : List UInt8) : Option String :=
  String.fromUTF8? ⟨bytes.toArray⟩

/-! Blanks, the characters with the property White_Space, and the fields of a line between them. -/

def isBlank (c : Char) : Bool :=
  let code := c.toNat
  (0x9 ≤ code && code ≤ 0xD) || code = 0x20 || code = 0x85 || code = 0xA0 || code = 0x1680 ||
    (0x2000 ≤ code && code ≤ 0x200A) || code = 0x2028 || code = 0x2029 || code = 0x202F ||
    code = 0x205F || code = 0x3000

def fieldsFrom : List Char → List Char → List (List Char)
  | [], [] => []
  | [], field => [field.reverse]
  | c :: rest, field =>
      if isBlank c then
        match field with
        | [] => fieldsFrom rest []
        | _ => field.reverse :: fieldsFrom rest []
      else fieldsFrom rest (c :: field)

/-- The longest runs without blanks. -/
def fields (line : List Char) : List (List Char) :=
  fieldsFrom line []

def splitAtFrom (separator : Char) : List Char → List Char → List (List Char)
  | [], part => [part.reverse]
  | c :: rest, part =>
      if c = separator then part.reverse :: splitAtFrom separator rest []
      else splitAtFrom separator rest (c :: part)

def splitAt (separator : Char) (text : List Char) : List (List Char) :=
  splitAtFrom separator text []

end LatentTopics.Text
