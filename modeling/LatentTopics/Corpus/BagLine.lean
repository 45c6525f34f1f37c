import LatentTopics.Corpus.Bag
import LatentTopics.Decimal.Read
import LatentTopics.Text.Lines

/-! Corpus lines, one document each: a label, which is passed over, and fields `word:count` between
blanks. Counts of one word add up; a count of zero leaves its word out. -/
namespace LatentTopics.BagLine

def field (text : List Char) : Except FieldFault (Nat × Nat) :=
  match Text.splitAt ':' text with
  | [word, count] =>
      match Decimal.natural32 word with
      | .error why => .error (.badWord (String.ofList word) why)
      | .ok number =>
          match Decimal.natural64 count with
          | .error why => .error (.badCount (String.ofList count) why)
          | .ok amount => .ok (number, amount)
  | _ => .error (.notAPair (String.ofList text))

def addFields : List (List Char) → Bag → Except FieldFault Bag
  | [], bag => .ok bag
  | text :: fields, bag =>
      match field text with
      | .error cause => .error cause
      | .ok (word, count) => addFields fields (if count = 0 then bag else bag.add word count)

def parse (line : List Char) (number : Nat) : Except Fault Bag :=
  match addFields (Text.fields line).tail [] with
  | .ok bag => .ok bag
  | .error cause => .error (.line number cause)

/-- The documents of a corpus file. Empty ones are left out. -/
def parseLines : List (List UInt8) → Nat → List Bag → Except Fault (List Bag)
  | [], _, bags => .ok bags.reverse
  | line :: lines, number, bags =>
      match Text.decode? line with
      | none => .error .unreachableFile
      | some text =>
          match parse text.toList number with
          | .error fault => .error fault
          | .ok bag => parseLines lines (number + 1) (if bag.isEmpty then bags else bag :: bags)

def parseFile (bytes : List UInt8) : Except Fault (List Bag) :=
  parseLines (Text.lines bytes) 1 []

def parseVocabulary (bytes : List UInt8) : Except Fault (List String) :=
  match (Text.lines bytes).mapM Text.decode? with
  | some words => .ok words
  | none => .error .unreachableFile

end LatentTopics.BagLine
