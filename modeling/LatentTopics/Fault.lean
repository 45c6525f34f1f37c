/-! What can go wrong. A fault is a finding about counts, ids, settings or files, and a run that
meets one ends. A breach is a call outside a function's contract, from which nothing recovers. An
update that fails still hands back the state it left, because a caller may go on with that state. -/
namespace LatentTopics

inductive Site where
  | rowSum (word : Nat)
  | summaryCount (topic : Nat)
  deriving DecidableEq, Repr

inductive SettingFault where
  | noTopics
  | tooManyTopics (numTopics : Nat)
  | priorNotPositive (alpha beta : Float)
  | noRounds
  | smallLoadFactor (loadFactor : Nat)
  | noWorkers
  | counterCapacity (capacity : Nat)
  | zeroInterval
  | emptyCorpus
  | emptyVocabulary
  deriving DecidableEq, Repr

inductive NumeralFault where
  | empty
  | invalidDigit
  | tooLarge
  deriving DecidableEq, Repr

inductive FieldFault where
  | notAPair (field : String)
  | badWord (text : String) (why : NumeralFault)
  | badCount (text : String) (why : NumeralFault)
  deriving DecidableEq, Repr

inductive BlockFault where
  | negativeDocumentCount (count : Int)
  | negativeTokenCount (count : Int)
  | unexpectedEnd
  | negativeId (document : Nat) (word topic : Int)
  | unsorted (document token before after : Nat)
  | trailingBytes
  | longLength (length : Nat)
  deriving DecidableEq, Repr

inductive Breach where
  | indexOutOfRange
  | divisionByZero
  | emptyRange
  | invalidShape
  | subtraction
  | endlessRejection
  | oversize
  deriving DecidableEq, Repr

inductive Fault where
  | tableFull (topic capacity : Nat)
  | negativeCount (topic : Nat) (count : Int)
  | countMismatch (site : Site) (expected actual : Int)
  | wordOutOfRange (word numWords : Nat)
  | unknownWord (word slice : Nat)
  | topicOutOfRange (topic numTopics : Nat)
  | settings (cause : SettingFault)
  | line (number : Nat) (cause : FieldFault)
  | block (cause : BlockFault)
  | unreachableFile
  | malformedJson
  | breach (cause : Breach)
  deriving DecidableEq, Repr

/-- A step on a state that may fail; a failed step also returns a state. -/
abbrev Update (σ α : Type) := EStateM Fault σ α

end LatentTopics
