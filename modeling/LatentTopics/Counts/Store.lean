import LatentTopics.Counts.Slice

/-! The model of a run: the slices of the vocabulary with
their counts, and the totals of the topics. -/
namespace LatentTopics

structure Store where
  slices : Array Slice
  summary : Summary
  deriving DecidableEq, Repr, Inhabited

namespace Store

def ofVocabulary (vocab : Vocabulary) : Store :=
  ⟨vocab.slices.map (Slice.ofVocabulary vocab), Summary.zero vocab.numTopics⟩

/-- The slice that holds a word: the first one whose last
word is not before it, if it has the word. -/
def sliceOf? (store : Store) (word : Nat) : Option Nat :=
  let id := Search.split (fun i => (store.slices.getD i default).words.back?.getD 0 < word)
    store.slices.size
  match store.slices[id]? with
  | some slice => if slice.contains word then some id else none
  | none => none

def count (store : Store) (word topic : Nat) : Int :=
  match store.sliceOf? word with
  | some id => (store.slices.getD id default).count word topic
  | none => 0

def updateSlice {α : Type} (id : Nat) (step : Update Slice α) : Update Store α
  | ⟨slices, summary⟩ =>
      if inside : id < slices.size then
        let (slice, slices) := slices.swapAt id default inside
        match step slice with
        | .ok result slice => .ok result ⟨slices.setIfInBounds id slice, summary⟩
        | .error fault slice => .error fault ⟨slices.setIfInBounds id slice, summary⟩
      else .error (.breach .indexOutOfRange) ⟨slices, summary⟩

def updateSummary {α : Type} (step : Update Summary α) : Update Store α
  | ⟨slices, summary⟩ =>
      match step summary with
      | .ok result summary => .ok result ⟨slices, summary⟩
      | .error fault summary => .error fault ⟨slices, summary⟩

def addToken (numWords : Nat) (token : Token) : Update Store Unit := fun store =>
  match store.sliceOf? token.word with
  | none => .error (.wordOutOfRange token.word numWords) store
  | some id => (do
      updateSlice id (Slice.add token.word token.topic 1)
      updateSummary (Summary.add token.topic 1) : Update Store Unit) store

def addTokens (numWords : Nat) : List Token → Update Store Unit
  | [] => pure ()
  | token :: tokens => do
      addToken numWords token
      addTokens numWords tokens

/-- The counts of documents; a word that the vocabulary lacks is a fault. -/
def ofDocuments (vocab : Vocabulary) (docs : List Document) : Except Fault Store :=
  let tokens := docs.flatMap fun doc => doc.tokens.toList
  match addTokens vocab.words.size tokens (ofVocabulary vocab) with
  | .ok _ store => .ok store
  | .error fault _ => .error fault

end Store

/-! Checking that a store is consistent: no count is negative, every row sums to the frequency of
its word, and every total is the sum of its topic over all rows. Rows are checked in word order,
totals after them in topic order. -/
namespace Store

/-- Adds the counts of a row to its sum and to the column sums. A row may hold a topic that the
totals do not have; there is no column for it. -/
def checkPairs : List (Nat × Int) → Int → Array Int → Except Fault (Int × Array Int)
  | [], total, columns => .ok (total, columns)
  | (topic, count) :: pairs, total, columns =>
      if count < 0 then .error (.negativeCount topic count)
      else if topic < columns.size then
        checkPairs pairs (total + count) (columns.modify topic (· + count))
      else .error (.breach .indexOutOfRange)

def checkRows (vocab : Vocabulary) : List (Nat × Row) → Array Int → Except Fault (Array Int)
  | [], columns => .ok columns
  | (word, row) :: rows, columns =>
      match checkPairs row.pairs 0 columns with
      | .error fault => .error fault
      | .ok (total, columns) =>
          let frequency : Int := vocab.frequency word
          if total ≠ frequency then .error (.countMismatch (.rowSum word) frequency total)
          else checkRows vocab rows columns

def checkTotals : List (Int × Int) → Nat → Except Fault Unit
  | [], _ => .ok ()
  | (expected, actual) :: totals, topic =>
      if expected ≠ actual then .error (.countMismatch (.summaryCount topic) expected actual)
      else checkTotals totals (topic + 1)

def check (vocab : Vocabulary) (store : Store) : Except Fault Unit :=
  let rows := store.slices.toList.flatMap Slice.rows
  match checkRows vocab rows (Array.replicate store.summary.numTopics 0) with
  | .error fault => .error fault
  | .ok columns => checkTotals (columns.zip store.summary.counts).toList 0

end Store

end LatentTopics
