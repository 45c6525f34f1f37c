import LatentTopics.Corpus.Bag
import LatentTopics.Corpus.Document
import LatentTopics.Number
import LatentTopics.Row.Arena

/-! The vocabulary of a corpus, and its cut into slices. -/
namespace LatentTopics

/-! Cutting a sequence of words into consecutive runs under two budgets. A run is closed as soon as
the next word would exceed a budget; a word larger than a budget has a run of its own. -/

/-- Memory cells, those of count rows and those of alias rows. -/
structure Cells where
  rows : Nat
  aliases : Nat
  deriving DecidableEq, Repr, Inhabited

instance : Add Cells where
  add a b := ⟨a.rows + b.rows, a.aliases + b.aliases⟩

instance : Zero Cells := ⟨⟨0, 0⟩⟩

namespace Cells

/-- A limit of zero is no limit. -/
def within (limit cells : Nat) : Bool :=
  limit = 0 || cells ≤ limit

def fits (limits cells : Cells) : Bool :=
  within limits.rows cells.rows && within limits.aliases cells.aliases

end Cells

namespace Slicing

/-- The runs from an open one on, as first index and index after the last. The open run begins at
`start`, ends before `index` and holds `used` cells. -/
def runsFrom (limits : Cells) : List Cells → Nat → Nat → Cells → List (Nat × Nat)
  | [], start, index, _ => if start < index then [(start, index)] else []
  | cost :: costs, start, index, used =>
      if !limits.fits (used + cost) && start < index then
        (start, index) :: runsFrom limits costs index (index + 1) cost
      else runsFrom limits costs start (index + 1) (used + cost)

def runs (limits : Cells) (costs : List Cells) : List (Nat × Nat) :=
  runsFrom limits costs 0 0 0

end Slicing

/-! The words of a corpus in order, how often each occurs and how its counts are kept, and the cut
of these words into slices that are processed one after another. -/

structure WordMeta where
  word : Nat
  frequency : Nat
  kind : RowKind
  /-- Whether the alias row covers every topic. -/
  aliasDense : Bool
  deriving DecidableEq, Repr, Inhabited

/-- An alias row takes two cells for each topic, or three for each topic of a word at most. -/
def WordMeta.cells (numTopics : Nat) (entry : WordMeta) : Cells :=
  ⟨entry.kind.cells numTopics, if entry.aliasDense then 2 * numTopics else 3 * entry.frequency⟩

/-- A run of words, from index `start` to before index `stop`. -/
structure SliceMeta where
  id : Nat
  firstWord : Nat
  lastWord : Nat
  start : Nat
  stop : Nat
  deriving DecidableEq, Repr, Inhabited

def SliceMeta.size (slice : SliceMeta) : Nat :=
  slice.stop - slice.start

structure Vocabulary where
  numTopics : Nat
  words : Array WordMeta
  slices : Array SliceMeta
  deriving DecidableEq, Repr, Inhabited

namespace Vocabulary

def wordAtIndex (vocab : Vocabulary) (index : Nat) : Nat :=
  (vocab.words.getD index default).word

def sliceOfRun (vocab : Vocabulary) (id : Nat) (run : Nat × Nat) : SliceMeta :=
  ⟨id, vocab.wordAtIndex run.1, vocab.wordAtIndex (run.2 - 1), run.1, run.2⟩

/-- Cuts the words anew, so that every slice of several words keeps to the limits. -/
def slice (limits : Cells) (vocab : Vocabulary) : Vocabulary :=
  let runs := Slicing.runs limits (vocab.words.toList.map (WordMeta.cells vocab.numTopics))
  { vocab with slices := (runs.mapIdx vocab.sliceOfRun).toArray }

def noLimits : Cells := ⟨0, 0⟩

def layOut? (numTopics loadFactor : Nat) (term : Nat × Nat) : Option WordMeta :=
  (RowKind.forFrequency? term.2 numTopics loadFactor).map fun kind =>
    ⟨term.1, term.2, kind, numTopics * 2 / 3 ≤ term.2⟩

def keepFirst : List WordMeta → List WordMeta
  | first :: second :: rest =>
      if first.word = second.word then keepFirst (first :: rest) else first :: keepFirst
        (second :: rest)
  | entries => entries
termination_by entries => entries.length

/-- Words with their frequencies in any order; a frequency of zero is no word. -/
def ofFrequencies (terms : List (Nat × Nat)) (numTopics loadFactor : Nat) :
    Except Fault Vocabulary :=
  match (terms.filter fun term => 0 < term.2).mapM (layOut? numTopics loadFactor) with
  | none => .error (.breach .divisionByZero)
  | some entries =>
      let words := keepFirst (entries.mergeSort fun a b => a.word ≤ b.word)
      .ok (slice noLimits ⟨numTopics, words.toArray, #[]⟩)

def frequencies (docs : List Document) : List (Nat × Nat) :=
  Bag.ofWords (docs.flatMap fun doc => doc.tokens.toList.map Token.word)

def ofDocuments (docs : List Document) (numTopics loadFactor : Nat) : Except Fault Vocabulary :=
  ofFrequencies (frequencies docs) numTopics loadFactor

def index? (vocab : Vocabulary) (word : Nat) : Option Nat :=
  let index := Search.split (fun i => vocab.wordAtIndex i < word) vocab.words.size
  match vocab.words[index]? with
  | some entry => if entry.word = word then some index else none
  | none => none

def entryOf? (vocab : Vocabulary) (word : Nat) : Option WordMeta :=
  (vocab.index? word).bind fun index => vocab.words[index]?

def frequency (vocab : Vocabulary) (word : Nat) : Nat :=
  match vocab.entryOf? word with
  | some entry => entry.frequency
  | none => 0

def indexIn? (vocab : Vocabulary) (slice : SliceMeta) (word : Nat) : Option Nat :=
  match vocab.index? word with
  | some index =>
      if slice.start ≤ index ∧ index < slice.stop then some (index - slice.start) else none
  | none => none

def wordIn? (vocab : Vocabulary) (slice : SliceMeta) (position : Nat) : Option Nat :=
  (vocab.words[slice.start + position]?).map WordMeta.word

def sliceWords (vocab : Vocabulary) (slice : SliceMeta) : List WordMeta :=
  (vocab.words.extract slice.start slice.stop).toList

def frequencySum (vocab : Vocabulary) (slice : SliceMeta) : Nat :=
  ((vocab.sliceWords slice).map WordMeta.frequency).foldr (· + ·) 0

end Vocabulary

end LatentTopics
