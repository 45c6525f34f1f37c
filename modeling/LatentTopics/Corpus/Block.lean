import LatentTopics.Corpus.Bag
import LatentTopics.Corpus.Document

/-! Blocks of documents, the corpus of a run. -/
namespace LatentTopics

structure Block where
  docs : Array Document
  deriving DecidableEq, Repr, Inhabited

namespace Block

def drawDocs (numTopics : Nat) : List Bag → Array Document → Xorshift →
    Except Fault (Array Document × Xorshift)
  | [], docs, rng => .ok (docs, rng)
  | bag :: bags, docs, rng =>
      match Document.withRandomTopics bag numTopics rng with
      | .ok (doc, rng) => drawDocs numTopics bags (docs.push doc) rng
      | .error fault => .error fault

def ofBags (bags : List Bag) (numTopics : Nat) (rng : Xorshift) : Except Fault (Block × Xorshift) :=
  match drawDocs numTopics bags #[] rng with
  | .ok (docs, rng) => .ok (⟨docs⟩, rng)
  | .error fault => .error fault

def tokens (block : Block) : List Token :=
  block.docs.toList.flatMap fun doc => doc.tokens.toList

def numTokens (block : Block) : Nat :=
  (block.docs.toList.map Document.size).foldr (· + ·) 0

def numVocabs (block : Block) : Nat :=
  block.tokens.foldl (fun bound token => max bound (token.word + 1)) 0

/-- The first token whose word or topic is out of range; the word counts first. -/
def firstFault (numVocabs numTopics : Nat) : List Token → Option Fault
  | [] => none
  | token :: tokens =>
      if numVocabs ≤ token.word then some (.wordOutOfRange token.word numVocabs)
      else if numTopics ≤ token.topic then some (.topicOutOfRange token.topic numTopics)
      else firstFault numVocabs numTopics tokens

def validate (numVocabs numTopics : Nat) (block : Block) : Except Fault Unit :=
  match firstFault numVocabs numTopics block.tokens with
  | some fault => .error fault
  | none => .ok ()

end Block

end LatentTopics
