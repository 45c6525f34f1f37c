import LatentTopics.Random.Xorshift
import LatentTopics.Number
import LatentTopics.Fault

/-! Documents. A token is an occurrence of a word with the topic assigned to it. The tokens of a
document are sorted by word, so that those of one vocabulary slice stand together; the cursor is
where the sweep over the next slice starts. -/
namespace LatentTopics

structure Token where
  word : Nat
  topic : Nat
  deriving DecidableEq, Repr, Inhabited

structure Document where
  tokens : Array Token
  cursor : Nat
  deriving DecidableEq, Repr, Inhabited

namespace Document

/-- Tokens of one word keep their order. -/
def ofTokens (tokens : List Token) : Document :=
  ⟨(tokens.mergeSort fun a b => a.word ≤ b.word).toArray, 0⟩

@[inline] def size (doc : Document) : Nat :=
  doc.tokens.size

def setTopic (index topic : Nat) : Document → Document
  | ⟨tokens, cursor⟩ => ⟨tokens.modify index fun token => { token with topic }, cursor⟩

def setCursor (cursor : Nat) (doc : Document) : Document :=
  { doc with cursor := min cursor doc.size }

def resetCursor (doc : Document) : Document :=
  { doc with cursor := 0 }

def drawTokens (numTopics : UInt32) (word : Nat) :
    Nat → List Token → Xorshift → Except Fault (List Token × Xorshift)
  | 0, tokens, rng => .ok (tokens, rng)
  | count + 1, tokens, rng =>
      match rng.uniform? numTopics with
      | some (topic, rng) => drawTokens numTopics word count (⟨word, topic⟩ :: tokens) rng
      | none => .error (.breach .emptyRange)

def drawWords (numTopics : UInt32) :
    List (Nat × Nat) → List Token → Xorshift → Except Fault (List Token × Xorshift)
  | [], tokens, rng => .ok (tokens, rng)
  | (word, count) :: words, tokens, rng =>
      match drawTokens numTopics word count tokens rng with
      | .ok (tokens, rng) => drawWords numTopics words tokens rng
      | .error fault => .error fault

/-- The most tokens of eight bytes that an address space of 2^63 bytes holds. -/
def mostTokens : Nat := 1152921504606846975

/-- A document whose tokens have uniformly random topics. The
number of topics is taken in 32 bits and must not be zero. -/
def withRandomTopics (words : List (Nat × Nat)) (numTopics : Nat) (rng : Xorshift) :
    Except Fault (Document × Xorshift) :=
  let bound := UInt32.ofNat (Number.word32 numTopics)
  if bound = 0 then .error (.breach .emptyRange)
  else if mostTokens < (words.map Prod.snd).foldr (· + ·) 0 then .error (.breach .oversize)
  else
    match drawWords bound words [] rng with
    | .ok (tokens, rng) => .ok (ofTokens tokens.reverse, rng)
    | .error fault => .error fault

end Document

end LatentTopics
