import LatentTopics.Corpus.Block
import LatentTopics.Files

/-! Blocks as bytes: the number of documents, and for each document the number of tokens and the
word and topic of every token. All are signed 32-bit numbers with the low byte first. A reader
accepts no negative number, no unsorted document and nothing after the last one; a writer refuses
lengths that do not fit but drops the high bits of ids. -/
namespace LatentTopics.Block

def encode32 (number : Nat) : List UInt8 :=
  [UInt8.ofNat number, UInt8.ofNat (number / 256), UInt8.ofNat (number / 65536),
    UInt8.ofNat (number / 16777216)]

def decode32 : List UInt8 → Except BlockFault (Int × List UInt8)
  | a :: b :: c :: d :: rest =>
      .ok (Number.narrow (a.toNat + 256 * b.toNat + 65536 * c.toNat + 16777216 * d.toNat : Nat),
        rest)
  | _ => .error .unexpectedEnd

def encodeLength (length : Nat) : Except BlockFault (List UInt8) :=
  if 2147483647 < length then .error (.longLength length) else .ok (encode32 length)

def encodeToken (token : Token) : List UInt8 :=
  encode32 token.word ++ encode32 token.topic

def encodeDocs : List Document → Except BlockFault (List UInt8)
  | [] => .ok []
  | doc :: docs => do
      let length ← encodeLength doc.size
      let rest ← encodeDocs docs
      return length ++ doc.tokens.toList.flatMap encodeToken ++ rest

def encode (block : Block) : Except Fault (List UInt8) :=
  let bytes := do
    let length ← encodeLength block.docs.size
    let docs ← encodeDocs block.docs.toList
    return length ++ docs
  bytes.mapError Fault.block

def decodeTokens (document : Nat) :
    Nat → List Token → List UInt8 → Except BlockFault (List Token × List UInt8)
  | 0, tokens, bytes => .ok (tokens, bytes)
  | count + 1, tokens, bytes =>
      match decode32 bytes with
      | .error cause => .error cause
      | .ok (word, bytes) =>
          match decode32 bytes with
          | .error cause => .error cause
          | .ok (topic, bytes) =>
              if word < 0 ∨ topic < 0 then .error (.negativeId document word topic)
              else decodeTokens document count (⟨word.toNat, topic.toNat⟩ :: tokens) bytes

def firstDescent : List Token → Nat → Option (Nat × Nat × Nat)
  | a :: b :: rest, index =>
      if b.word < a.word then some (index + 1, a.word, b.word)
      else firstDescent (b :: rest) (index + 1)
  | _, _ => none

def decodeDoc (document : Nat) (bytes : List UInt8) : Except BlockFault (Document × List UInt8) :=
  match decode32 bytes with
  | .error cause => .error cause
  | .ok (count, bytes) =>
      if count < 0 then .error (.negativeTokenCount count)
      else
        match decodeTokens document count.toNat [] bytes with
        | .error cause => .error cause
        | .ok (tokens, bytes) =>
            let tokens := tokens.reverse
            match firstDescent tokens 0 with
            | some (token, before, after) => .error (.unsorted document token before after)
            | none => .ok (Document.ofTokens tokens, bytes)

def decodeDocs : Nat → Nat → Array Document → List UInt8 →
    Except BlockFault (Array Document × List UInt8)
  | 0, _, docs, bytes => .ok (docs, bytes)
  | count + 1, document, docs, bytes =>
      match decodeDoc document bytes with
      | .error cause => .error cause
      | .ok (doc, bytes) => decodeDocs count (document + 1) (docs.push doc) bytes

def decodeBlock (bytes : List UInt8) : Except BlockFault Block :=
  match decode32 bytes with
  | .error cause => .error cause
  | .ok (count, bytes) =>
      if count < 0 then .error (.negativeDocumentCount count)
      else
        match decodeDocs count.toNat 0 #[] bytes with
        | .error cause => .error cause
        | .ok (docs, rest) => if rest.isEmpty then .ok ⟨docs⟩ else .error .trailingBytes

def decode (bytes : List UInt8) : Except Fault Block :=
  (decodeBlock bytes).mapError Fault.block

end LatentTopics.Block

namespace LatentTopics.MonadFiles

variable {m : Type → Type} [Monad m] [MonadFiles m]

/-- Writes a block beside the path and moves it into place.
A block that does not fit writes nothing. -/
def saveBlock (path : String) (block : Block) : m (Except Fault Unit) :=
  match block.encode with
  | .ok bytes => saveWhole path ⟨bytes.toArray⟩
  | .error fault => pure (.error fault)

end LatentTopics.MonadFiles
