import Mathlib
import LatentTopics.Proofs.Corpus.Format

/-! Reading back what was written. Numbers of 31 bits come back as
they were. The writer takes larger ids too, and their highest bit
makes them negative for the reader, which refuses the whole block. -/
namespace LatentTopics

/-- Both ids are read back as they were written. -/
def Token.Small (token : Token) : Prop :=
  token.word < 2147483648 ∧ token.topic < 2147483648

def Token.Wide (token : Token) : Prop :=
  token.word < 4294967296 ∧ token.topic < 4294967296

namespace Block

section Tokens

variable {tokens : List Token}

theorem decode32_encode32 (number : Nat) (rest : List UInt8) :
    decode32 (encode32 number ++ rest) = .ok (Number.narrow number, rest) := by
  have low : number % 256 + 256 * (number / 256 % 256) + 65536 * (number / 65536 % 256) +
      16777216 * (number / 16777216 % 256) = number % 4294967296 := by
    omega
  have read : Number.narrow ((number % 4294967296 : Nat) : Int) = Number.narrow number := by
    rw [Number.narrow_eq_bmod, Number.narrow_eq_bmod, Int.natCast_emod]
    exact Int.emod_bmod number 4294967296
  simp only [encode32, List.cons_append, List.nil_append, decode32, UInt8.toNat_ofNat',
    Nat.reducePow, low, read]

theorem narrow_neg_iff {number : Nat} (wide : number < 4294967296) :
    Number.narrow number < 0 ↔ ¬ number < 2147483648 := by
  rw [Number.narrow_eq_bmod, Int.bmod_def]
  omega

theorem spells_tokens (small : ∀ token ∈ tokens, token.Small) :
    SpellsEach SpellsToken (tokens.flatMap encodeToken) tokens := by
  induction tokens with
  | nil => exact .nil
  | cons token tokens ih =>
      obtain ⟨word, topic⟩ := small token List.mem_cons_self
      rw [List.flatMap_cons, encodeToken]
      exact .cons (.pair (spells_encode32 word) (spells_encode32 topic))
        (ih fun other later => small other (List.mem_cons_of_mem _ later))

theorem decodeTokens_refuses (document : Nat) (wide : ∀ token ∈ tokens, token.Wide)
    (large : ∃ token ∈ tokens, ¬ token.Small) (before : List Token) (rest : List UInt8) :
    ∃ word topic, decodeTokens document tokens.length before (tokens.flatMap encodeToken ++ rest) =
      .error (.negativeId document word topic) := by
  induction tokens generalizing before with
  | nil =>
      obtain ⟨token, member, _⟩ := large
      cases member
  | cons token tokens ih =>
      have own := wide token List.mem_cons_self
      simp only [List.length_cons, List.flatMap_cons, encodeToken, List.append_assoc, decodeTokens,
        decode32_encode32, narrow_neg_iff own.1, narrow_neg_iff own.2]
      -- The first token is refused, or it is small and a token after it is not.
      split
      · exact ⟨_, _, rfl⟩
      · next small =>
        rw [not_or, not_not, not_not] at small
        apply ih fun other later => wide other (List.mem_cons_of_mem _ later)
        obtain ⟨other, member, big⟩ := large
        rcases List.mem_cons.mp member with rfl | later
        · exact absurd small big
        · exact ⟨other, later, big⟩

end Tokens

section Documents

variable {bytes : List UInt8}

theorem encodeLength_spells {length : Nat} (written : encodeLength length = .ok bytes) :
    Spells bytes length := by
  rw [encodeLength] at written
  split at written
  · cases written
  · next fits =>
    obtain rfl := Except.ok.inj written
    exact spells_encode32 (by omega)

theorem encodeDocs_cons {doc : Document} {docs : List Document}
    (written : encodeDocs (doc :: docs) = .ok bytes) :
    ∃ length rest, Spells length doc.tokens.toList.length ∧ encodeDocs docs = .ok rest ∧
      length ++ doc.tokens.toList.flatMap encodeToken ++ rest = bytes := by
  rw [encodeDocs] at written
  cases size : encodeLength doc.size with
  | error cause =>
      rw [size] at written
      cases written
  | ok length =>
      cases later : encodeDocs docs with
      | error cause =>
          rw [size, later] at written
          cases written
      | ok rest =>
          rw [size, later] at written
          exact ⟨length, rest, encodeLength_spells size, rfl, Except.ok.inj written⟩

theorem spells_document {doc : Document} {length : List UInt8}
    (counted : Spells length doc.tokens.toList.length) (sorted : doc.Sorted)
    (small : ∀ token ∈ doc.tokens.toList, token.Small) :
    SpellsDocument (length ++ doc.tokens.toList.flatMap encodeToken) doc.tokens.toList :=
  ⟨.counted counted (spells_tokens small), sorted⟩

theorem spells_documents {docs : List Document} (sorted : ∀ doc ∈ docs, doc.Sorted)
    (small : ∀ doc ∈ docs, ∀ token ∈ doc.tokens.toList, token.Small)
    (written : encodeDocs docs = .ok bytes) :
    SpellsEach SpellsDocument bytes (docs.map fun doc => doc.tokens.toList) := by
  induction docs generalizing bytes with
  | nil =>
      obtain rfl := Except.ok.inj written
      exact .nil
  | cons doc docs ih =>
      obtain ⟨length, rest, counted, later, rfl⟩ := encodeDocs_cons written
      exact .cons (spells_document counted (sorted doc List.mem_cons_self)
        (small doc List.mem_cons_self))
        (ih (fun other member => sorted other (List.mem_cons_of_mem _ member))
          (fun other member => small other (List.mem_cons_of_mem _ member)) later)

theorem decodeDoc_refuses {doc : Document} {length : List UInt8}
    (counted : Spells length doc.tokens.toList.length) (document : Nat)
    (wide : ∀ token ∈ doc.tokens.toList, token.Wide)
    (large : ∃ token ∈ doc.tokens.toList, ¬ token.Small) (rest : List UInt8) :
    ∃ word topic, decodeDoc document (length ++ doc.tokens.toList.flatMap encodeToken ++ rest) =
      .error (.negativeId document word topic) := by
  obtain ⟨word, topic, refused⟩ := decodeTokens_refuses document wide large [] rest
  refine ⟨word, topic, ?_⟩
  simp only [decodeDoc, List.append_assoc, counted.decode32]
  rw [if_neg (by omega), Int.toNat_natCast, refused]

theorem decodeDocs_refuses {docs : List Document} (sorted : ∀ doc ∈ docs, doc.Sorted)
    (wide : ∀ doc ∈ docs, ∀ token ∈ doc.tokens.toList, token.Wide)
    (large : ∃ doc ∈ docs, ∃ token ∈ doc.tokens.toList, ¬ token.Small)
    (written : encodeDocs docs = .ok bytes) (document : Nat) (before : Array Document) :
    ∃ index word topic, decodeDocs docs.length document before bytes =
        .error (.negativeId index word topic) := by
  induction docs generalizing bytes document before with
  | nil =>
      obtain ⟨doc, member, _⟩ := large
      cases member
  | cons doc docs ih =>
      obtain ⟨length, rest, counted, later, rfl⟩ := encodeDocs_cons written
      rw [List.length_cons, decodeDocs]
      -- A document of small ids is read, so that the large one
      -- comes later; any other document is refused itself.
      by_cases small : ∀ token ∈ doc.tokens.toList, token.Small
      · have spelled := spells_document counted (sorted doc List.mem_cons_self) small
        rw [spelled.decodeDoc]
        apply ih (fun other member => sorted other (List.mem_cons_of_mem _ member))
          (fun other member => wide other (List.mem_cons_of_mem _ member)) _ later
        obtain ⟨other, member, token, inside, big⟩ := large
        rcases List.mem_cons.mp member with rfl | behind
        · exact absurd (small token inside) big
        · exact ⟨other, behind, token, inside, big⟩
      · push Not at small
        obtain ⟨word, topic, refused⟩ :=
          decodeDoc_refuses counted document (wide doc List.mem_cons_self) small rest
        rw [refused]
        exact ⟨document, word, topic, rfl⟩

end Documents

section Blocks

variable {block : Block} {bytes : List UInt8}

theorem encode_eq_ok (written : encode block = .ok bytes) :
    ∃ count body, Spells count block.docs.toList.length ∧ encodeDocs block.docs.toList = .ok body ∧
      count ++ body = bytes := by
  cases size : encodeLength block.docs.size with
  | error cause =>
      simp only [encode, size] at written
      cases written
  | ok count =>
      cases listed : encodeDocs block.docs.toList with
      | error cause =>
          simp only [encode, size, listed] at written
          cases written
      | ok body =>
          simp only [encode, size, listed] at written
          exact ⟨count, body, encodeLength_spells size, rfl, Except.ok.inj written⟩

theorem mem_tokens {token : Token} :
    token ∈ block.tokens ↔ ∃ doc ∈ block.docs.toList, token ∈ doc.tokens.toList :=
  List.mem_flatMap

/-- A written block of small ids comes back with its documents, none of them begun. One with a
larger id is refused because of a negative one. -/
theorem read_back_written (sorted : ∀ doc ∈ block.docs, doc.Sorted)
    (wide : ∀ token ∈ block.tokens, token.Wide) (written : encode block = .ok bytes) :
    ((∀ token ∈ block.tokens, token.Small) →
      decode bytes = .ok ⟨block.docs.map Document.resetCursor⟩) ∧
      ((∃ token ∈ block.tokens, ¬ token.Small) →
        ∃ document word topic, decode bytes =
          .error (.block (.negativeId document word topic))) := by
  obtain ⟨count, body, counted, listed, rfl⟩ := encode_eq_ok written
  have sorted : ∀ doc ∈ block.docs.toList, doc.Sorted :=
    fun doc member => sorted doc (Array.mem_toList_iff.mp member)
  constructor
  · intro small
    have each := spells_documents sorted
      (fun doc member token inside => small token (mem_tokens.mpr ⟨doc, member, inside⟩)) listed
    have spelled : SpellsBlock (count ++ body) (block.docs.toList.map fun doc =>
        doc.tokens.toList) :=
      .counted (by rwa [List.length_map]) each
    rw [spelled.decode, unswept, List.map_map, ← Array.toList_map]
    rfl
  · rintro ⟨token, member, big⟩
    obtain ⟨doc, inside, own⟩ := mem_tokens.mp member
    obtain ⟨document, word, topic, refused⟩ := decodeDocs_refuses sorted
      (fun doc member token inside => wide token (mem_tokens.mpr ⟨doc, member, inside⟩))
      ⟨doc, inside, token, own, big⟩ listed 0 #[]
    refine ⟨document, word, topic, ?_⟩
    simp only [decode, decodeBlock, counted.decode32]
    rw [if_neg (by omega), Int.toNat_natCast, refused]
    rfl

theorem read_back_written_pair :
    let block : Block := ⟨#[⟨#[⟨0, 3⟩, ⟨4, 1⟩], 2⟩, ⟨#[⟨2147483647, 0⟩], 0⟩]⟩
    let bytes : List UInt8 :=
      [2, 0, 0, 0, 2, 0, 0, 0, 0, 0, 0, 0, 3, 0, 0, 0, 4, 0, 0, 0, 1, 0, 0, 0, 1, 0, 0, 0, 255, 255,
        255, 127, 0, 0, 0, 0]
    (∀ doc ∈ block.docs, doc.Sorted) ∧ (∀ token ∈ block.tokens, token.Wide) ∧
      encode block = .ok bytes ∧
      (∀ token ∈ block.tokens, token.Small) ∧
        decode bytes = .ok ⟨block.docs.map Document.resetCursor⟩ := by
  intro block bytes
  have sorted : ∀ doc ∈ block.docs, doc.Sorted := by
    simp [block, Document.Sorted]
  have wide : ∀ token ∈ block.tokens, token.Wide := by
    simp [block, tokens, Token.Wide]
  have small : ∀ token ∈ block.tokens, token.Small := by
    simp [block, tokens, Token.Small]
  have written : encode block = .ok bytes := by
    decide +kernel
  exact ⟨sorted, wide, written, small, (read_back_written sorted wide written).1 small⟩

/-- A word of 32 bits is written without complaint, and the bytes are refused. -/
theorem large_word_refused :
    let bytes : List UInt8 := [1, 0, 0, 0, 1, 0, 0, 0, 0, 0, 0, 128, 0, 0, 0, 0]
    encode ⟨#[Document.ofTokens [⟨2147483648, 0⟩]]⟩ = .ok bytes ∧
      decode bytes = .error (.block (.negativeId 0 (-2147483648) 0)) := by
  intro bytes
  constructor
  · decide +kernel
  · decide +kernel

end Blocks

end Block

end LatentTopics
