import Mathlib
import LatentTopics.Proofs.Corpus.Words
import LatentTopics.Proofs.Counts.Checked

/-! The vocabulary of documents. Its words are those of the documents, each with the number of its
tokens, and its tables have room for them. -/
namespace LatentTopics

namespace Tokens

theorem ofWord_eq_count (tokens : List Token) (word : Nat) :
    ofWord tokens word = (tokens.map Token.word).count word := by
  rw [ofWord, Multiset.coe_countP, List.count, List.countP_map]
  apply List.countP_congr
  intro token _
  simp

end Tokens

namespace Vocabulary

variable {docs : List Document} {numTopics loadFactor : Nat} {vocab : Vocabulary}

theorem frequencies_counts (docs : List Document) :
    Bag.Counts (frequencies docs) (docs.flatMap fun doc => doc.tokens.toList.map Token.word) :=
  Bag.ofWords_counts _

theorem count_words (docs : List Document) (word : Nat) :
    (docs.flatMap fun doc => doc.tokens.toList.map Token.word).count word =
        Tokens.ofWord (Tokens.ofDocs docs) word := by
  rw [Tokens.ofDocs, Tokens.ofWord_eq_count, List.map_flatMap]

theorem ofDocuments_describes (made : ofDocuments docs numTopics loadFactor = .ok vocab)
    (limits : Cells) :
    (vocab.slice limits).Describes (Tokens.ofDocs docs) := by
  obtain ⟨entries, laidOut, rfl⟩ := ofFrequencies_eq_ok made
  have counts := frequencies_counts docs
  constructor
  · intro token member
    have some : 0 < Tokens.ofWord (Tokens.ofDocs docs) token.word :=
      Multiset.countP_pos.mpr ⟨token, member, rfl⟩
    rw [← count_words] at some
    obtain ⟨entry, inside, same⟩ :=
      laidOut.every _ ((counts.entries token.word _).mpr ⟨some, rfl⟩) some
    exact ⟨entry, List.mem_toArray.mpr inside, same⟩
  · intro entry member
    have listed := (laidOut.given entry (List.mem_toArray.mp member)).1
    rw [((counts.entries entry.word entry.frequency).mp listed).2, count_words]

theorem ofDocuments_spacious (made : ofDocuments docs numTopics loadFactor = .ok vocab)
    (load : 2 ≤ loadFactor) (few : Multiset.card (Tokens.ofDocs docs) < 2147483648)
    (limits : Cells) : (vocab.slice limits).Spacious := by
  have described := ofDocuments_describes made limits
  apply spacious_of_frequencies made limits
  · intro entry member
    have most := Multiset.countP_le_card (fun token : Token => token.word = entry.word)
      (Tokens.ofDocs docs)
    have own : Tokens.ofWord (Tokens.ofDocs docs) entry.word = entry.frequency :=
      described.frequencies entry member
    rw [Tokens.ofWord] at own
    omega
  · intro entry member capacity sparse
    obtain ⟨entries, laidOut, rfl⟩ := ofFrequencies_eq_ok made
    have room := (layOut?_kind (laidOut.laid entry (List.mem_toArray.mp member))).2 capacity sparse
    exact (Nat.mul_le_mul_right entry.frequency load).trans room

theorem mem_ofDocuments (made : ofDocuments docs numTopics loadFactor = .ok vocab) (limits : Cells)
    (word : Nat) :
    (∃ entry ∈ (vocab.slice limits).words, entry.word = word) ↔ ∃ doc ∈ docs, word ∈ doc.words := by
  have described := ofDocuments_describes made limits
  constructor
  · rintro ⟨entry, member, rfl⟩
    obtain ⟨entries, laidOut, rfl⟩ := ofFrequencies_eq_ok made
    have some : 0 < Tokens.ofWord (Tokens.ofDocs docs) entry.word := by
      rw [described.frequencies entry member]
      exact (laidOut.given entry (List.mem_toArray.mp member)).2
    obtain ⟨token, inside, same⟩ := Multiset.countP_pos.mp some
    obtain ⟨doc, listed, own⟩ := Tokens.mem_ofDocs.mp inside
    exact ⟨doc, listed, same ▸ Array.mem_map_of_mem own⟩
  · rintro ⟨doc, listed, member⟩
    obtain ⟨token, own, rfl⟩ := Array.mem_map.mp member
    exact described.known token (Tokens.mem_ofDocs.mpr ⟨doc, listed, own⟩)

end Vocabulary

end LatentTopics
