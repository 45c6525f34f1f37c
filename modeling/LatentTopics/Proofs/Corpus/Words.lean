import Mathlib
import LatentTopics.Proofs.Corpus.Tokens
import LatentTopics.Proofs.Corpus.TopicCounters

/-! The words of a document. They stand in order and stay as
they are, whatever topics its tokens get. -/
namespace LatentTopics

namespace Document

def words (doc : Document) : Array Nat :=
  doc.tokens.map Token.word

/-- The document with other topics. -/
structure Kept (before after : Document) : Prop where
  words : after.words = before.words
  cursor : after.cursor = before.cursor

variable {doc before after : Document}

theorem Kept.refl (doc : Document) : Kept doc doc :=
  ⟨rfl, rfl⟩

theorem Kept.trans {last : Document} (first : Kept before after) (second : Kept after last) :
    Kept before last :=
  ⟨second.words.trans first.words, second.cursor.trans first.cursor⟩

theorem size_words (doc : Document) : doc.words.size = doc.size :=
  Array.size_map

theorem Kept.size (kept : Kept before after) : after.size = before.size := by
  rw [← size_words, ← size_words, kept.words]

theorem mem_words {position word : Nat} (here : doc.words[position]? = some word) :
    ∃ token ∈ doc.tokens, token.word = word := by
  rw [words, Array.getElem?_map, Option.map_eq_some_iff] at here
  obtain ⟨token, there, same⟩ := here
  exact ⟨token, Array.mem_of_getElem? there, same⟩

theorem words_setTopic (doc : Document) (index topic : Nat) :
    (doc.setTopic index topic).words = doc.words := by
  apply Array.ext_getElem?
  intro position
  simp only [words, setTopic, Array.getElem?_map, Array.getElem?_modify]
  split
  · rw [Option.map_map]
    rfl
  · rfl

theorem kept_setTopic (doc : Document) (index topic : Nat) : Kept doc (doc.setTopic index topic) :=
  ⟨doc.words_setTopic index topic, rfl⟩

theorem mem_setTopic {index topic : Nat} {token : Token}
    (member : token ∈ (doc.setTopic index topic).tokens) :
    token ∈ doc.tokens ∨ token.topic = topic := by
  obtain ⟨position, here⟩ := Array.getElem?_of_mem member
  simp only [setTopic, Array.getElem?_modify] at here
  split at here
  · obtain ⟨old, _, rfl⟩ := Option.map_eq_some_iff.mp here
    exact Or.inr rfl
  · exact Or.inl (Array.mem_of_getElem? here)

theorem topics_eq_map (doc : Document) :
    doc.topics = (doc.tokens.toList : Multiset Token).map Token.topic :=
  rfl

theorem topics_setTopic {index : Nat} {token : Token} (here : doc.tokens[index]? = some token)
    (topic : Nat) :
    (doc.setTopic index topic).topics = topic ::ₘ doc.topics.erase token.topic := by
  have member : token ∈ (doc.tokens.toList : Multiset Token) :=
    Multiset.mem_coe.mpr (Array.mem_toList_iff.mpr (Array.mem_of_getElem? here))
  have erased := Multiset.map_erase_of_mem Token.topic (doc.tokens.toList : Multiset Token) member
  rw [topics_eq_map, doc.tokens_setTopic here topic, Tokens.move, Multiset.map_cons,
    topics_eq_map, ← erased]
  rfl

def Sorted (doc : Document) : Prop :=
  doc.tokens.toList.Pairwise fun first second => first.word ≤ second.word

theorem sorted_iff (doc : Document) : doc.Sorted ↔ doc.words.toList.Pairwise (· ≤ ·) := by
  rw [words, Array.toList_map, List.pairwise_map, Sorted]

theorem Sorted.le {first second word next : Nat} (sorted : doc.Sorted) (before : first ≤ second)
    (here : doc.words[first]? = some word) (there : doc.words[second]? = some next) :
    word ≤ next := by
  rcases Nat.eq_or_lt_of_le before with rfl | less
  · rw [here] at there
    exact (Option.some.inj there).le
  · obtain ⟨inside, rfl⟩ := Array.getElem?_eq_some_iff.mp here
    obtain ⟨inside', rfl⟩ := Array.getElem?_eq_some_iff.mp there
    exact List.pairwise_iff_getElem.mp (doc.sorted_iff.mp sorted) first second inside inside' less

end Document

theorem Tokens.map_word_ofDocs (docs : List Document) :
    (ofDocs docs).map Token.word = ((docs.map Document.words).flatMap Array.toList : List Nat) := by
  rw [ofDocs, Multiset.map_coe, List.map_flatMap, List.flatMap_map]
  simp only [Document.words, Array.toList_map]

end LatentTopics
