import Mathlib
import LatentTopics.Proofs.Counts.Logs

/-! The tokens of documents, as a collection. Giving one token another topic moves it there. -/
namespace LatentTopics

namespace Tokens

def ofDocs (docs : List Document) : Multiset Token :=
  (docs.flatMap fun doc => doc.tokens.toList : List Token)

theorem mem_ofDocs {docs : List Document} {token : Token} :
    token ∈ ofDocs docs ↔ ∃ doc ∈ docs, token ∈ doc.tokens := by
  rw [ofDocs, Multiset.mem_coe, List.mem_flatMap]
  simp only [Array.mem_toList_iff]

theorem ofDocs_cons (doc : Document) (docs : List Document) :
    ofDocs (doc :: docs) = (doc.tokens.toList : Multiset Token) + ofDocs docs := by
  rw [ofDocs, List.flatMap_cons, ← Multiset.coe_add, ofDocs]

theorem ofDocs_append (docs others : List Document) :
    ofDocs (docs ++ others) = ofDocs docs + ofDocs others := by
  rw [ofDocs, List.flatMap_append, ← Multiset.coe_add, ofDocs, ofDocs]

theorem ofDocs_perm {docs others : List Document} (perm : docs.Perm others) :
    ofDocs docs = ofDocs others :=
  Multiset.coe_eq_coe.mpr (perm.flatMap_right _)

theorem ofDocs_flatMap {α : Type} (parts : List α) (docsOf : α → List Document) :
    ofDocs (parts.flatMap docsOf) = (parts.map fun part => ofDocs (docsOf part)).sum := by
  induction parts with
  | nil => rfl
  | cons part parts ih => rw [List.flatMap_cons, ofDocs_append, ih, List.map_cons, List.sum_cons]

theorem size_le_card_ofDocs {docs : List Document} {doc : Document} (member : doc ∈ docs) :
    doc.size ≤ Multiset.card (ofDocs docs) := by
  induction docs with
  | nil => cases member
  | cons first docs ih =>
      rw [ofDocs_cons, Multiset.card_add, Multiset.coe_card, Array.length_toList]
      rcases List.mem_cons.mp member with rfl | later
      · exact Nat.le_add_right _ _
      · exact (ih later).trans (Nat.le_add_left _ _)

end Tokens

theorem coe_modify {α : Type} [DecidableEq α] {list : List α} {index : Nat} {entry : α}
    (here : list[index]? = some entry) (change : α → α) :
    (list.modify index change : Multiset α) = change entry ::ₘ (list : Multiset α).erase entry := by
  induction list generalizing index with
  | nil => cases here
  | cons first rest ih =>
      cases index with
      | zero =>
          obtain rfl : first = entry := Option.some.inj here
          simp
      | succ index =>
          rw [List.getElem?_cons_succ] at here
          have member : entry ∈ (rest : Multiset α) :=
            Multiset.mem_coe.mpr (List.mem_of_getElem? here)
          rw [List.modify_succ_cons, ← Multiset.cons_coe, ih here, ← Multiset.cons_coe,
            Multiset.erase_cons_tail_of_mem member, Multiset.cons_swap]

theorem Document.tokens_setTopic {doc : Document} {index : Nat} {token : Token}
    (here : doc.tokens[index]? = some token) (topic : Nat) :
    ((doc.setTopic index topic).tokens.toList : Multiset Token) =
      Tokens.move ⟨token.word, token.topic, topic⟩ doc.tokens.toList := by
  have listed : doc.tokens.toList[index]? = some token := by
    rwa [Array.getElem?_toList]
  have modified : (doc.setTopic index topic).tokens.toList =
      doc.tokens.toList.modify index fun token => { token with topic } := Array.toList_modify
  rw [modified, coe_modify listed]
  rfl

theorem Tokens.ofDocs_set {docs : List Document} {place : Nat} {doc changed : Document}
    {change : Change} (here : docs[place]? = some doc) (source : change.source ∈ doc.tokens)
    (moved : (changed.tokens.toList : Multiset Token) = Tokens.move change doc.tokens.toList) :
    ofDocs (docs.set place changed) = move change (ofDocs docs) := by
  induction docs generalizing place with
  | nil => cases here
  | cons first rest ih =>
      cases place with
      | zero =>
          obtain rfl : first = doc := Option.some.inj here
          have member : change.source ∈ (first.tokens.toList : Multiset Token) :=
            Multiset.mem_coe.mpr (Array.mem_toList_iff.mpr source)
          rw [List.set_cons_zero, ofDocs_cons, ofDocs_cons, moved, move_add member]
      | succ place =>
          rw [List.getElem?_cons_succ] at here
          have member : change.source ∈ ofDocs rest :=
            mem_ofDocs.mpr ⟨doc, List.mem_of_getElem? here, source⟩
          rw [List.set_cons_succ, ofDocs_cons, ofDocs_cons, ih here, add_comm,
            ← move_add member, add_comm]

end LatentTopics
