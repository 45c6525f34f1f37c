import Mathlib
import LatentTopics.Proofs.Counts.Additions
import LatentTopics.Proofs.Counts.Stores

/-! Whatever is done to a store. Commits, merges and the counting of documents consist of additions
to single counts, and so do those of them that fail; the stores that they lead to come from an empty
one by additions and by clearing slices. -/
namespace LatentTopics

namespace Store

def replace (store : Store) (id : Nat) (slice : Slice) (summary : Summary) : Store :=
  ⟨store.slices.setIfInBounds id slice, summary⟩

/-- What may be done to a store that is empty or holds the counts of documents, with any words,
topics and logs. Whatever fails is left as it is. -/
inductive Worked (vocab : Vocabulary) : Store → Prop where
  | empty : Worked vocab (ofVocabulary vocab)
  | counted {store : Store} {docs : List Document} (counted : ofDocuments vocab docs = .ok store) :
      Worked vocab store
  | row {store : Store} (worked : Worked vocab store) (id word topic : Nat) {delta : Int}
      (range : Number.Int32Range delta) :
        Worked vocab (Update.left (updateSlice id (Slice.add word topic delta)) store)
  -- Any change of a total, those that do not fit into 64
  -- bits included: more stores than there can be.
  | total {store : Store} (worked : Worked vocab store) (topic : Nat) (delta : Int) :
      Worked vocab (Update.left (updateSummary (Summary.add topic delta)) store)
  | commit {store : Store} (worked : Worked vocab store) {id : Nat} {slice : Slice}
      (here : store.slices[id]? = some slice)
      (change : Change) (recording : Bool) (events : Array Change) {view : InPlace}
      (done : Update.left (InPlace.commit change) ⟨slice, store.summary, recording,
        events⟩ = view) :
      Worked vocab (store.replace id view.slice view.summary)
  | merge {store : Store} (worked : Worked vocab store) {id : Nat} {slice : Slice}
      (here : store.slices[id]? = some slice)
      (log : DeltaLog) {counts : Slice × Summary}
      (done : Update.left log.mergeInto (slice, store.summary) = counts) :
      Worked vocab (store.replace id counts.1 counts.2)
  | clear {store : Store} (worked : Worked vocab store) (id : Nat) :
      Worked vocab (Update.left (updateSlice id fun slice => .ok () slice.clear) store)

variable {vocab : Vocabulary} {store : Store} {id : Nat} {slice : Slice} {summary : Summary}

theorem replace_self (here : store.slices[id]? = some slice) :
    store.replace id slice store.summary = store := by
  obtain ⟨inside, rfl⟩ := Array.getElem?_eq_some_iff.mp here
  rw [replace, Array.setIfInBounds, dif_pos inside, Array.set_getElem_self]

theorem left_updateSlice {α : Type} (here : store.slices[id]? = some slice)
    (step : Update Slice α) :
    Update.left (updateSlice id step) store = store.replace id (Update.left step slice)
        store.summary := by
  obtain ⟨inside, rfl⟩ := Array.getElem?_eq_some_iff.mp here
  simp only [Update.left, updateSlice, dif_pos inside, Array.swapAt, replace]
  cases step store.slices[id] <;> simp only [Arrays.setIfInBounds_set]

theorem left_updateSummary {α : Type} (step : Update Summary α) (store : Store) :
    Update.left (updateSummary step) store = ⟨store.slices, Update.left step store.summary⟩ := by
  simp only [Update.left, updateSummary]
  cases step store.summary <;> rfl

section Replaced

def Reaches (vocab : Vocabulary) (store : Store) (id : Nat) (slice : Slice)
    (summary : Summary) : Prop :=
  id < store.slices.size ∧ Reachable vocab (store.replace id slice summary)

theorem Reachable.reaches (reached : Reachable vocab store)
    (here : store.slices[id]? = some slice) : Reaches vocab store id slice store.summary :=
  ⟨(Array.getElem?_eq_some_iff.mp here).1, (replace_self here).symm ▸ reached⟩

theorem Reaches.addToRow (reaches : Reaches vocab store id slice summary) (word topic : Nat)
    {delta : Int} (range : Number.Int32Range delta) :
    Reaches vocab store id (Update.left (Slice.add word topic delta) slice) summary := by
  obtain ⟨inside, reached⟩ := reaches
  have there : (store.replace id slice summary).slices[id]? = some slice :=
    Array.getElem?_setIfInBounds_self_of_lt inside
  have next : Reachable vocab (Update.left (updateSlice id (Slice.add word topic delta))
      (store.replace id slice summary)) :=
    reached.count id word topic range
  rw [left_updateSlice there] at next
  refine ⟨inside, ?_⟩
  rwa [replace, replace, Array.setIfInBounds_setIfInBounds] at next

theorem Reaches.addToTotal (reaches : Reaches vocab store id slice summary) (topic : Nat)
    (delta : Int) :
    Reaches vocab store id slice (Update.left (Summary.add topic delta) summary) := by
  obtain ⟨inside, reached⟩ := reaches
  have next : Reachable vocab (Update.left (updateSummary (Summary.add topic delta))
      (store.replace id slice summary)) :=
    reached.total topic delta
  rw [left_updateSummary] at next
  exact ⟨inside, next⟩

variable (vocab store id)

theorem keeps_apply {addition : Addition} (range : addition.InRange) :
    Update.Keeps (fun counts : Slice × Summary => Reaches vocab store id counts.1 counts.2)
        addition.apply := by
  rintro ⟨slice, summary⟩ reaches
  cases addition with
  | row word topic delta =>
      rw [Addition.left_row]
      exact reaches.addToRow word topic range
  | total topic delta =>
      rw [Addition.left_total]
      exact reaches.addToTotal topic delta

theorem keeps_commit (change : Change) :
    Update.Keeps (fun view => Reaches vocab store id view.slice view.summary)
        (InPlace.commit change) := by
  have additions :
      Update.Keeps (fun counts : Slice × Summary => Reaches vocab store id counts.1 counts.2)
      (Addition.applyAll change.additions) :=
    Addition.keeps_applyAll fun addition member =>
      keeps_apply vocab store id (change.additions_inRange addition member)
  rw [InPlace.commit_eq]
  exact ((InPlace.runsAs_move change).keeps additions).bind fun _ view reaches => reaches

theorem keeps_mergeInto (log : DeltaLog) :
    Update.Keeps (fun counts : Slice × Summary => Reaches vocab store id counts.1 counts.2)
        log.mergeInto := by
  rw [DeltaLog.mergeInto_eq]
  exact Addition.keeps_applyAll fun addition member =>
    keeps_apply vocab store id (log.additions_inRange addition member)

end Replaced

section Documents

variable (vocab)

theorem keeps_addTokens (numWords : Nat) (tokens : List Token) :
    Update.Keeps (Reachable vocab) (addTokens numWords tokens) := by
  induction tokens with
  | nil => exact fun store reached => reached
  | cons token tokens ih =>
      refine Update.Keeps.bind ?_ fun _ => ih
      intro store reached
      cases found : store.sliceOf? token.word with
      | none =>
          simp only [Update.left, addToken, found]
          exact reached
      | some id =>
          have row :
              Update.Keeps (Reachable vocab)
              (updateSlice id (Slice.add token.word token.topic 1)) :=
            fun store reached => reached.count id _ _ ⟨by decide, by decide⟩
          have total : Update.Keeps (Reachable vocab) (updateSummary (Summary.add token.topic 1)) :=
            fun store reached => reached.total _ _
          have both := (row.bind fun _ => total) store reached
          simp only [Update.left, addToken, found] at both ⊢
          exact both

theorem reachable_ofDocuments {docs : List Document}
    (counted : ofDocuments vocab docs = .ok store) : Reachable vocab store := by
  have keeps := keeps_addTokens vocab vocab.words.size (docs.flatMap fun doc => doc.tokens.toList)
  rw [ofDocuments] at counted
  cases added : addTokens vocab.words.size (docs.flatMap fun doc => doc.tokens.toList)
    (ofVocabulary vocab) with
  | ok _ after =>
      rw [added] at counted
      exact Except.ok.inj counted ▸ keeps.of_ok .fresh added
  | error fault after =>
      rw [added] at counted
      cases counted

end Documents

/-- All that is done to a store is done by additions and by clearing. -/
theorem Worked.reachable (worked : Worked vocab store) : Reachable vocab store := by
  induction worked with
  | empty => exact .fresh
  | counted counted => exact reachable_ofDocuments vocab counted
  | row worked id word topic range ih => exact ih.count id word topic range
  | total worked topic delta ih => exact ih.total topic delta
  | @commit store worked id slice here change recording events view done ih =>
      have reaches := keeps_commit vocab store id change ⟨slice, store.summary, recording, events⟩
        (ih.reaches here)
      rw [done] at reaches
      exact reaches.2
  | @merge store worked id slice here log counts done ih =>
      have reaches := keeps_mergeInto vocab store id log (slice, store.summary) (ih.reaches here)
      rw [done] at reaches
      exact reaches.2
  | clear worked id ih => exact ih.clear id

theorem worked_rare :
    Worked (Vocabulary.slice ⟨0, 0⟩ ⟨12, #[⟨0, 1, .sparse 2, false⟩], #[⟨0, 0, 0, 0, 1⟩]⟩)
    ⟨#[⟨0, #[0], ⟨12, #[], #[.empty, .occupied 0 1], #[.sparse ⟨0, 2⟩ 0]⟩⟩],
        ⟨#[1, 0, 0, 0, 0, 0, 0, 0, 0, 0, 0, 0]⟩⟩ := by
  have counted :
      ofDocuments (Vocabulary.slice ⟨0, 0⟩ ⟨12, #[⟨0, 1, .sparse 2, false⟩], #[⟨0, 0, 0, 0, 1⟩]⟩)
      [⟨#[⟨0, 0⟩], 0⟩] =
        .ok ⟨#[⟨0, #[0], ⟨12, #[], #[.empty, .occupied 0 1], #[.sparse ⟨0, 2⟩ 0]⟩⟩],
        ⟨#[1, 0, 0, 0, 0, 0, 0, 0, 0, 0, 0, 0]⟩⟩ := by
    decide +kernel
  exact .counted counted

end Store

theorem Vocabulary.ofFrequencies_rare : ofFrequencies [(0, 1)] 12 2 =
    .ok ⟨12, #[⟨0, 1, .sparse 2, false⟩], #[⟨0, 0, 0, 0, 1⟩]⟩ := by
  cbv

end LatentTopics
