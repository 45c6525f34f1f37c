import Mathlib
import LatentTopics.Proofs.Corpus.Capacities
import LatentTopics.Proofs.Corpus.Changes
import LatentTopics.Proofs.Counts.Outcomes
import LatentTopics.Proofs.Sampler.Sweeps

/-! What a sweep leaves alone. Whatever is drawn and whatever fails, a
document keeps its words, its topics stay topics, and the tokens of words that
the sweep may not reach keep their topics; the sampler can be used again. -/
namespace LatentTopics

/-- A document before and after, when only tokens of free words may have got other topics. -/
structure Document.Framed (numTopics : Nat) (free : Nat → Prop)
    (before after : Document) : Prop where
  words : after.words = before.words
  topics : ∀ token ∈ after.tokens, token.topic < numTopics
  fixed : ∀ (position : Nat) (token : Token), before.tokens[position]? = some token →
    ¬ free token.word →
    after.tokens[position]? = some token

namespace Document

variable {numTopics : Nat} {free : Nat → Prop} {before after last : Document}

theorem framed_refl (topics : ∀ token ∈ before.tokens, token.topic < numTopics) :
    before.Framed numTopics free before :=
  ⟨rfl, topics, fun _ _ here _ => here⟩

theorem Framed.of_tokens (framed : before.Framed numTopics free after)
    (same : last.tokens = after.tokens) :
    before.Framed numTopics free last := by
  refine ⟨?_, same ▸ framed.topics, same ▸ framed.fixed⟩
  rw [Document.words, same]
  exact framed.words

theorem Framed.setTopic (framed : before.Framed numTopics free after) {index topic : Nat}
    (own : ∀ word, before.words[index]? = some word → free word) (below : topic < numTopics) :
    before.Framed numTopics free (after.setTopic index topic) := by
  refine ⟨(after.words_setTopic index topic).trans framed.words, ?_, ?_⟩
  · intro token member
    rcases mem_setTopic member with old | rfl
    · exact framed.topics token old
    · exact below
  · intro position token here fixed
    have different : position ≠ index := by
      rintro rfl
      apply fixed (own token.word _)
      rw [Document.words, Array.getElem?_map, here, Option.map_some]
    rw [getElem?_setTopic_ne after topic different]
    exact framed.fixed position token here fixed

end Document

namespace Sampler

variable {M : Type}

structure Bench.Framed (numTopics : Nat) (free : Nat → Prop) (before : Document) (holds : M → Prop)
    (bench : Bench M) : Prop where
  sampler : bench.sampler.Ready numTopics
  doc : before.Framed numTopics free bench.doc
  model : holds bench.model

variable {numTopics : Nat} {free : Nat → Prop} {before : Document} {holds : M → Prop}

theorem Bench.Framed.size {bench : Bench M} (framed : bench.Framed numTopics free before holds) :
    bench.doc.size = before.size := by
  rw [← bench.doc.size_words, framed.doc.words, before.size_words]

theorem left_runCommit (commit : Change → Update M Unit) (change : Change) (bench : Bench M) :
    Update.left (runCommit commit change) bench =
        { bench with model := Update.left (commit change) bench.model } := by
  simp only [Update.left, runCommit]
  cases commit change bench.model <;> rfl

theorem left_moveInCounter (topic : Nat) (delta : Int) (bench : Bench M) :
    Update.left (moveInCounter topic delta) bench = { bench with sampler := { bench.sampler with
      counter := Update.left (TopicCounter.add topic delta) bench.sampler.counter } } := by
  simp only [Update.left, moveInCounter]
  cases TopicCounter.add topic delta bench.sampler.counter <;> rfl

theorem left_recount (bench : Bench M) :
    Update.left recount bench = { bench with sampler := { bench.sampler with
      counter := Update.left (TopicCounter.rebuild bench.doc bench.sampler.numTopics)
        bench.sampler.counter } } := by
  simp only [Update.left, recount]
  cases TopicCounter.rebuild bench.doc bench.sampler.numTopics bench.sampler.counter <;> rfl

theorem keeps_runCommit {commit : Change → Update M Unit} {change : Change}
    (keeps : Update.Keeps holds (commit change)) :
    Update.Keeps (Bench.Framed numTopics free before holds) (runCommit commit change) := by
  intro bench framed
  rw [left_runCommit]
  exact ⟨framed.sampler, framed.doc, keeps bench.model framed.model⟩

theorem keeps_moveInCounter (topic : Nat) (delta : Int) :
    Update.Keeps (Bench.Framed numTopics free before holds) (moveInCounter topic delta) := by
  intro bench framed
  have same := TopicCounter.keeps_capacity topic delta _ bench.sampler.counter rfl
  rw [left_moveInCounter]
  exact ⟨⟨framed.sampler.numTopics, same.symm ▸ framed.sampler.power⟩, framed.doc, framed.model⟩

theorem keeps_writeTopic {index topic : Nat}
    (own : ∀ word, before.words[index]? = some word → free word) (below : topic < numTopics) :
    Update.Keeps (Bench.Framed numTopics free before holds) (writeTopic index topic) := by
  rintro ⟨sampler, doc, model⟩ ⟨⟨same, power⟩, framed, held⟩
  exact ⟨⟨same, power⟩, framed.setTopic own below, held⟩

theorem keeps_applyChange {commit : Change → Update M Unit}
    (lasting : Lasting numTopics commit holds) {index : Nat} (change : Change)
    (own : ∀ word, before.words[index]? = some word → free word) (old : change.old < numTopics)
    (new : change.new < numTopics) :
    Update.Keeps (Bench.Framed numTopics free before holds) (applyChange commit index change) :=
  (keeps_runCommit (lasting change old new)).bind fun _ => (keeps_moveInCounter _ _).bind fun _ =>
    (keeps_moveInCounter _ _).bind fun _ => keeps_writeTopic own new

variable {commit : Change → Update M Unit} {proposals : AliasSlice}

theorem Bench.Framed.visit (lasting : Lasting numTopics commit holds)
    (legal : proposals.Legal numTopics)
    (rule : Priors Float → TopicCounter → M → Nat → Nat → MoveRule) {bench : Bench M}
    (framed : bench.Framed numTopics free before holds) {index : Nat} {token : Token}
    (here : bench.doc.tokens[index]? = some token) (own : free token.word) :
    (Update.left (Sampler.visit rule commit proposals index token) bench).Framed numTopics free
        before holds := by
  obtain ⟨drawn, drew, outcome⟩ :=
    visit_cases commit legal rule framed.sampler framed.doc.topics here
  have redrawn : drawn.Framed numTopics free before holds :=
    ⟨drew.sampler framed.sampler, drew.doc.symm ▸ framed.doc, drew.model.symm ▸ framed.model⟩
  rcases outcome with stays | ⟨topic, below, _, visited⟩
  · rw [Update.left_of_ok stays]
    exact redrawn
  · have old : token.topic < numTopics := framed.doc.topics token (Array.mem_of_getElem? here)
    have word : ∀ word, before.words[index]? = some word → free word := by
      intro word there
      rw [← framed.doc.words, Document.words, Array.getElem?_map, here] at there
      exact Option.some.inj there ▸ own
    rw [Update.left, visited]
    exact keeps_applyChange lasting ⟨token.word, token.topic, topic⟩ word old below drawn redrawn

theorem keeps_visitFrom (lasting : Lasting numTopics commit holds)
    (legal : proposals.Legal numTopics)
    (rule : Priors Float → TopicCounter → M → Nat → Nat → MoveRule) {lastWord : Nat}
    (reach : ∀ word ≤ lastWord, free word) (count : Nat) {index : Nat}
    (within : index + count ≤ before.size) :
    Update.Keeps (Bench.Framed numTopics free before holds)
        (visitFrom rule commit proposals lastWord count index) := by
  induction count generalizing index with
  | zero => exact fun bench framed => framed
  | succ count ih =>
      intro bench framed
      have inside : index < bench.doc.size := by
        rw [framed.size]
        omega
      have here := Array.getElem?_eq_getElem inside
      have token : bench.doc.tokens.getD index default = bench.doc.tokens[index] :=
        Arrays.getD_of_getElem? here default
      by_cases beyond : lastWord < bench.doc.tokens[index].word
      · simp only [Update.left, visitFrom, token, if_pos beyond]
        exact framed
      · have after := framed.visit lasting legal rule here (reach _ (not_lt.mp beyond))
        cases visited : visit rule commit proposals index bench.doc.tokens[index] bench with
        | ok _ between =>
            rw [Update.left_of_ok visited] at after
            have rest := ih (show index + 1 + count ≤ before.size by omega) between after
            simp only [Update.left, visitFrom, token, if_neg beyond, visited] at rest ⊢
            exact rest
        | error fault between =>
            rw [Update.left_of_error visited] at after
            simp only [Update.left, visitFrom, token, if_neg beyond, visited]
            exact after

theorem keeps_recount : Update.Keeps (Bench.Framed numTopics free before holds) recount := by
  intro bench framed
  have power := TopicCounter.keeps_power bench.doc bench.sampler.numTopics bench.sampler.counter
    framed.sampler.power
  rw [left_recount]
  exact ⟨⟨framed.sampler.numTopics, power⟩, framed.doc, framed.model⟩

/-- A sweep over a slice may change tokens of words up to the last one of the slice. -/
theorem keeps_sweep (lasting : Lasting numTopics commit holds) (legal : proposals.Legal numTopics)
    (rule : Priors Float → TopicCounter → M → Nat → Nat → MoveRule) {entry : SliceMeta}
    (reach : ∀ word ≤ entry.lastWord, free word) :
    Update.Keeps (Bench.Framed numTopics free before holds)
        (sweep rule commit entry proposals) := by
  rintro ⟨sampler, doc, model⟩ ⟨ready, framed, held⟩
  have opened : Bench.Framed numTopics free before holds (rewind entry ⟨sampler, doc, model⟩) := by
    rw [rewind_eq]
    exact ⟨ready, framed.of_tokens rfl, held⟩
  cases counted : recount (rewind entry ⟨sampler, doc, model⟩) with
  | error fault bench =>
      simp only [Update.left, sweep, counted]
      exact keeps_recount.of_error opened counted
  | ok _ bench =>
      have framedBench := keeps_recount.of_ok opened counted
      have keeps : Update.Keeps (Bench.Framed numTopics free before holds)
          (visitFrom rule commit proposals entry.lastWord (bench.doc.size - bench.doc.cursor)
            bench.doc.cursor) := by
        have size := framedBench.size
        by_cases within : bench.doc.cursor ≤ bench.doc.size
        · exact keeps_visitFrom lasting legal rule reach _ (by omega)
        · -- With its cursor beyond the end a document has no token to visit.
          rw [Nat.sub_eq_zero_of_le (by omega)]
          exact fun bench framed => framed
      cases visited : visitFrom rule commit proposals entry.lastWord
        (bench.doc.size - bench.doc.cursor) bench.doc.cursor bench with
      | error fault after =>
          simp only [Update.left, sweep, counted, visited]
          exact keeps.of_error framedBench visited
      | ok next after =>
          obtain ⟨⟨same, power⟩, framedDoc, heldAfter⟩ := keeps.of_ok framedBench visited
          simp only [Update.left, sweep, counted, visited]
          exact ⟨⟨same, power⟩, framedDoc.of_tokens rfl, heldAfter⟩

end Sampler

end LatentTopics
