import Mathlib
import LatentTopics.Proofs.Engine.Pauses
import LatentTopics.Proofs.Engine.Turns

/-! A pass over one slice. Both ways of making it, in place and by overlays, come to the same: every
document is swept, and the slice and the totals count the documents as they are then. -/
namespace LatentTopics

namespace Engine

structure Passed (numTopics id : Nat) (entry : SliceMeta) (slice : Slice)
    (before after : Engine) : Prop where
  settings : after.settings = before.settings
  vocab : after.vocab = before.vocab
  iteration : after.iteration = before.iteration
  samplers : after.samplers.size = before.samplers.size
  ready : ∀ sampler ∈ after.samplers, sampler.Ready numTopics
  docs : List.Forall₂ (Document.Swept numTopics entry) before.block.docs.toList
    after.block.docs.toList
  store : ∃ slice' summary', after.store = ⟨before.store.slices.setIfInBounds id slice', summary'⟩ ∧
    Counted slice' summary' before.vocab.frequency (Tokens.ofDocs after.block.docs.toList) ∧
      slice.SameShape slice' ∧
    summary'.numTopics = before.store.summary.numTopics
  foreign : ∀ token : Token, token.word ∉ slice.words →
    (Tokens.ofDocs after.block.docs.toList).count token =
      (Tokens.ofDocs before.block.docs.toList).count token

section Pass

variable {engine : Engine} {id : Nat} {entry : SliceMeta} {slice : Slice} {proposals : AliasSlice}

theorem sampleInPlace_passed (here : engine.store.slices[id]? = some slice)
    (legal : proposals.Legal engine.store.summary.numTopics)
    (counted : Counted slice engine.store.summary engine.vocab.frequency
      (Tokens.ofDocs engine.block.docs.toList))
    (waits : ∀ doc ∈ engine.block.docs.toList, doc.Waits slice.words engine.store.summary.numTopics
      entry) {sampler : Sampler}
    (lone : engine.samplers.size = 1) (ready : sampler.Ready engine.store.summary.numTopics) :
    ∃ after, sampleInPlace entry proposals id sampler engine = .ok () after ∧
      Passed engine.store.summary.numTopics id entry slice engine after := by
  obtain ⟨settings, vocab, ⟨slices, summary⟩, ⟨docs⟩, samplers, iteration⟩ := engine
  dsimp only at here legal counted waits lone ready ⊢
  obtain ⟨inside, rfl⟩ := Array.getElem?_eq_some_iff.mp here
  have serves := InPlace.serves slices[id] summary vocab.frequency (Tokens.ofDocs docs.toList)
  have held := InPlace.start_holds counted false
  have heldAll : InPlace.Holds slices[id] summary vocab.frequency (Tokens.ofDocs docs.toList)
      (Tokens.ofDocs docs.toList + 0) (InPlace.start slices[id] summary false) := by
    rwa [add_zero]
  have reach : docs.toList.length ≤ docs.size := Array.length_toList.le
  obtain ⟨sampler', done, model, visited, readyAfter, swept, heldAfter⟩ :=
    Shift.visitDocs_ok serves legal entry []
    docs.toList [] reach (Or.inl rfl) ready heldAll waits
  rw [add_zero] at heldAfter
  simp only [List.nil_append, List.append_nil, Array.toArray_toList, List.length_nil] at visited
  refine ⟨⟨settings, vocab, ⟨slices.setIfInBounds id model.slice, model.summary⟩, ⟨done.toArray⟩,
    #[sampler'], iteration⟩, ?_, rfl, rfl, rfl, lone.symm, ?_, swept,
    ⟨_, _, rfl, heldAfter.counted, heldAfter.shape, heldAfter.numTopics⟩,
    heldAfter.foreign⟩
  · simp only [sampleInPlace, dif_pos inside, Array.swapAt, visited, Arrays.setIfInBounds_set]
  · intro other member
    obtain rfl : other = sampler' := by simpa using member
    exact readyAfter

theorem sampleByOverlays_passed (here : engine.store.slices[id]? = some slice)
    (legal : proposals.Legal engine.store.summary.numTopics)
    (counted : Counted slice engine.store.summary engine.vocab.frequency
      (Tokens.ofDocs engine.block.docs.toList))
    (waits : ∀ doc ∈ engine.block.docs.toList,
      doc.Waits slice.words engine.store.summary.numTopics entry)
    (some : 0 < engine.samplers.size)
    (ready : ∀ sampler ∈ engine.samplers, sampler.Ready engine.store.summary.numTopics) :
    ∃ after, sampleByOverlays entry proposals id engine = .ok () after ∧
      Passed engine.store.summary.numTopics id entry slice engine after := by
  obtain ⟨settings, vocab, ⟨slices, summary⟩, ⟨docs⟩, samplers, iteration⟩ := engine
  dsimp only at here legal counted waits some ready ⊢
  have own : slices.getD id default = slice := Arrays.getD_of_getElem? here default
  have enough := le_mul_chunkSize docs.size some
  rw [← Array.length_toList] at enough
  have tallies : slice.Tallies vocab.frequency (Tokens.ofDocs docs.toList + 0) := by
    rw [add_zero]
    exact counted.rows
  have place : ([] : List Document).length = 0 * chunkSize docs.toList.length samplers.size :=
    (Nat.zero_mul _).symm
  obtain ⟨shares, samplers', done, passed, size, readyAfter, swept, turned, befores, afters⟩ :=
    overlayPass_ok legal
    entry samplers.size (Or.inl place) enough tallies waits [] (Nat.zero_add _).symm ready
  rw [← befores, ← add_zero (Share.befores shares)] at counted
  obtain ⟨slice', summary', merged, countedAfter, shape, sameSize⟩ :=
    counted.mergeLogs shares turned
  rw [add_zero, afters] at countedAfter
  simp only [List.nil_append, Array.toArray_toList, Array.length_toList, List.reverse_nil] at passed
  refine ⟨⟨settings, vocab, ⟨slices.setIfInBounds id slice', summary'⟩, ⟨done.toArray⟩,
    samplers', iteration⟩, ?_, rfl, rfl, rfl, size, readyAfter, swept,
    ⟨_, _, rfl, countedAfter, shape, sameSize⟩, ?_⟩
  · simp only [sampleByOverlays, own, passed, merged]
  · intro token missing
    have same := Share.count_afters turned missing
    rwa [afters, befores] at same

end Pass

end Engine

end LatentTopics
