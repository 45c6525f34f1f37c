import Mathlib
import LatentTopics.Engine.Pass
import LatentTopics.Proofs.Sampler.Serving

/-! A worker's way through its documents. Every document is
swept in its place, and the others stay as they are. -/
namespace LatentTopics

namespace Shift

variable {M : Type}

theorem visitDoc_ok {step : Update (Sampler.Bench M) Nat} {sampler : Sampler}
    {front back : List Document} {doc : Document} {model : M} {visited : Nat}
    {after : Sampler.Bench M} (stepped : step ⟨sampler, doc, model⟩ = .ok visited after) :
    visitDoc step front.length ⟨sampler, (front ++ doc :: back).toArray, model⟩ =
      .ok () ⟨after.sampler, (front ++ after.doc :: back).toArray, after.model⟩ := by
  have inside : front.length < (front ++ doc :: back).toArray.size := by simp
  simp only [visitDoc, dif_pos inside, Array.swapAt, List.getElem_toArray,
    List.getElem_append_right (Nat.le_refl _), Nat.sub_self, List.getElem_cons_zero, stepped,
    Arrays.setIfInBounds_set]
  simp

theorem visitDoc_beyond (step : Update (Sampler.Bench M) Nat) {index : Nat} {shift : Shift M}
    (beyond : shift.docs.size ≤ index) : visitDoc step index shift = .ok () shift := by
  obtain ⟨sampler, docs, model⟩ := shift
  exact dif_neg (not_lt.mpr beyond)

theorem visitDocs_beyond (step : Update (Sampler.Bench M) Nat) (count : Nat) {index : Nat}
    {shift : Shift M} (beyond : shift.docs.size ≤ index) :
    visitDocs step count index shift = .ok () shift := by
  induction count generalizing index with
  | zero => rfl
  | succ count ih =>
      rw [visitDocs, visitDoc_beyond step beyond]
      exact ih (Nat.le_succ_of_le beyond)

variable [TopicCounts M] {words : Array Nat} {numTopics : Nat} {holds : Multiset Token → M → Prop}
  {others : Multiset Token}

/-- The documents from an index on, as many as the worker takes, or all that are left. -/
theorem visitDocs_ok (serves : Serves words numTopics holds) {proposals : AliasSlice}
    (legal : proposals.Legal numTopics) (entry : SliceMeta) (front todo back : List Document)
    {count : Nat} (reach : todo.length ≤ count) (stop : back = [] ∨ count = todo.length)
    {sampler : Sampler} (ready : sampler.Ready numTopics) {model : M}
    (held : holds (Tokens.ofDocs todo + others) model)
    (waits : ∀ doc ∈ todo, doc.Waits words numTopics entry) :
    ∃ sampler' done model', visitDocs (Sampler.sampleDoc entry proposals) count front.length
        ⟨sampler, (front ++ (todo ++ back)).toArray, model⟩ = .ok () ⟨sampler',
          (front ++ (done ++ back)).toArray, model'⟩ ∧
      sampler'.Ready numTopics ∧ List.Forall₂ (Document.Swept numTopics entry) todo done ∧
      holds (Tokens.ofDocs done + others) model' := by
  induction todo generalizing front count sampler model others with
  | nil =>
      refine ⟨sampler, [], model, ?_, ready, .nil, held⟩
      rcases stop with rfl | rfl
      · apply visitDocs_beyond
        simp
      · rfl
  | cons doc todo ih =>
      cases count with
      | zero => cases reach
      | succ count =>
          rw [List.length_cons] at reach stop
          rw [Tokens.ofDocs_cons, add_assoc] at held
          obtain ⟨visited, ⟨next, swept, between⟩, sampled, readyNext, own, heldNext⟩ :=
            Sampler.sweep_ok serves legal
            Sampler.trainingRule entry ready (waits doc List.mem_cons_self) held
          -- While the document was swept the ones behind it
          -- counted as others; now it is one of the others itself.
          have moved : (swept.tokens.toList : Multiset Token) + (Tokens.ofDocs todo + others) =
              Tokens.ofDocs todo + (swept.tokens.toList + others) := add_left_comm _ _ _
          dsimp only at readyNext own heldNext
          rw [moved] at heldNext
          obtain ⟨sampler', done, model', visitedRest, readyRest, sweptRest, heldRest⟩ :=
            ih (front ++ [swept])
            (Nat.le_of_succ_le_succ reach) (stop.imp_right Nat.succ.inj) readyNext heldNext
            (fun other later => waits other (List.mem_cons_of_mem _ later))
          refine ⟨sampler', swept :: done, model', ?_, readyRest, .cons own sweptRest, ?_⟩
          · have stepped : Sampler.sampleDoc entry proposals ⟨sampler, doc, model⟩ =
                .ok visited ⟨next, swept, between⟩ := sampled
            rw [List.length_append, List.length_singleton, List.append_assoc,
              List.append_assoc] at visitedRest
            rw [visitDocs, List.cons_append, visitDoc_ok stepped]
            exact visitedRest
          · rw [Tokens.ofDocs_cons, add_assoc, add_left_comm]
            exact heldRest

end Shift

end LatentTopics
