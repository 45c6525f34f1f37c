import Mathlib
import LatentTopics.Proofs.Engine.Shifts

/-! The workers' turns. Each takes the next run of documents on
an overlay of its own, and the runs are all of the documents. -/
namespace LatentTopics.Engine

theorem le_mul_chunkSize (docs : Nat) {workers : Nat} (positive : 0 < workers) :
    docs ≤ workers * chunkSize docs workers := by
  have divided := Nat.div_add_mod (docs + workers - 1) workers
  have remainder := Nat.mod_lt (docs + workers - 1) positive
  have least : workers * ((docs + workers - 1) / workers) ≤ workers * chunkSize docs workers :=
    Nat.mul_le_mul_left workers (le_max_left _ _)
  omega

/-- Shares that lead between them from documents to these documents swept. -/
structure Shared (words : Array Nat) (numTopics : Nat) (entry : SliceMeta)
    (todo done : List Document) (shares : List Share) : Prop where
  swept : List.Forall₂ (Document.Swept numTopics entry) todo done
  turned : ∀ share ∈ shares, share.Turned words numTopics
  befores : Share.befores shares = Tokens.ofDocs todo
  afters : Share.afters shares = Tokens.ofDocs done

theorem shared_nil (words : Array Nat) (numTopics : Nat) (entry : SliceMeta) :
    Shared words numTopics entry [] [] [] :=
  ⟨.nil, fun _ member => absurd member List.not_mem_nil, rfl, rfl⟩

theorem Shared.cons {words : Array Nat} {numTopics : Nat} {entry : SliceMeta}
    {mine done todo after : List Document} {log : DeltaLog} {shares : List Share}
    (shared : Shared words numTopics entry todo after shares)
    (swept : List.Forall₂ (Document.Swept numTopics entry) mine done)
    (turned : (⟨Tokens.ofDocs mine, Tokens.ofDocs done, log⟩ : Share).Turned words numTopics) :
    Shared words numTopics entry (mine ++ todo) (done ++ after)
        (⟨Tokens.ofDocs mine, Tokens.ofDocs done, log⟩ :: shares) := by
  refine ⟨List.rel_append swept shared.swept, ?_, ?_, ?_⟩
  · intro share member
    rcases List.mem_cons.mp member with rfl | later
    · exact turned
    · exact shared.turned share later
  · rw [Share.befores, List.map_cons, List.sum_cons, ← Share.befores, shared.befores,
      ← Tokens.ofDocs_append]
  · rw [Share.afters, List.map_cons, List.sum_cons, ← Share.afters, shared.afters,
      ← Tokens.ofDocs_append]

/-- The documents that are left begin at an index, unless none are left. -/
def Begins (front todo : List Document) (index : Nat) : Prop :=
  front.length = index ∨ front.length ≤ index ∧ todo = []

theorem Begins.next {front todo done : List Document} {worker chunk : Nat}
    (begins : Begins front todo (worker * chunk))
    (length : done.length = (todo.take chunk).length) :
    Begins (front ++ done) (todo.drop chunk) ((worker + 1) * chunk) := by
  rw [List.length_take] at length
  rw [Begins, List.length_append, Nat.succ_mul, List.drop_eq_nil_iff]
  rcases begins with same | ⟨beyond, rfl⟩
  · omega
  · rw [List.length_nil] at length ⊢
    omega

variable {slice : Slice} {summary : Summary} {limit : Nat → Nat} {others : Multiset Token}

theorem turn_ok {proposals : AliasSlice} (legal : proposals.Legal summary.numTopics)
    (entry : SliceMeta) (chunk : Nat) {front todo : List Document} {index : Nat}
    (begins : Begins front todo index)
    (tallies : slice.Tallies limit (Tokens.ofDocs (todo.take chunk) + others)) {sampler : Sampler}
    (ready : sampler.Ready summary.numTopics)
    (waits : ∀ doc ∈ todo, doc.Waits slice.words summary.numTopics entry) :
    ∃ sampler' done view, Shift.visitDocs (Sampler.sampleDoc entry proposals) chunk index
        ⟨sampler, (front ++ todo).toArray, Overlay.start slice summary⟩ =
          .ok () ⟨sampler', (front ++ (done ++ todo.drop chunk)).toArray, view⟩ ∧
      sampler'.Ready summary.numTopics ∧ List.Forall₂ (Document.Swept summary.numTopics entry)
        (todo.take chunk) done ∧
      (⟨Tokens.ofDocs (todo.take chunk), Tokens.ofDocs done, view.log⟩ : Share).Turned slice.words
        summary.numTopics := by
  have held := Overlay.start_holds slice summary (Tokens.ofDocs (todo.take chunk))
  have serves : Serves slice.words summary.numTopics
      (Overlay.Holds slice summary (Tokens.ofDocs (todo.take chunk))) :=
    Overlay.serves tallies summary
  rcases begins with rfl | ⟨beyond, rfl⟩
  · have stop : todo.drop chunk = [] ∨ chunk = (todo.take chunk).length := by
      rw [List.drop_eq_nil_iff, List.length_take]
      omega
    have wait : ∀ doc ∈ todo.take chunk, doc.Waits slice.words summary.numTopics entry :=
      fun doc member => waits doc (List.mem_of_mem_take member)
    have heldAll : Overlay.Holds slice summary (Tokens.ofDocs (todo.take chunk))
        (Tokens.ofDocs (todo.take chunk) + 0)
        (Overlay.start slice summary) := by
      rwa [add_zero]
    obtain ⟨sampler', done, view, visited, readyAfter, swept, heldAfter⟩ :=
      Shift.visitDocs_ok serves legal entry front
      (todo.take chunk) (todo.drop chunk) (List.length_take_le chunk todo) stop ready heldAll wait
    rw [List.take_append_drop] at visited
    rw [add_zero] at heldAfter
    exact ⟨sampler', done, view, visited, readyAfter, swept, heldAfter.turned⟩
  · -- A worker beyond the last document has nothing to do.
    rw [List.take_nil] at held ⊢
    refine ⟨sampler, [], Overlay.start slice summary, ?_, ready, .nil, held.turned⟩
    simp only [List.drop_nil, List.append_nil]
    apply Shift.visitDocs_beyond
    simpa using beyond

theorem overlayPass_ok {proposals : AliasSlice} (legal : proposals.Legal summary.numTopics)
    (entry : SliceMeta) {chunk : Nat} (count : Nat) {worker : Nat} {front todo : List Document}
    (begins : Begins front todo (worker * chunk)) (enough : todo.length ≤ count * chunk)
    (tallies : slice.Tallies limit (Tokens.ofDocs todo + others))
    (waits : ∀ doc ∈ todo, doc.Waits slice.words summary.numTopics entry) (logs : List DeltaLog)
    {samplers : Array Sampler} (size : samplers.size = worker + count)
    (ready : ∀ sampler ∈ samplers, sampler.Ready summary.numTopics) :
    ∃ shares samplers' done, overlayPass entry proposals slice summary chunk count worker logs
        (samplers, (front ++ todo).toArray) = .ok (logs.reverse ++ shares.map Share.log) (samplers',
          (front ++ done).toArray) ∧
      samplers'.size = samplers.size ∧ (∀ sampler ∈ samplers', sampler.Ready summary.numTopics) ∧
      Shared slice.words summary.numTopics entry todo done shares := by
  induction count generalizing worker front todo others logs samplers with
  | zero =>
      obtain rfl : todo = [] := List.eq_nil_of_length_eq_zero (by omega)
      refine ⟨[], samplers, [], ?_, rfl, ready, shared_nil _ _ _⟩
      rw [overlayPass, List.map_nil, List.append_nil, List.append_nil]
  | succ count ih =>
      have inside : worker < samplers.size := by omega
      have here := Array.getElem?_eq_getElem inside
      have split := List.take_append_drop chunk todo
      have part : Tokens.ofDocs todo + others =
          Tokens.ofDocs (todo.take chunk) + (Tokens.ofDocs (todo.drop chunk) + others) := by
        rw [← add_assoc, ← Tokens.ofDocs_append, split]
      rw [part] at tallies
      obtain ⟨sampler, done, view, visited, readyOne, swept, turned⟩ :=
        turn_ok legal entry chunk begins tallies (ready _ (Array.getElem_mem inside)) waits
      -- To the later workers the documents of this one are others, which stay as they were.
      rw [add_left_comm] at tallies
      have few : (todo.drop chunk).length ≤ count * chunk := by
        rw [List.length_drop]
        rw [Nat.succ_mul] at enough
        omega
      have readyNext : ∀ other ∈ samplers.setIfInBounds worker sampler,
          other.Ready summary.numTopics := by
        intro other member
        rcases Array.mem_or_eq_of_mem_setIfInBounds member with old | rfl
        · exact ready other old
        · exact readyOne
      obtain ⟨shares, samplers', doneRest, passed, sizeRest, readyRest, shared⟩ :=
        ih (begins.next swept.length_eq.symm) few
        tallies (fun doc member => waits doc (List.mem_of_mem_drop member)) (view.log :: logs)
        (by rw [Array.size_setIfInBounds]; omega) readyNext
      refine ⟨⟨Tokens.ofDocs (todo.take chunk), Tokens.ofDocs done, view.log⟩ :: shares, samplers',
        done ++ doneRest, ?_, ?_, readyRest, ?_⟩
      · simp only [overlayPass, here, visited]
        rw [List.reverse_cons, List.append_assoc, List.append_assoc, List.append_assoc] at passed
        exact passed
      · rw [sizeRest, Array.size_setIfInBounds]
      · have whole := shared.cons swept turned
        rwa [split] at whole

end LatentTopics.Engine
