import Mathlib
import LatentTopics.Proofs.Engine.Completion
import LatentTopics.Proofs.Sampler.Moments

/-! Every evaluation of a run. The documents of a worker stay counted in its view through all of its
turn, so that at every visit the counts cover the token that is resampled. -/
namespace LatentTopics

namespace Shift

variable {M : Type} {words : Array Nat} {numTopics : Nat} {holds : Multiset Token → M → Prop}
  {entry : SliceMeta}
  {proposals : AliasSlice} {index stop : Nat} {shift after : Shift M}

def ahead (index stop : Nat) (docs : Array Document) : List Document :=
  (docs.toList.drop index).take (stop - index)

theorem ahead_cons {docs : Array Document} {doc : Document} (here : docs[index]? = some doc)
    (below : index < stop) :
    ahead index stop docs = doc :: ahead (index + 1) stop docs := by
  have inside : index < docs.toList.length := by
    rw [Array.length_toList]
    exact (Array.getElem?_eq_some_iff.mp here).1
  have count : stop - index = stop - (index + 1) + 1 := by omega
  rw [← Array.getElem?_toList, List.getElem?_eq_getElem inside] at here
  rw [ahead, List.drop_eq_getElem_cons inside, count, List.take_succ_cons, Option.some.inj here]
  rfl

theorem ahead_setIfInBounds (docs : Array Document) (doc : Document) :
    ahead (index + 1) stop (docs.setIfInBounds index doc) = ahead (index + 1) stop docs := by
  rw [ahead, ahead, Array.toList_setIfInBounds, List.drop_set_of_lt (Nat.lt_succ_self index)]

theorem ahead_beyond {docs : Array Document} (beyond : docs.size ≤ index) :
    ahead index stop docs = [] := by
  rw [ahead, List.drop_of_length_le (by rwa [Array.length_toList]), List.take_nil]

variable [TopicCounts M]

/-- A worker whose model holds the documents ahead, which wait for the slice. -/
structure Steady (words : Array Nat) (numTopics : Nat) (holds : Multiset Token → M → Prop)
    (entry : SliceMeta) (stop index : Nat) (shift : Shift M) : Prop where
  ready : shift.sampler.Ready numTopics
  waits : ∀ doc ∈ ahead index stop shift.docs, doc.Waits words numTopics entry
  held : ∃ others, holds (Tokens.ofDocs (ahead index stop shift.docs) + others) shift.model

theorem Steady.next (serves : Serves words numTopics holds) (legal : proposals.Legal numTopics)
    (steady : Steady words numTopics holds entry stop index shift) (below : index < stop)
    (done : visitDoc (Sampler.sampleDoc entry proposals) index shift = .ok () after) :
    Steady words numTopics holds entry stop (index + 1) after := by
  obtain ⟨ready, waits, others, held⟩ := steady
  rcases visitDoc_cases done with ⟨beyond, rfl⟩ | ⟨doc, visited, bench, here, swept, rfl⟩
  · rw [ahead_beyond beyond] at waits held
    have still : ahead (index + 1) stop after.docs = [] := ahead_beyond (Nat.le_succ_of_le beyond)
    exact ⟨ready, still.symm ▸ waits, others, still.symm ▸ held⟩
  · rw [ahead_cons here below] at waits held
    rw [Tokens.ofDocs_cons, add_assoc] at held
    obtain ⟨_, bench', again, readyAfter, _, heldAfter⟩ :=
      Sampler.sweep_ok serves legal Sampler.trainingRule entry ready
      (waits doc List.mem_cons_self) held
    have same : Sampler.sampleDoc entry proposals ⟨shift.sampler, doc, shift.model⟩ =
        .ok _ bench' := again
    rw [swept] at same
    cases same
    refine ⟨readyAfter, ?_, bench.doc.tokens.toList + others, ?_⟩
    · rw [ahead_setIfInBounds]
      exact fun later member => waits later (List.mem_cons_of_mem doc member)
    · rw [ahead_setIfInBounds, add_left_comm]
      exact heldAfter

theorem Steady.turns_covered (serves : Serves words numTopics holds) (covers : Covers words holds)
    (legal : proposals.Legal numTopics) {count : Nat}
    (steady : Steady words numTopics holds entry (index + count) index shift) (worker : Nat) :
    ∀ turn ∈ turns entry proposals worker count index shift, ∀ visit ∈ turn.visits, ∃ token,
        visit.Covered token := by
  intro turn member
  rw [turns_eq_course] at member
  obtain ⟨⟨document, now⟩, listed, made⟩ := List.mem_filterMap.mp member
  obtain ⟨doc, here, rfl⟩ := Option.map_eq_some_iff.mp made
  obtain ⟨_, below, _, ready, waits, others, held⟩ := Update.course_kept _ steady
    (fun number state after _ below steady _ visited =>
      steady.next serves legal below visited) _ listed
  rw [ahead_cons here below] at waits held
  rw [Tokens.ofDocs_cons, add_assoc] at held
  exact Sampler.visits_covered serves covers legal entry ready (waits doc List.mem_cons_self) held

theorem Steady.visitDocs (serves : Serves words numTopics holds) (legal : proposals.Legal numTopics)
    {count : Nat} (steady : Steady words numTopics holds entry (index + count) index shift)
    (done : visitDocs (Sampler.sampleDoc entry proposals) count index shift = .ok () after) :
    after.sampler.Ready numTopics ∧
      after.docs.toList.drop (index + count) = shift.docs.toList.drop (index + count) := by
  let P : Nat → Shift M → Prop := fun number now =>
    Steady words numTopics holds entry (index + count) number now ∧
      now.docs.toList.drop (index + count) = shift.docs.toList.drop (index + count)
  have kept : ∀ (number : Nat) (now after : Shift M), index ≤ number → number < index + count →
      P number now →
      Update.never number now = false → visitDoc (Sampler.sampleDoc entry proposals) number now =
        .ok () after →
      P (number + 1) after := by
    rintro number now after _ below ⟨steady, same⟩ _ visited
    refine ⟨steady.next serves legal below visited, ?_⟩
    rcases visitDoc_cases visited with ⟨_, rfl⟩ | ⟨doc, _, bench, _, _, rfl⟩
    · exact same
    · rw [Array.toList_setIfInBounds, List.drop_set_of_lt below, same]
  obtain ⟨_, _, _, steadyAfter, same⟩ :=
    Update.steps_kept _ ⟨steady, rfl⟩ kept (steps_of_visitDocs done)
  exact ⟨steadyAfter.ready, same⟩

end Shift

namespace Engine

section Turns

variable {slice : Slice} {summary : Summary} {limit : Nat → Nat} {entry : SliceMeta}
  {proposals : AliasSlice}
  {docs : Array Document} {samplers : Array Sampler} {chunk worker : Nat}

/-- Before the turn of a worker: the documents from its own
on are as they were when the pass began. -/
structure Awaits (numTopics chunk : Nat) (given : Array Document) (worker : Nat)
    (state : Array Sampler × Array Document) : Prop where
  ready : ∀ sampler ∈ state.1, sampler.Ready numTopics
  docs : state.2.toList.drop (worker * chunk) = given.toList.drop (worker * chunk)

theorem Awaits.exists_others {state : Array Sampler × Array Document}
    (awaits : Awaits summary.numTopics chunk docs worker state)
    (counted : Counted slice summary limit (Tokens.ofDocs docs.toList)) :
    ∃ others, Counted slice summary limit
      (Tokens.ofDocs (Shift.ahead (worker * chunk) (worker * chunk + chunk) state.2) + others) := by
  let rest := docs.toList.drop (worker * chunk)
  have mine : Shift.ahead (worker * chunk) (worker * chunk + chunk) state.2 = rest.take chunk := by
    rw [Shift.ahead, awaits.docs, Nat.add_sub_cancel_left]
  refine ⟨Tokens.ofDocs (docs.toList.take (worker * chunk)) + Tokens.ofDocs (rest.drop chunk), ?_⟩
  rw [mine, add_left_comm, ← Tokens.ofDocs_append, List.take_append_drop, ← Tokens.ofDocs_append,
    List.take_append_drop]
  exact counted

theorem Awaits.steady {state : Array Sampler × Array Document}
    (awaits : Awaits summary.numTopics chunk docs worker state)
    (waits : ∀ doc ∈ docs.toList, doc.Waits slice.words summary.numTopics entry) {sampler : Sampler}
    (here : state.1[worker]? = some sampler) :
    Shift.Steady slice.words summary.numTopics
      (Overlay.Holds slice summary
        (Tokens.ofDocs (Shift.ahead (worker * chunk) (worker * chunk + chunk) state.2))) entry
      (worker * chunk + chunk) (worker * chunk) ⟨sampler, state.2,
        Overlay.start slice summary⟩ := by
  refine ⟨awaits.ready sampler (Array.mem_of_getElem? here), ?_, 0, ?_⟩
  · intro doc member
    rw [Shift.ahead, awaits.docs] at member
    exact waits doc (List.mem_of_mem_drop (List.mem_of_mem_take member))
  · rw [add_zero]
    exact Overlay.start_holds slice summary _

theorem Awaits.next {state next : Array Sampler × Array Document}
    (awaits : Awaits summary.numTopics chunk docs worker state)
    (legal : proposals.Legal summary.numTopics)
    (counted : Counted slice summary limit (Tokens.ofDocs docs.toList))
    (waits : ∀ doc ∈ docs.toList, doc.Waits slice.words summary.numTopics entry)
    (done : overlayTurn entry proposals slice summary chunk worker state = .ok () next) :
    Awaits summary.numTopics chunk docs (worker + 1) next := by
  obtain ⟨sampler, shift, here, visited, rfl⟩ := overlayTurn_cases done
  obtain ⟨others, countedHere⟩ := awaits.exists_others counted
  obtain ⟨ready, rest⟩ :=
    (awaits.steady waits here).visitDocs (Overlay.serves countedHere.rows summary) legal visited
  constructor
  · intro other member
    rcases Array.mem_or_eq_of_mem_setIfInBounds member with old | rfl
    · exact awaits.ready other old
    · exact ready
  · rw [Nat.succ_mul]
    dsimp only at rest ⊢
    rw [rest, ← List.drop_drop, awaits.docs, List.drop_drop]

theorem overlayTurns_covered (legal : proposals.Legal summary.numTopics)
    (counted : Counted slice summary limit (Tokens.ofDocs docs.toList))
    (waits : ∀ doc ∈ docs.toList, doc.Waits slice.words summary.numTopics entry)
    (ready : ∀ sampler ∈ samplers, sampler.Ready summary.numTopics) (chunk : Nat) :
    ∀ turn ∈ overlayTurns entry proposals slice summary chunk samplers docs, ∀ visit ∈ turn.visits,
      ∃ token, visit.Covered token := by
  intro turn member
  rw [overlayTurns_eq_course] at member
  obtain ⟨⟨worker, now, docsNow⟩, listed, mine⟩ := List.mem_flatMap.mp member
  obtain ⟨sampler, own, taken⟩ := List.mem_flatMap.mp mine
  have here : now[worker]? = some sampler := Option.mem_toList.mp own
  obtain ⟨_, _, _, awaits⟩ :=
    Update.course_kept (P := Awaits summary.numTopics chunk docs) _ ⟨ready, rfl⟩
    (fun number state after _ _ awaits _ turned => awaits.next legal counted waits turned) _ listed
  obtain ⟨others, countedHere⟩ := awaits.exists_others counted
  exact (awaits.steady waits here).turns_covered (Overlay.serves countedHere.rows summary)
    (Overlay.covers countedHere) legal
    worker turn taken

end Turns

variable {settings : Settings} {seed numTopics id : Nat} {given block : Block} {engine : Engine}

theorem Sound.sliceTurns_covered (sound : engine.Sound given numTopics id) :
    ∀ turn ∈ sliceTurns id engine, ∀ visit ∈ turn.visits, ∃ token, visit.Covered token := by
  intro turn member
  rw [sliceTurns] at member
  split at member
  · next entry slice there here =>
    have counted := sound.tallies.counted id slice here
    have shape := (sound.tallies.fits.shapes id slice entry here there).2
    have legal : (engine.proposalsOf entry slice).Legal engine.store.summary.numTopics :=
      counted.build_legal shape engine.settings.beta engine.settings.betaSum
    have waits := sound.waits here there
    have ready := sound.ready
    rw [← sound.total_numTopics] at waits ready
    dsimp only at member
    split at member
    · next sampler lone =>
      have whole : Shift.ahead 0 (0 + engine.block.docs.size) engine.block.docs =
          engine.block.docs.toList := by
        rw [Shift.ahead, List.drop_zero, Nat.zero_add, Nat.sub_zero, ← Array.length_toList,
          List.take_length]
      have steady : Shift.Steady slice.words engine.store.summary.numTopics
          (InPlace.Holds slice engine.store.summary engine.vocab.frequency
            (Tokens.ofDocs engine.block.docs.toList)) entry
          (0 + engine.block.docs.size) 0 ⟨sampler, engine.block.docs,
            InPlace.start slice engine.store.summary false⟩ := by
        refine ⟨ready sampler (Array.mem_toList_iff.mp (lone ▸ List.mem_singleton_self sampler)),
          ?_, 0, ?_⟩
        · rw [whole]
          exact waits
        · rw [whole, add_zero]
          exact InPlace.start_holds counted false
      exact steady.turns_covered (InPlace.serves _ _ _ _) (InPlace.covers _ _ _ _)
        legal 0 turn member
    · exact overlayTurns_covered legal counted waits ready _ turn member
  · cases member

/-- Whenever a move is weighed in an iteration, it is by acceptance under counts that hold the token
that is resampled: the document's topics are counted as they are then, the worker's view has the
token's word and topic, and no count is negative, be the token left out or not. -/
theorem evaluations_covered (sorted : ∀ doc ∈ block.docs, doc.Sorted)
    (few : block.numTokens < 2147483648) (run : Runs settings seed block 0 engine) :
    ∀ turn ∈ engine.turns, ∀ visit ∈ turn.visits, ∃ token, visit.Covered token ∧
      ∀ topic, 0 ≤ ((visit.tally topic).exclude (topic = token.topic)).doc ∧
        0 ≤ ((visit.tally topic).exclude (topic = token.topic)).word ∧
        0 ≤ ((visit.tally topic).exclude (topic = token.topic)).total := by
  let P : Nat → Engine → Prop := fun id now =>
    Runs settings seed block id now ∧ now.vocab.slices.size = engine.vocab.slices.size
  have kept : ∀ (id : Nat) (now after : Engine), 0 ≤ id →
      id < 0 + engine.vocab.slices.size → P id now →
      Update.never id now = false → sampleSlice id now = .ok () after → P (id + 1) after := by
    rintro id now after _ below ⟨run, size⟩ _ sampled
    rw [Nat.zero_add, ← size] at below
    obtain ⟨after', again, _, _, vocab, _⟩ := (run.sound sorted few).sampleSlice below
    rw [sampled] at again
    cases again
    exact ⟨run.slice below sampled, by rw [vocab, size]⟩
  intro turn member visit inside
  rw [turns_eq_course] at member
  obtain ⟨stop, listed, taken⟩ := List.mem_flatMap.mp member
  obtain ⟨_, _, _, runHere, _⟩ := Update.course_kept _ ⟨run.zeroStatistics, rfl⟩ kept stop listed
  obtain ⟨token, covered⟩ := (runHere.sound sorted few).sliceTurns_covered turn taken visit inside
  exact ⟨token, covered, covered.exclude_nonneg⟩

/-- Two workers, the first of them with two documents. -/
theorem evaluations_covered_trio :
    let settings : Settings := { numTopics := 2, numWorkers := 2, counterCapacity := 1 }
    let block : Block := ⟨#[⟨#[⟨3, 0⟩, ⟨7, 1⟩], 0⟩, ⟨#[⟨7, 0⟩], 0⟩, ⟨#[⟨7, 1⟩], 0⟩]⟩
    (∀ doc ∈ block.docs, doc.Sorted) ∧ block.numTokens < 2147483648 ∧
    ∃ engine, Runs settings 1 block 0 engine ∧
      ∃ turn ∈ engine.turns, ∃ visit ∈ turn.visits, ∃ token, visit.Covered token := by
  intro settings block
  have sorted : ∀ doc ∈ block.docs, doc.Sorted := by
    simp [block, Document.Sorted]
  have few : block.numTokens < 2147483648 := by decide
  obtain ⟨engine, started⟩ :=
    (exists_start_iff few 1).mpr (by decide +kernel : Accepts (withVocabSize settings block) block)
  have run : Runs settings 1 block 0 engine := .start started
  obtain ⟨report, after, ran, _⟩ := run.iteration sorted few
  -- Every token is visited, the first one of the first document among them.
  have first : (0, 0) ∈ engine.visited := by
    rw [((regular_of_start started sorted).runIteration ran).1.tokens,
      (start_eq_ok.mp started).whole]
    exact ⟨_, rfl, Nat.zero_lt_two⟩
  obtain ⟨turn, member, listed⟩ := List.mem_flatMap.mp first
  obtain ⟨index, own, _⟩ := List.mem_map.mp listed
  obtain ⟨visit, inside, _⟩ := List.mem_map.mp own
  obtain ⟨token, covered, _⟩ := evaluations_covered sorted few run turn member visit inside
  exact ⟨sorted, few, engine, run, turn, member, visit, inside, token, covered⟩

end Engine

end LatentTopics
