import Mathlib
import LatentTopics.Engine.Training
import LatentTopics.Proofs.Sampler.Visits

/-! The itinerary of an iteration. Slice after slice, the workers take their documents in turn, and
each document is visited token by token. -/
namespace LatentTopics

/-- A document in the hands of a worker, while a slice is resampled. -/
structure Turn where
  slice : Nat
  worker : Nat
  document : Nat
  visits : List Visit

namespace Shift

variable {M : Type}

def turn? [TopicCounts M] (entry : SliceMeta) (proposals : AliasSlice) (worker document : Nat)
    (shift : Shift M) : Option Turn :=
  shift.docs[document]?.map fun doc =>
    ⟨entry.id, worker, document, Sampler.visits entry proposals ⟨shift.sampler, doc, shift.model⟩⟩

/-- The turns of a worker over `count` documents from `index`
on, each as its way through those before leaves it. -/
def turns [TopicCounts M] (entry : SliceMeta) (proposals : AliasSlice) (worker count index : Nat)
    (shift : Shift M) : List Turn :=
  (List.range count).filterMap fun taken =>
    (Update.reached (visitDocs (Sampler.sampleDoc entry proposals) taken index) shift).bind
      (turn? entry proposals worker (index + taken))

variable {step : Update (Sampler.Bench M) Nat} {count index : Nat} {shift after : Shift M}

theorem visitDoc_cases (done : visitDoc step index shift = .ok () after) :
    shift.docs.size ≤ index ∧ after = shift ∨
      ∃ doc visited bench, shift.docs[index]? = some doc ∧
      step ⟨shift.sampler, doc, shift.model⟩ = .ok visited bench ∧
        after = ⟨bench.sampler, shift.docs.setIfInBounds index bench.doc, bench.model⟩ := by
  obtain ⟨sampler, docs, model⟩ := shift
  simp only [visitDoc, Array.swapAt] at done
  split at done
  · next inside =>
    cases stepped : step ⟨sampler, docs[index], model⟩ with
    | error fault bench =>
        rw [stepped] at done
        cases done
    | ok visited bench =>
        rw [stepped] at done
        cases done
        refine Or.inr ⟨docs[index], visited, bench, Array.getElem?_eq_getElem inside, stepped, ?_⟩
        rw [Arrays.setIfInBounds_set]
  · next outside =>
    cases done
    exact Or.inl ⟨not_lt.mp outside, rfl⟩

theorem reached_visitDocs (step : Update (Sampler.Bench M) Nat) (count index : Nat)
    (shift : Shift M) :
    Update.reached (visitDocs step count index) shift =
      Update.reached (Update.steps Update.never (visitDoc step) count index) shift := by
  apply Update.reached_of_loop (fun _ _ => rfl)
  intro count index shift
  rw [visitDocs]
  cases visitDoc step index shift <;> rfl

theorem turns_eq_course [TopicCounts M] (entry : SliceMeta) (proposals : AliasSlice)
    (worker count index : Nat) (shift : Shift M) : turns entry proposals worker count index shift =
      (Update.course Update.never (visitDoc (Sampler.sampleDoc entry proposals))
        count index shift).filterMap
        fun (document, shift) => turn? entry proposals worker document shift := by
  rw [Update.course_of_loop fun taken => reached_visitDocs _ taken index shift,
    List.filterMap_filterMap, turns]
  simp only [Option.bind_map, Function.comp_def]

theorem steps_of_visitDocs (done : visitDocs step count index shift = .ok () after) :
    Update.steps Update.never (visitDoc step) count index shift = .ok (index + count) after :=
  Update.steps_of_reached (by rw [← reached_visitDocs, Update.reached, done])

end Shift

namespace Engine

/-- One worker takes its run of documents on an overlay; what becomes of its log is left aside. -/
def overlayTurn (entry : SliceMeta) (proposals : AliasSlice) (slice : Slice) (summary : Summary)
    (chunk worker : Nat) : Update (Array Sampler × Array Document) Unit := fun (samplers, docs) =>
  match samplers[worker]? with
  | none => .error (.breach .indexOutOfRange) (samplers, docs)
  | some sampler =>
      match Shift.visitDocs (Sampler.sampleDoc entry proposals) chunk (worker * chunk)
        ⟨sampler, docs, Overlay.start slice summary⟩ with
      | .error fault ⟨sampler, docs, _⟩ =>
          .error fault (samplers.setIfInBounds worker sampler, docs)
      | .ok _ ⟨sampler, docs, _⟩ => .ok () (samplers.setIfInBounds worker sampler, docs)

def workerTurns (entry : SliceMeta) (proposals : AliasSlice) (slice : Slice) (summary : Summary)
    (chunk worker : Nat) : Array Sampler × Array Document → List Turn := fun (samplers, docs) =>
  samplers[worker]?.toList.flatMap fun sampler =>
    Shift.turns entry proposals worker chunk (worker * chunk)
      ⟨sampler, docs, Overlay.start slice summary⟩

/-- The turns of all workers, each as the turns of those before leave it. -/
def overlayTurns (entry : SliceMeta) (proposals : AliasSlice) (slice : Slice) (summary : Summary)
    (chunk : Nat) (samplers : Array Sampler) (docs : Array Document) : List Turn :=
  (List.range samplers.size).flatMap fun worker =>
    (Update.reached (overlayPass entry proposals slice summary chunk worker 0 [])
      (samplers, docs)).toList.flatMap (workerTurns entry proposals slice summary chunk worker)

def sliceTurns (id : Nat) (engine : Engine) : List Turn :=
  match engine.vocab.slices[id]?, engine.store.slices[id]? with
  | some entry, some slice =>
      let proposals := engine.proposalsOf entry slice
      let docs := engine.block.docs
      match engine.samplers.toList with
      | [sampler] =>
          Shift.turns entry proposals 0 docs.size 0
            ⟨sampler, docs, InPlace.start slice engine.store.summary false⟩
      | _ =>
          overlayTurns entry proposals slice engine.store.summary
            (chunkSize docs.size engine.samplers.size) engine.samplers docs
  | _, _ => []

/-- The turns of an iteration, those of each slice as the passes over the slices before leave it. -/
def turns (engine : Engine) : List Turn :=
  (List.range engine.vocab.slices.size).flatMap fun id =>
    (Update.reached (sampleSlices id 0) engine.zeroStatistics).toList.flatMap (sliceTurns id)

variable {engine after : Engine} {id : Nat}

theorem overlayTurn_cases {entry : SliceMeta} {proposals : AliasSlice} {slice : Slice}
    {summary : Summary} {chunk worker : Nat} {state next : Array Sampler × Array Document}
    (done : overlayTurn entry proposals slice summary chunk worker state = .ok () next) :
    ∃ sampler shift, state.1[worker]? = some sampler ∧
      Shift.visitDocs (Sampler.sampleDoc entry proposals) chunk (worker * chunk)
        ⟨sampler, state.2, Overlay.start slice summary⟩ = .ok () shift ∧
      next = (state.1.setIfInBounds worker shift.sampler, shift.docs) := by
  obtain ⟨samplers, docs⟩ := state
  simp only [overlayTurn] at done
  split at done
  · cases done
  · next sampler here =>
    cases visited : Shift.visitDocs (Sampler.sampleDoc entry proposals) chunk (worker * chunk)
        ⟨sampler, docs, Overlay.start slice summary⟩ with
    | error fault shift =>
        rw [visited] at done
        cases done
    | ok _ shift =>
        rw [visited] at done
        cases done
        exact ⟨sampler, shift, here, visited, rfl⟩

theorem reached_overlayPass (entry : SliceMeta) (proposals : AliasSlice) (slice : Slice)
    (summary : Summary) (chunk count worker : Nat) (logs : List DeltaLog)
    (state : Array Sampler × Array Document) :
    Update.reached (overlayPass entry proposals slice summary chunk count worker logs) state =
      Update.reached (Update.steps Update.never (overlayTurn entry proposals slice summary chunk)
        count worker) state := by
  induction count generalizing worker logs state with
  | zero => rfl
  | succ count ih =>
      obtain ⟨samplers, docs⟩ := state
      cases here : samplers[worker]? with
      | none =>
          have turned : overlayTurn entry proposals slice summary chunk worker (samplers, docs) =
              .error (.breach .indexOutOfRange) (samplers, docs) := by
            simp only [overlayTurn, here]
          rw [Update.reached_steps_of_error turned, Update.reached]
          simp only [overlayPass, here]
      | some sampler =>
          cases visited : Shift.visitDocs (Sampler.sampleDoc entry proposals) chunk (worker * chunk)
              ⟨sampler, docs, Overlay.start slice summary⟩ with
          | error fault shift =>
              have turned :
                  overlayTurn entry proposals slice summary chunk worker (samplers, docs) =
                  .error fault (samplers.setIfInBounds worker shift.sampler, shift.docs) := by
                simp only [overlayTurn, here, visited]
              rw [Update.reached_steps_of_error turned, Update.reached]
              simp only [overlayPass, here, visited]
          | ok _ shift =>
              have turned :
                  overlayTurn entry proposals slice summary chunk worker (samplers, docs) =
                  .ok () (samplers.setIfInBounds worker shift.sampler, shift.docs) := by
                simp only [overlayTurn, here, visited]
              rw [Update.reached_steps_of_ok turned, ← ih _ (shift.model.log :: logs),
                Update.reached, Update.reached]
              simp only [overlayPass, here, visited]

theorem overlayTurns_eq_course (entry : SliceMeta) (proposals : AliasSlice) (slice : Slice)
    (summary : Summary) (chunk : Nat) (samplers : Array Sampler) (docs : Array Document) :
    overlayTurns entry proposals slice summary chunk samplers docs =
      (Update.course Update.never (overlayTurn entry proposals slice summary chunk) samplers.size 0
        (samplers, docs)).flatMap
        fun (worker, state) => workerTurns entry proposals slice summary chunk worker state := by
  rw [Update.flatMap_course_of_loop fun taken =>
    reached_overlayPass entry proposals slice summary chunk taken 0 [] _]
  simp only [overlayTurns, Nat.zero_add]

theorem steps_of_overlayPass {entry : SliceMeta} {proposals : AliasSlice} {slice : Slice}
    {summary : Summary} {chunk count worker : Nat} {earlier logs : List DeltaLog}
    {state next : Array Sampler × Array Document}
    (done : overlayPass entry proposals slice summary chunk count worker earlier state =
      .ok logs next) :
    Update.steps Update.never (overlayTurn entry proposals slice summary chunk) count worker state =
      .ok (worker + count) next :=
  Update.steps_of_reached
    (by rw [← reached_overlayPass _ _ _ _ _ _ _ earlier, Update.reached, done])

theorem reached_sampleSlices (count id : Nat) (engine : Engine) :
    Update.reached (sampleSlices count id) engine =
      Update.reached (Update.steps Update.never sampleSlice count id) engine := by
  apply Update.reached_of_loop (fun _ _ => rfl)
  intro count id engine
  rw [sampleSlices]
  cases sampleSlice id engine <;> rfl

theorem turns_eq_course (engine : Engine) : engine.turns =
    (Update.course Update.never sampleSlice engine.vocab.slices.size 0
        engine.zeroStatistics).flatMap
      fun (id, engine) => sliceTurns id engine := by
  rw [Update.flatMap_course_of_loop fun taken => reached_sampleSlices taken 0 _]
  simp only [turns, Nat.zero_add]

theorem steps_of_sampleSlices {count : Nat} (done : sampleSlices count id engine = .ok () after) :
    Update.steps Update.never sampleSlice count id engine = .ok (id + count) after :=
  Update.steps_of_reached (by rw [← reached_sampleSlices, Update.reached, done])

structure Changed (samplers : Array Sampler) (docs : Array Document)
    (before after : Engine) : Prop where
  settings : after.settings = before.settings
  vocab : after.vocab = before.vocab
  samplers : after.samplers = samplers
  docs : after.block.docs = docs

section Turns

variable {entry : SliceMeta} {slice : Slice} (there : engine.vocab.slices[id]? = some entry)
  (here : engine.store.slices[id]? = some slice)
include there here

theorem sliceTurns_lone {sampler : Sampler} (lone : engine.samplers.toList = [sampler]) :
    sliceTurns id engine =
      Shift.turns entry (engine.proposalsOf entry slice) 0 engine.block.docs.size 0
        ⟨sampler, engine.block.docs, InPlace.start slice engine.store.summary false⟩ := by
  simp only [sliceTurns, there, here, lone]

theorem sliceTurns_several (several : ∀ sampler, engine.samplers.toList ≠ [sampler]) :
    sliceTurns id engine =
      overlayTurns entry (engine.proposalsOf entry slice) slice engine.store.summary
        (chunkSize engine.block.docs.size engine.samplers.size) engine.samplers
        engine.block.docs := by
  cases listed : engine.samplers.toList with
  | nil => simp only [sliceTurns, there, here, listed]
  | cons first rest =>
      cases rest with
      | nil => exact absurd listed (several first)
      | cons second rest => simp only [sliceTurns, there, here, listed]

end Turns

theorem sampleInPlace_cases {entry : SliceMeta} {proposals : AliasSlice} {slice : Slice}
    {sampler : Sampler} (here : engine.store.slices[id]? = some slice)
    (done : sampleInPlace entry proposals id sampler engine = .ok () after) :
    ∃ shift, Shift.visitDocs (Sampler.sampleDoc entry proposals) engine.block.docs.size 0
        ⟨sampler, engine.block.docs, InPlace.start slice engine.store.summary false⟩ =
          .ok () shift ∧
      Changed #[shift.sampler] shift.docs engine after := by
  obtain ⟨settings, vocab, ⟨slices, summary⟩, ⟨docs⟩, samplers, iteration⟩ := engine
  obtain ⟨inside, rfl⟩ := Array.getElem?_eq_some_iff.mp here
  dsimp only at inside ⊢
  simp only [sampleInPlace, dif_pos inside, Array.swapAt] at done
  cases visited : Shift.visitDocs (Sampler.sampleDoc entry proposals) docs.size 0
      ⟨sampler, docs, InPlace.start slices[id] summary false⟩ with
  | error fault shift =>
      rw [visited] at done
      cases done
  | ok _ shift =>
      rw [visited] at done
      cases done
      exact ⟨shift, rfl, rfl, rfl, rfl, rfl⟩

theorem sampleByOverlays_cases {entry : SliceMeta} {proposals : AliasSlice} {slice : Slice}
    (here : engine.store.slices[id]? = some slice)
    (done : sampleByOverlays entry proposals id engine = .ok () after) :
    ∃ logs samplers docs, overlayPass entry proposals slice engine.store.summary
        (chunkSize engine.block.docs.size engine.samplers.size) engine.samplers.size 0 []
        (engine.samplers, engine.block.docs) = .ok logs (samplers, docs) ∧
      Changed samplers docs engine after := by
  obtain ⟨settings, vocab, ⟨slices, summary⟩, ⟨docs⟩, samplers, iteration⟩ := engine
  have own : slices.getD id default = slice := Arrays.getD_of_getElem? here default
  dsimp only
  simp only [sampleByOverlays, own] at done
  cases passed : overlayPass entry proposals slice summary (chunkSize docs.size samplers.size)
    samplers.size 0 [] (samplers, docs) with
  | error fault state =>
      rw [passed] at done
      cases done
  | ok logs state =>
      rw [passed] at done
      dsimp only at done
      cases merged : mergeLogs logs (slice, summary) with
      | error fault counts =>
          rw [merged] at done
          cases done
      | ok _ counts =>
          rw [merged] at done
          cases done
          exact ⟨logs, state.1, state.2, rfl, rfl, rfl, rfl, rfl⟩

theorem sampleSlice_cases (done : sampleSlice id engine = .ok () after) :
    ∃ entry slice, engine.vocab.slices[id]? = some entry ∧ engine.store.slices[id]? = some slice ∧
      ((∃ sampler shift, engine.samplers.toList = [sampler] ∧
          Shift.visitDocs (Sampler.sampleDoc entry (engine.proposalsOf entry slice))
            engine.block.docs.size 0
            ⟨sampler, engine.block.docs, InPlace.start slice engine.store.summary false⟩ =
              .ok () shift ∧
          sliceTurns id engine =
            Shift.turns entry (engine.proposalsOf entry slice) 0 engine.block.docs.size 0
              ⟨sampler, engine.block.docs, InPlace.start slice engine.store.summary false⟩ ∧
          Changed #[shift.sampler] shift.docs engine after) ∨
        ∃ logs samplers docs,
          overlayPass entry (engine.proposalsOf entry slice) slice engine.store.summary
            (chunkSize engine.block.docs.size engine.samplers.size) engine.samplers.size 0 []
            (engine.samplers, engine.block.docs) = .ok logs (samplers, docs) ∧
          sliceTurns id engine =
            overlayTurns entry (engine.proposalsOf entry slice) slice engine.store.summary
              (chunkSize engine.block.docs.size engine.samplers.size) engine.samplers
              engine.block.docs ∧
          Changed samplers docs engine after) := by
  rw [sampleSlice] at done
  split at done
  · next entry slice there here =>
    dsimp only at done
    refine ⟨entry, slice, there, here, ?_⟩
    split at done
    · next sampler lone =>
      obtain ⟨shift, visited, changed⟩ := sampleInPlace_cases here done
      exact Or.inl ⟨sampler, shift, lone, visited, sliceTurns_lone there here lone, changed⟩
    · next several =>
      obtain ⟨logs, samplers, docs, passed, changed⟩ := sampleByOverlays_cases here done
      exact Or.inr ⟨logs, samplers, docs, passed, sliceTurns_several there here several, changed⟩
  · cases done

theorem runIteration_cases {report : IterationReport}
    (done : runIteration engine = .ok report after) :
    ∃ between, sampleSlices engine.vocab.slices.size 0 engine.zeroStatistics = .ok () between ∧
      report.numTokens = between.block.numTokens ∧ report.stats = between.statistics ∧
      after = { between with iteration := between.iteration + 1 } := by
  rw [runIteration] at done
  cases sampled : sampleSlices engine.vocab.slices.size 0 engine.zeroStatistics with
  | error fault between =>
      rw [sampled] at done
      cases done
  | ok _ between =>
      rw [sampled] at done
      dsimp only at done
      split at done
      · cases done
      · split at done
        · cases done
        · cases done
          exact ⟨between, rfl, rfl, rfl, rfl⟩

end Engine

end LatentTopics
