import Mathlib
import LatentTopics.Engine.Training
import LatentTopics.Proofs.Engine.Shifts
import LatentTopics.Proofs.Sampler.Frames

/-! What passes leave alone. A pass may stop at any document, commit or merge; the engine that it
leaves has samplers that can be used again, documents with their words, and counts of topics only.
So the next pass finds what it relies on. -/
namespace LatentTopics

theorem Document.framed_set {related : Document → Document → Prop} {given : List Document}
    {docs : Array Document} (every : List.Forall₂ related given docs.toList) {index : Nat}
    {doc : Document} (own : ∀ before, given[index]? = some before → related before doc) :
    List.Forall₂ related given (docs.setIfInBounds index doc).toList := by
  rw [Array.toList_setIfInBounds]
  generalize docs.toList = list at every
  induction every generalizing index with
  | nil => exact .nil
  | cons first rest ih =>
      cases index with
      | zero => exact .cons (own _ rfl) rest
      | succ index => exact .cons first (ih own)

namespace Shift

variable {M : Type} {numTopics : Nat} {free : Nat → Prop} {holds : M → Prop}

/-- What holds of a worker all along the way. -/
structure Framed (numTopics : Nat) (free : Nat → Prop) (given : List Document) (holds : M → Prop)
    (shift : Shift M) : Prop where
  sampler : shift.sampler.Ready numTopics
  docs : List.Forall₂ (Document.Framed numTopics free) given shift.docs.toList
  model : holds shift.model

theorem left_visitDoc (step : Update (Sampler.Bench M) Nat) {index : Nat} {shift : Shift M}
    (inside : index < shift.docs.size) :
    Update.left (visitDoc step index) shift =
      let bench := Update.left step ⟨shift.sampler, shift.docs[index], shift.model⟩
      ⟨bench.sampler, shift.docs.setIfInBounds index bench.doc, bench.model⟩ := by
  simp only [Update.left, visitDoc, dif_pos inside, Array.swapAt]
  cases step ⟨shift.sampler, shift.docs[index],
    shift.model⟩ <;> simp only [Arrays.setIfInBounds_set]

theorem keeps_visitDoc (given : List Document) {step : Update (Sampler.Bench M) Nat}
    (keeps : ∀ before, Update.Keeps (Sampler.Bench.Framed numTopics free before holds) step)
    (index : Nat) : Update.Keeps (Framed numTopics free given holds) (visitDoc step index) := by
  rintro shift ⟨ready, framed, held⟩
  by_cases inside : index < shift.docs.size
  · have length : given.length = shift.docs.size := framed.length_eq
    have listed : index < given.length := length.symm ▸ inside
    have own : given[index].Framed numTopics free shift.docs[index] := framed.get listed inside
    have after := keeps given[index] ⟨shift.sampler, shift.docs[index], shift.model⟩
      ⟨ready, own, held⟩
    rw [left_visitDoc step inside]
    refine ⟨after.sampler, Document.framed_set framed ?_, after.model⟩
    intro before here
    rw [List.getElem?_eq_getElem listed] at here
    exact Option.some.inj here ▸ after.doc
  · simp only [Update.left, visitDoc, dif_neg inside]
    exact ⟨ready, framed, held⟩

theorem keeps_visitDocs (given : List Document) {step : Update (Sampler.Bench M) Nat}
    (keeps : ∀ before, Update.Keeps (Sampler.Bench.Framed numTopics free before holds) step)
    (count index : Nat) :
    Update.Keeps (Framed numTopics free given holds) (visitDocs step count index) := by
  induction count generalizing index with
  | zero => exact fun shift framed => framed
  | succ count ih =>
      exact (keeps_visitDoc given keeps index).followed (ih (index + 1))
        (fun done => by rw [visitDocs, done])
        fun failed => by rw [visitDocs, failed]

theorem keeps_sampleDoc [TopicCounts M] (given : List Document)
    (lasting : Lasting numTopics TopicCounts.commit holds) {proposals : AliasSlice}
    (legal : proposals.Legal numTopics) (entry : SliceMeta) (count index : Nat) :
    Update.Keeps (Framed numTopics (fun _ => True) given holds)
        (visitDocs (Sampler.sampleDoc entry proposals) count index) :=
  keeps_visitDocs given (fun _ => Sampler.keeps_sweep lasting legal Sampler.trainingRule fun _ _ =>
    trivial) count index

end Shift

namespace Engine

structure Crew (numTopics workers : Nat) (given : List Document)
    (state : Array Sampler × Array Document) : Prop where
  workers : state.1.size = workers
  ready : ∀ sampler ∈ state.1, sampler.Ready numTopics
  docs : List.Forall₂ (Document.Framed numTopics fun _ => True) given state.2.toList

/-- What every engine keeps that was started with these
settings and documents for this vocabulary. -/
structure Intact (settings : Settings) (vocab : Vocabulary) (given : List Document)
    (engine : Engine) : Prop where
  workers : 0 < engine.samplers.size
  ready : ∀ sampler ∈ engine.samplers, sampler.Ready vocab.numTopics
  store : engine.store.Confined vocab
  docs : List.Forall₂ (Document.Framed vocab.numTopics fun _ => True) given engine.block.docs.toList
  settings : engine.settings = settings
  vocab : engine.vocab = vocab

variable {settings : Settings} {vocab : Vocabulary} {given : List Document}
  {engine : Engine} {id : Nat}
  {entry : SliceMeta} {slice : Slice} {proposals : AliasSlice}

theorem Intact.legal (intact : engine.Intact settings vocab given)
    (there : vocab.slices[id]? = some entry) (here : engine.store.slices[id]? = some slice) :
    (engine.proposalsOf entry slice).Legal vocab.numTopics := by
  rw [proposalsOf, intact.vocab]
  exact (intact.store.slices slice (Array.mem_of_getElem? here)).build_legal
    (intact.store.fits.shapes id slice entry here there).2 intact.store.fits.numTopics _ _

theorem left_sampleInPlace (entry : SliceMeta) (proposals : AliasSlice) (sampler : Sampler)
    (engine : Engine) (here : engine.store.slices[id]? = some slice) :
    Update.left (sampleInPlace entry proposals id sampler) engine =
      let shift :=
        Update.left (Shift.visitDocs (Sampler.sampleDoc entry proposals) engine.block.docs.size 0)
          ⟨sampler, engine.block.docs, InPlace.start slice engine.store.summary false⟩
      ⟨engine.settings, engine.vocab, ⟨engine.store.slices.setIfInBounds id shift.model.slice,
        shift.model.summary⟩, ⟨shift.docs⟩, #[shift.sampler], engine.iteration⟩ := by
  obtain ⟨settings, vocab, ⟨slices, summary⟩, ⟨docs⟩, samplers, iteration⟩ := engine
  obtain ⟨inside, rfl⟩ := Array.getElem?_eq_some_iff.mp here
  simp only [Update.left, sampleInPlace, dif_pos inside, Array.swapAt]
  cases Shift.visitDocs (Sampler.sampleDoc entry proposals) docs.size 0
    ⟨sampler, docs, InPlace.start slices[id] summary false⟩ <;> simp only [Arrays.setIfInBounds_set]

theorem Intact.left_sampleInPlace (intact : engine.Intact settings vocab given) (entry : SliceMeta)
    (here : engine.store.slices[id]? = some slice) (legal : proposals.Legal vocab.numTopics)
    {sampler : Sampler} (ready : sampler.Ready vocab.numTopics) :
    (Update.left (sampleInPlace entry proposals id sampler) engine).Intact settings
        vocab given := by
  have started : (⟨sampler, engine.block.docs, InPlace.start slice engine.store.summary false⟩ :
      Shift InPlace).Framed vocab.numTopics (fun _ => True) given fun view =>
        slice.Suits vocab.numTopics view.slice view.summary :=
    ⟨ready, intact.docs, intact.store.slices slice (Array.mem_of_getElem? here),
      Slice.SameShape.refl _, intact.store.fits.numTopics⟩
  obtain ⟨readyAfter, framed, suits⟩ :=
    Shift.keeps_sampleDoc given (InPlace.lasting_suits vocab.numTopics slice) legal entry
    engine.block.docs.size 0 _ started
  rw [Engine.left_sampleInPlace entry proposals sampler engine here]
  refine ⟨Nat.zero_lt_one, ?_, intact.store.set here suits.confined suits.shape suits.size, framed,
    intact.settings, intact.vocab⟩
  intro other member
  obtain rfl := List.mem_singleton.mp (List.mem_toArray.mp member)
  exact readyAfter

/-- A worker takes its place among the others again wherever it has come to a stop. -/
theorem Crew.turned {M : Type} {holds : M → Prop} {numTopics workers : Nat}
    {state : Array Sampler × Array Document} (crew : Crew numTopics workers given state)
    (worker : Nat) {shift : Shift M} (framed : shift.Framed numTopics (fun _ => True) given holds) :
    Crew numTopics workers given (state.1.setIfInBounds worker shift.sampler, shift.docs) := by
  refine ⟨Array.size_setIfInBounds.trans crew.workers, ?_, framed.docs⟩
  intro other member
  rcases Array.mem_or_eq_of_mem_setIfInBounds member with old | rfl
  · exact crew.ready other old
  · exact framed.sampler

theorem Crew.overlayPass {numTopics workers : Nat} (legal : proposals.Legal numTopics)
    (entry : SliceMeta) (slice : Slice) (summary : Summary) (chunk count worker : Nat)
    (logs : List DeltaLog) (topical : ∀ log ∈ logs, log.Topical numTopics)
    {state : Array Sampler × Array Document} (crew : Crew numTopics workers given state) :
    Crew numTopics workers given
        (Update.left (Engine.overlayPass entry proposals slice summary chunk count worker
          logs) state) ∧
      ∀ logs' after, Engine.overlayPass entry proposals slice summary chunk count worker logs
        state = .ok logs' after →
        ∀ log ∈ logs', log.Topical numTopics := by
  induction count generalizing worker logs state with
  | zero =>
      refine ⟨crew, ?_⟩
      rintro logs' after ⟨⟩ log member
      exact topical log (List.mem_reverse.mp member)
  | succ count ih =>
      obtain ⟨samplers, docs⟩ := state
      cases here : samplers[worker]? with
      | none =>
          simp only [Update.left, Engine.overlayPass, here]
          exact ⟨crew, fun _ _ failed => by cases failed⟩
      | some sampler =>
          have keeps := Shift.keeps_sampleDoc given (Overlay.lasting_topical numTopics)
            legal entry chunk (worker * chunk)
          have started : (⟨sampler, docs, Overlay.start slice summary⟩ : Shift Overlay).Framed
              numTopics (fun _ => True) given
              fun view => view.log.Topical numTopics :=
            ⟨crew.ready sampler (Array.mem_of_getElem? here), crew.docs,
              Overlay.start_topical slice summary numTopics⟩
          cases visited : Shift.visitDocs (Sampler.sampleDoc entry proposals) chunk (worker * chunk)
              ⟨sampler, docs, Overlay.start slice summary⟩ with
          | error fault shift =>
              simp only [Update.left, Engine.overlayPass, here, visited]
              exact ⟨crew.turned worker (keeps.of_error started visited),
                fun _ _ failed => by cases failed⟩
          | ok _ shift =>
              have after := keeps.of_ok started visited
              have collected : ∀ log ∈ shift.model.log :: logs, log.Topical numTopics := by
                intro log member
                rcases List.mem_cons.mp member with rfl | earlier
                · exact after.model
                · exact topical log earlier
              have rest := ih (worker + 1) _ collected (crew.turned worker after)
              simp only [Update.left, Engine.overlayPass, here, visited] at rest ⊢
              exact rest

theorem keeps_mergeLogs {P : Slice × Summary → Prop} {logs : List DeltaLog}
    (each : ∀ log ∈ logs, Update.Keeps P log.mergeInto) : Update.Keeps P (mergeLogs logs) := by
  induction logs with
  | nil => exact fun counts holds => holds
  | cons log logs ih =>
      exact (each log List.mem_cons_self).followed (ih fun later member =>
        each later (List.mem_cons_of_mem _ member))
        (fun done => by rw [mergeLogs, done]) fun failed => by rw [mergeLogs, failed]

theorem Intact.left_sampleByOverlays (intact : engine.Intact settings vocab given)
    (entry : SliceMeta) (here : engine.store.slices[id]? = some slice)
    (legal : proposals.Legal vocab.numTopics) :
    (Update.left (sampleByOverlays entry proposals id) engine).Intact settings vocab given := by
  obtain ⟨settings', vocab', ⟨slices, summary⟩, ⟨docs⟩, samplers, iteration⟩ := engine
  have own : slices.getD id default = slice := Arrays.getD_of_getElem? here default
  have crew : Crew vocab.numTopics samplers.size given (samplers, docs) :=
    ⟨rfl, intact.ready, intact.docs⟩
  obtain ⟨crewAfter, topical⟩ :=
    crew.overlayPass legal entry slice summary (chunkSize docs.size samplers.size)
    samplers.size 0 [] fun _ member => by cases member
  have positive : 0 < samplers.size := intact.workers
  cases passed : overlayPass entry proposals slice summary (chunkSize docs.size samplers.size)
    samplers.size 0 [] (samplers, docs) with
  | error fault state =>
      rw [Update.left_of_error passed] at crewAfter
      simp only [Update.left, sampleByOverlays, own, passed]
      exact ⟨crewAfter.workers.symm ▸ positive, crewAfter.ready, intact.store, crewAfter.docs,
        intact.settings, intact.vocab⟩
  | ok logs state =>
      rw [Update.left_of_ok passed] at crewAfter
      have keeps := keeps_mergeLogs fun log member =>
        DeltaLog.keeps_mergeInto slice (topical logs state passed log member)
      have suits : slice.Suits vocab.numTopics slice summary :=
        ⟨intact.store.slices slice (Array.mem_of_getElem? here), Slice.SameShape.refl _,
          intact.store.fits.numTopics⟩
      have ended : ∀ counts : Slice × Summary, slice.Suits vocab.numTopics counts.1 counts.2 →
          Intact settings vocab given ⟨settings', vocab',
            ⟨slices.setIfInBounds id counts.1, counts.2⟩, ⟨state.2⟩, state.1, iteration⟩ := by
        intro counts after
        exact ⟨crewAfter.workers.symm ▸ positive, crewAfter.ready,
          intact.store.set here after.confined after.shape after.size, crewAfter.docs,
          intact.settings, intact.vocab⟩
      cases merged : mergeLogs logs (slice, summary) with
      | ok _ counts =>
          simp only [Update.left, sampleByOverlays, own, passed, merged]
          exact ended counts (keeps.of_ok suits merged)
      | error fault counts =>
          simp only [Update.left, sampleByOverlays, own, passed, merged]
          exact ended counts (keeps.of_error suits merged)

theorem keeps_sampleSlice_of {P : Engine → Prop}
    (lone : ∀ {engine : Engine} {entry : SliceMeta} {slice : Slice}, P engine →
      engine.vocab.slices[id]? = some entry → engine.store.slices[id]? = some slice →
      ∀ sampler ∈ engine.samplers,
        P (Update.left (sampleInPlace entry (engine.proposalsOf entry slice) id sampler) engine))
    (several : ∀ {engine : Engine} {entry : SliceMeta} {slice : Slice}, P engine →
      engine.vocab.slices[id]? = some entry → engine.store.slices[id]? = some slice →
        P (Update.left (sampleByOverlays entry (engine.proposalsOf entry slice) id) engine)) :
    Update.Keeps P (sampleSlice id) := by
  intro engine holds
  cases there : engine.vocab.slices[id]? with
  | none =>
      simp only [Update.left, sampleSlice, there]
      exact holds
  | some entry =>
      cases here : engine.store.slices[id]? with
      | none =>
          simp only [Update.left, sampleSlice, there, here]
          exact holds
      | some slice =>
          have turns := several holds there here
          cases workers : engine.samplers.toList with
          | nil =>
              simp only [Update.left, sampleSlice, there, here, workers] at turns ⊢
              exact turns
          | cons sampler samplers =>
              cases samplers with
              | nil =>
                  have member : sampler ∈ engine.samplers :=
                    Array.mem_toList_iff.mp (workers ▸ List.mem_singleton_self sampler)
                  have way := lone holds there here sampler member
                  simp only [Update.left, sampleSlice, there, here, workers] at way ⊢
                  exact way
              | cons second others =>
                  simp only [Update.left, sampleSlice, there, here, workers] at turns ⊢
                  exact turns

theorem keeps_sampleSlice (id : Nat) :
    Update.Keeps (Intact settings vocab given) (sampleSlice id) := by
  apply keeps_sampleSlice_of
  · intro engine entry slice intact there here sampler member
    exact intact.left_sampleInPlace entry here (intact.legal (intact.vocab ▸ there) here)
      (intact.ready sampler member)
  · intro engine entry slice intact there here
    exact intact.left_sampleByOverlays entry here (intact.legal (intact.vocab ▸ there) here)

theorem keeps_sampleSlices (count : Nat) (id : Nat) :
    Update.Keeps (Intact settings vocab given) (sampleSlices count id) := by
  induction count generalizing id with
  | zero => exact fun engine intact => intact
  | succ count ih =>
      exact (keeps_sampleSlice id).followed (ih (id + 1)) (fun done => by rw [sampleSlices, done])
        fun failed => by rw [sampleSlices, failed]

theorem keeps_runIteration : Update.Keeps (Intact settings vocab given) runIteration := by
  intro engine intact
  have zeroed : engine.zeroStatistics.Intact settings vocab given := by
    refine { intact with workers := ?_, ready := ?_ }
    · rw [zeroStatistics, Array.size_map]
      exact intact.workers
    · intro sampler member
      obtain ⟨old, inside, rfl⟩ := Array.mem_map.mp member
      exact ⟨(intact.ready old inside).numTopics, (intact.ready old inside).power⟩
  have keeps : Update.Keeps (Intact settings vocab given)
      (sampleSlices engine.vocab.slices.size 0) :=
    keeps_sampleSlices engine.vocab.slices.size 0
  cases sampled : sampleSlices engine.vocab.slices.size 0 engine.zeroStatistics with
  | error fault next =>
      simp only [Update.left, runIteration, sampled]
      exact keeps.of_error zeroed sampled
  | ok _ next =>
      have passed := keeps.of_ok zeroed sampled
      have counted : Intact settings vocab given { next with iteration := next.iteration + 1 } :=
        ⟨passed.workers, passed.ready, passed.store, passed.docs, passed.settings, passed.vocab⟩
      cases checked : next.store.check next.vocab with
      | error fault =>
          simp only [Update.left, runIteration, sampled, checked]
          exact passed
      | ok _ =>
          cases due : { next with iteration := next.iteration + 1 }.dueLikelihood next.iteration <;>
            · simp only [Update.left, runIteration, sampled, checked, due]
              exact counted

end Engine

end LatentTopics
