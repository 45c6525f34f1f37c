import Mathlib
import LatentTopics.Proofs.Alias.Usage
import LatentTopics.Proofs.Counts.Operations
import LatentTopics.Proofs.Engine.Inference

/-! The plan for the memory of slices, and training. A pass changes the counts of a store by commits
and merges only, so whatever is drawn a run stays among the stores that additions reach, and between
two passes their rows are filled. -/
namespace LatentTopics

namespace Engine

variable {settings : Settings} {vocab : Vocabulary} {given : List Document}
  {engine : Engine} {id : Nat}
  {entry : SliceMeta} {slice : Slice} {proposals : AliasSlice}

theorem store_sampleByOverlays (entry : SliceMeta) (proposals : AliasSlice)
    (here : engine.store.slices[id]? = some slice) :
    (Update.left (sampleByOverlays entry proposals id) engine).store = engine.store ∨
      ∃ logs, (Update.left (sampleByOverlays entry proposals id) engine).store =
        let counts := Update.left (mergeLogs logs) (slice, engine.store.summary)
        engine.store.replace id counts.1 counts.2 := by
  obtain ⟨settings, vocab, ⟨slices, summary⟩, ⟨docs⟩, samplers, iteration⟩ := engine
  have own : slices.getD id default = slice := Arrays.getD_of_getElem? here default
  cases passed : overlayPass entry proposals slice summary (chunkSize docs.size samplers.size)
    samplers.size 0 [] (samplers, docs) with
  | error fault state =>
      refine Or.inl ?_
      simp only [Update.left, sampleByOverlays, own, passed]
  | ok logs state =>
      refine Or.inr ⟨logs, ?_⟩
      cases merged : mergeLogs logs (slice, summary) <;>
        simp only [Update.left, sampleByOverlays, own, passed, merged, Store.replace]

theorem keeps_reachable_sampleSlice (id : Nat) :
    Update.Keeps (fun engine => engine.Intact settings vocab given ∧
      Store.Reachable vocab engine.store) (sampleSlice id) := by
  apply keeps_sampleSlice_of
  · rintro engine entry slice ⟨intact, reached⟩ there here sampler member
    have legal := intact.legal (intact.vocab ▸ there) here
    have ready := intact.ready sampler member
    refine ⟨intact.left_sampleInPlace entry here legal ready, ?_⟩
    have started : (⟨sampler, engine.block.docs, InPlace.start slice engine.store.summary false⟩ :
        Shift InPlace).Framed vocab.numTopics (fun _ => True) given fun view =>
          Store.Reaches vocab engine.store id view.slice view.summary :=
      ⟨ready, intact.docs, reached.reaches here⟩
    have lasting : Lasting vocab.numTopics InPlace.commit fun view =>
        Store.Reaches vocab engine.store id view.slice view.summary :=
      fun change _ _ => Store.keeps_commit vocab engine.store id change
    have after := Shift.keeps_sampleDoc given lasting legal entry engine.block.docs.size 0 _ started
    rw [left_sampleInPlace entry _ sampler engine here]
    exact after.model.2
  · rintro engine entry slice ⟨intact, reached⟩ there here
    refine ⟨intact.left_sampleByOverlays entry here (intact.legal (intact.vocab ▸ there) here), ?_⟩
    rcases store_sampleByOverlays entry (engine.proposalsOf entry slice) here with same
      | ⟨logs, merged⟩
    · exact same ▸ reached
    · rw [merged]
      have keeps : Update.Keeps (fun counts : Slice × Summary =>
          Store.Reaches vocab engine.store id counts.1 counts.2)
          (mergeLogs logs) :=
        keeps_mergeLogs fun log _ => Store.keeps_mergeInto vocab engine.store id log
      exact (keeps _ (reached.reaches here)).2

variable {seed : Nat} {block : Block}

theorem Runs.reachable (run : Runs settings seed block id engine) :
    Store.Reachable engine.vocab engine.store := by
  obtain ⟨_, _, intact, reached⟩ :
    ∃ settings vocab, engine.Intact settings vocab block.docs.toList ∧
      Store.Reachable vocab engine.store := by
    induction run with
    | start started =>
        exact ⟨_, _, (intact_of_start started).2.2,
          Store.reachable_ofDocuments _ (start_eq_ok.mp started).counted⟩
    | draw run alike ih =>
        obtain ⟨settings, vocab, intact, reached⟩ := ih
        exact ⟨settings, vocab, intact.redraw alike, reached⟩
    | @slice id engine after run inside sampled ih =>
        obtain ⟨settings, vocab, holds⟩ := ih
        exact ⟨settings, vocab, (keeps_reachable_sampleSlice id).of_ok holds sampled⟩
    | next run done ih =>
        obtain ⟨settings, vocab, intact, reached⟩ := ih
        exact ⟨settings, vocab, { intact with }, reached⟩
  exact intact.vocab ▸ reached

theorem Runs.filled (sorted : ∀ doc ∈ block.docs, doc.Sorted) (few : block.numTokens < 2147483648)
    (run : Runs settings seed block id engine) : engine.store.Filled engine.vocab := by
  have sound := run.sound sorted few
  exact (sound.tallies.fits.check_eq_ok.mp sound.check).filled

end Engine

set_option maxRecDepth 2000 in
theorem Vocabulary.ofDocuments_trio :
    ofDocuments [⟨#[⟨3, 0⟩, ⟨7, 1⟩], 0⟩, ⟨#[⟨7, 0⟩, ⟨9, 1⟩], 0⟩] 2 2 =
    .ok ⟨2, #[⟨3, 1, .dense, true⟩, ⟨7, 2, .dense, true⟩, ⟨9, 1, .dense, true⟩],
        #[⟨0, 3, 9, 0, 3⟩]⟩ := by
  cbv

namespace Store

variable {vocab : Vocabulary} {store : Store}

/-- What a slice and its proposals use is within what was planned,
and so within the limits unless the slice is a single word. -/
theorem usage_within {docs : List Document} {numTopics loadFactor : Nat}
    (made : Vocabulary.ofDocuments docs numTopics loadFactor = .ok vocab) (limits : Cells)
    (reached : Reachable (vocab.slice limits) store) (filled : store.Filled (vocab.slice limits))
    {id : Nat} {run : SliceMeta} {slice : Slice}
    (there : (vocab.slice limits).slices[id]? = some run) (here : store.slices[id]? = some slice) :
    slice.usage = (((vocab.slice limits).sliceWords run).map fun entry =>
        entry.kind.cells numTopics).sum ∧
    (1 < run.size → (limits.rows = 0 ∨ slice.usage ≤ limits.rows) ∧
      ∀ beta betaSum, limits.aliases = 0 ∨
        (AliasSlice.build (vocab.slice limits) run slice store.summary beta betaSum).usage ≤
          limits.aliases) := by
  have lawful := Vocabulary.lawful_of_frequencies made limits
  have fits := reached.fits lawful
  have topics : vocab.numTopics = numTopics := Vocabulary.numTopics_of_frequencies made
  have usage : slice.usage = (((vocab.slice limits).sliceWords run).map fun entry =>
      entry.kind.cells vocab.numTopics).sum :=
    reached.usage there here
  refine ⟨topics ▸ usage, fun several => ?_⟩
  obtain ⟨keepsRows, keepsAliases⟩ :
    Slicing.KeepsTo limits (vocab.costs ((vocab.slice limits).sliceWords run)) := by
    have permitted :=
      (Vocabulary.slice_tight limits vocab run (Array.mem_of_getElem? there)).permitted
    rw [← Vocabulary.costs_sliceWords] at permitted
    rcases permitted with single | keeps
    · have length : (vocab.sliceWords run).length = run.size :=
        lawful.sliced.length_sliceWords there
      rw [Vocabulary.costs, List.length_map, length] at single
      omega
    · exact keeps
  have planned :
      slice.usage = ((vocab.costs ((vocab.slice limits).sliceWords run)).map Cells.rows).sum := by
    rw [usage, Vocabulary.costs, List.map_map]
    rfl
  constructor
  · rw [planned]
    exact keepsRows
  · intro beta betaSum
    obtain ⟨valid, shape⟩ := fits.shapes id slice run here there
    have most := AliasSlice.usage_le valid shape fits.numTopics
      (fun entry seated row listed =>
        filled.length_pairs_le lawful fits here seated listed) beta betaSum
    exact keepsAliases.imp_right most.trans

/-- Three words in two slices, after an iteration by two workers. -/
theorem usage_within_pair :
    let settings : Settings :=
      { numTopics := 2, numWorkers := 2, counterCapacity := 1, modelMaxCapacity := 4,
        aliasMaxCapacity := 8 }
    let block : Block := ⟨#[⟨#[⟨3, 0⟩, ⟨7, 1⟩], 0⟩, ⟨#[⟨7, 0⟩, ⟨9, 1⟩], 0⟩]⟩
    ∃ engine report after, Engine.Runs settings 1 block 0 engine ∧
      Engine.runIteration engine = .ok report after ∧
      ∃ run slice, after.vocab.slices[0]? = some run ∧ run.size = 2 ∧
        after.store.slices[0]? = some slice ∧
        slice.usage ≤ 4 ∧
        ∀ beta betaSum, (AliasSlice.build after.vocab run slice after.store.summary beta
          betaSum).usage ≤ 8 := by
  intro settings block
  have sorted : ∀ doc ∈ block.docs, doc.Sorted := by
    simp [block, Document.Sorted]
  have few : block.numTokens < 2147483648 := by decide
  obtain ⟨engine, started⟩ := (Engine.exists_start_iff few 1).mpr
    (by decide +kernel : Engine.Accepts (Engine.withVocabSize settings block) block)
  have same := (Engine.start_eq_ok.mp started).sized
  obtain ⟨vocab, made, cut⟩ := (Engine.start_eq_ok.mp started).laidOut
  have begun : Engine.Runs settings 1 block 0 engine := .start started
  obtain ⟨report, after, ran, run⟩ := begun.iteration sorted few
  have kept : after.vocab = vocab.slice ⟨4, 8⟩ := by
    have keeps : Update.Keeps (Engine.Intact engine.settings engine.vocab block.docs.toList)
        Engine.runIteration :=
      Engine.keeps_runIteration
    rw [(keeps.of_ok (Engine.intact_of_start started).2.2 ran).vocab, cut, same]
    rfl
  rw [same] at made
  have there : after.vocab.slices[0]? = some ⟨0, 3, 7, 0, 2⟩ := by
    have known : vocab = _ := Except.ok.inj (made.symm.trans Vocabulary.ofDocuments_trio)
    rw [kept, known]
    decide +kernel
  have reached := run.reachable
  have filled := run.filled sorted few
  obtain ⟨slice, here⟩ : ∃ slice, after.store.slices[0]? = some slice := by
    have size := (run.sound sorted few).tallies.fits.size
    have inside := (Array.getElem?_eq_some_iff.mp there).1
    exact ⟨_, Array.getElem?_eq_getElem (size ▸ inside)⟩
  rw [kept] at there reached filled
  obtain ⟨_, within⟩ := usage_within made ⟨4, 8⟩ reached filled there here
  obtain ⟨rows, aliases⟩ := within (by decide)
  refine ⟨engine, report, after, begun, ran, _, slice, kept ▸ there, rfl, here,
    rows.resolve_left (by decide), ?_⟩
  intro beta betaSum
  rw [kept]
  exact (aliases beta betaSum).resolve_left (by decide)

end Store

end LatentTopics
