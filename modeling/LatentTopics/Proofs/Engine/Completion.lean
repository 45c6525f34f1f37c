import Mathlib
import LatentTopics.Proofs.Engine.Progress
import LatentTopics.Proofs.Engine.Training

/-! An iteration that succeeds has done the schedule, and with it every token once. Its statistics
say so: there are as many visits as tokens, and two proposals for each round of a visit. -/
namespace LatentTopics

theorem Vocabulary.Lawful.indexIn?_iff {vocab : Vocabulary} (lawful : vocab.Lawful)
    {place word : Nat} {run : SliceMeta} (here : vocab.slices[place]? = some run)
    (found : (vocab.indexIn? run word).isSome) (id : Nat) (entry : SliceMeta)
    (there : vocab.slices[id]? = some entry) : (vocab.indexIn? entry word).isSome ↔ id = place := by
  obtain ⟨index, found⟩ := Option.isSome_iff_exists.mp found
  obtain ⟨known, seats, rfl⟩ := (Vocabulary.indexIn?_eq_some lawful.ordered run word index).mp found
  rw [lawful.sliced.isSome_indexIn? lawful.ordered here seats there, eq_comm]

namespace Engine

variable {vocab : Vocabulary} {given docs : Array Document} {id rounds : Nat}
  {samplers : Array Sampler}
  {engine after : Engine}

theorem Accounted.overlayPass (knows : vocab.Knows given) {entry : SliceMeta}
    {proposals : AliasSlice} {slice : Slice} {summary : Summary} {earlier logs : List DeltaLog}
    {next : Array Sampler × Array Document}
    (accounted : Accounted vocab given id rounds 0 samplers docs) (workers : 0 < samplers.size)
    (own : entry.id = id) (there : vocab.slices[id]? = some entry)
    (done : Engine.overlayPass entry proposals slice summary (chunkSize docs.size samplers.size)
      samplers.size 0 earlier (samplers, docs) = .ok logs next) :
    Accounted vocab given (id + 1) rounds 0 next.1 next.2 ∧ next.1.size = samplers.size ∧
      (overlayTurns entry proposals slice summary (chunkSize docs.size samplers.size)
        samplers docs).map Turn.task =
        sliceSchedule vocab samplers.size given entry := by
  let chunk := chunkSize docs.size samplers.size
  let P : Nat → Array Sampler × Array Document → Prop := fun worker state =>
    Accounted vocab given id rounds (worker * chunk) state.1 state.2 ∧ state.1.size = samplers.size
  let read : Nat × Array Sampler × Array Document → List Task := fun stop =>
    (workerTurns entry proposals slice summary chunk stop.1 stop.2).map Turn.task
  let planned : Nat → List Task :=
    fun worker => (List.range' (worker * chunk) chunk).filterMap fun document =>
    given[document]?.map fun doc => ⟨entry.id, worker, document, doc.indexesIn vocab entry⟩
  have begins : P 0 (samplers, docs) := by
    simp only [P, Nat.zero_mul, and_true]
    exact accounted
  have pass : ∀ (worker : Nat) (state after : Array Sampler × Array Document), P worker state →
      Engine.overlayTurn entry proposals slice summary chunk worker state = .ok () after →
      P (worker + 1) after ∧ read (worker, state) = planned worker := by
    rintro worker state after ⟨accounted, size⟩ turned
    obtain ⟨accounted', size', tasks⟩ := accounted.overlayTurn knows own there turned
    exact ⟨⟨accounted', size'.trans size⟩, tasks⟩
  obtain ⟨⟨⟨midway, balanced, sampled⟩, size⟩, tasks⟩ :=
    Update.course_map begins pass (steps_of_overlayPass done)
  have enough := le_mul_chunkSize docs.size workers
  have sizes := accounted.midway.size
  obtain ⟨midway', same⟩ := midway.congr 0 (id + 1) (by
    intro number inside
    rw [midway.size, ← sizes] at inside
    rw [Nat.zero_add, if_pos (inside.trans_le enough), if_neg (Nat.not_lt_zero number)])
  refine ⟨⟨midway', balanced, by rw [same, sampled]⟩, size, ?_⟩
  have enough' : given.toList.length ≤ samplers.size * chunk := by
    rw [Array.length_toList, ← sizes]
    exact enough
  have runs := flatMap_runs given.toList enough' fun worker document doc =>
    (⟨entry.id, worker, document, doc.indexesIn vocab entry⟩ : Task)
  simp only [Array.getElem?_toList] at runs
  rw [sliceSchedule, ← sizes, ← runs, overlayTurns_eq_course, List.map_flatMap,
    List.range_eq_range']
  exact congrArg List.flatten tasks

theorem Accounted.visitDocs (knows : vocab.Knows given) {entry : SliceMeta} {proposals : AliasSlice}
    {sampler : Sampler} {model : InPlace} {shift : Shift InPlace}
    (accounted : Accounted vocab given id rounds 0 samplers docs)
    (lone : samplers.toList = [sampler]) (own : entry.id = id)
    (there : vocab.slices[id]? = some entry)
    (done : Shift.visitDocs (Sampler.sampleDoc entry proposals) docs.size 0 ⟨sampler, docs, model⟩ =
      .ok () shift) :
    Accounted vocab given (id + 1) rounds 0 #[shift.sampler] shift.docs ∧
      (Shift.turns entry proposals 0 docs.size 0 ⟨sampler, docs, model⟩).map Turn.task =
        sliceSchedule vocab samplers.size given entry := by
  obtain ⟨midway, balanced, sampled⟩ := accounted
  rw [lone, List.map_singleton, List.sum_singleton] at sampled
  have onTime : Shift.OnTime vocab given id rounds 0 0 ⟨sampler, docs, model⟩ :=
    ⟨midway, balanced sampler (Array.mem_toList_iff.mp (lone ▸ List.mem_singleton_self sampler)),
      by rw [Nat.zero_add, sampled]⟩
  obtain ⟨⟨midwayAfter, balancedAfter, sampledAfter⟩, tasks⟩ :=
    onTime.visitDocs knows own there done 0
  have sizes := midway.size
  obtain ⟨midway', same⟩ := midwayAfter.congr 0 (id + 1) (by
    intro number inside
    rw [midwayAfter.size, ← sizes] at inside
    rw [Nat.zero_add, if_pos inside, if_neg (Nat.not_lt_zero number)])
  refine ⟨⟨midway', ?_, ?_⟩, ?_⟩
  · intro other member
    exact List.mem_singleton.mp (Array.mem_toList_iff.mpr member) ▸ balancedAfter
  · rw [same, ← sampledAfter]
    simp
  · have size : samplers.size = 1 := by
      rw [← Array.length_toList, lone, List.length_singleton]
    have planned := filterMap_range given.toList
      (fun document doc => (⟨entry.id, 0, document, doc.indexesIn vocab entry⟩ : Task)) docs.size
    have length : given.toList.length ≤ docs.size := by
      rw [Array.length_toList, sizes]
    simp only [Array.getElem?_toList, List.range_eq_range',
      List.take_of_length_le length] at planned
    rw [tasks, planned, sliceSchedule, size]
    apply List.map_congr_left
    rintro ⟨doc, document⟩ member
    rw [List.mem_zipIdx_iff_getElem?, Array.getElem?_toList] at member
    have first : document / chunkSize given.size 1 = 0 :=
      Nat.lt_one_iff.mp (worker_lt Nat.zero_lt_one (Array.getElem?_eq_some_iff.mp member).1)
    simp only [first]

theorem Accounted.sampleSlice (knows : engine.vocab.Knows given)
    (accounted : Accounted engine.vocab given id rounds 0 engine.samplers engine.block.docs)
    (workers : 0 < engine.samplers.size) (done : Engine.sampleSlice id engine = .ok () after) :
    after.settings = engine.settings ∧ after.vocab = engine.vocab ∧
      after.samplers.size = engine.samplers.size ∧
      Accounted engine.vocab given (id + 1) rounds 0 after.samplers after.block.docs ∧
      (sliceTurns id engine).map Turn.task =
        engine.vocab.slices[id]?.toList.flatMap
          (sliceSchedule engine.vocab engine.samplers.size given) := by
  obtain ⟨entry, slice, there, _, cases⟩ := sampleSlice_cases done
  have own := (knows.lawful.sliced.words_eq there).1
  rw [there, Option.toList_some, List.flatMap_singleton]
  rcases cases with ⟨sampler, shift, lone, visited, turns, changed⟩ | ⟨logs, samplers, docs, passed,
    turns, changed⟩
  · obtain ⟨accounted', tasks⟩ := accounted.visitDocs knows lone own there visited
    rw [turns, changed.samplers, changed.docs]
    refine ⟨changed.settings, changed.vocab, ?_, accounted', tasks⟩
    rw [← Array.length_toList, ← Array.length_toList, lone]
    rfl
  · obtain ⟨accounted', size, tasks⟩ := accounted.overlayPass knows workers own there passed
    rw [turns, changed.samplers, changed.docs]
    exact ⟨changed.settings, changed.vocab, size, accounted', tasks⟩

theorem Accounted.sampleSlices (knows : engine.vocab.Knows given)
    (accounted : Accounted engine.vocab given 0 rounds 0 engine.samplers engine.block.docs)
    (workers : 0 < engine.samplers.size)
    (done : Engine.sampleSlices engine.vocab.slices.size 0 engine = .ok () after) :
    after.settings = engine.settings ∧ after.vocab = engine.vocab ∧
      after.samplers.size = engine.samplers.size ∧
      Accounted engine.vocab given engine.vocab.slices.size rounds 0 after.samplers
        after.block.docs ∧
      (Update.course Update.never Engine.sampleSlice engine.vocab.slices.size 0 engine).flatMap
          (fun stop => (sliceTurns stop.1 stop.2).map Turn.task) =
        schedule engine.vocab engine.samplers.size given := by
  let P : Nat → Engine → Prop := fun id now =>
    now.settings = engine.settings ∧ now.vocab = engine.vocab ∧
      now.samplers.size = engine.samplers.size ∧
      Accounted engine.vocab given id rounds 0 now.samplers now.block.docs
  let read : Nat × Engine → List Task := fun stop => (sliceTurns stop.1 stop.2).map Turn.task
  let planned : Nat → List Task := fun id =>
    engine.vocab.slices[id]?.toList.flatMap (sliceSchedule engine.vocab engine.samplers.size given)
  have pass : ∀ (id : Nat) (now after : Engine), P id now →
      Engine.sampleSlice id now = .ok () after →
      P (id + 1) after ∧ read (id, now) = planned id := by
    rintro id now after ⟨settings, vocab, size, accounted⟩ sampled
    rw [← vocab] at accounted knows
    rw [← size] at workers
    obtain ⟨settings', vocab', size', accounted', tasks⟩ :=
      accounted.sampleSlice knows workers sampled
    rw [vocab] at accounted' tasks vocab'
    rw [size] at tasks size'
    exact ⟨⟨settings'.trans settings, vocab', size', accounted'⟩, tasks⟩
  obtain ⟨⟨settings, vocab, size, accounted'⟩, tasks⟩ :=
    Update.course_map ⟨rfl, rfl, rfl, accounted⟩ pass (steps_of_sampleSlices done)
  rw [Nat.zero_add] at accounted'
  refine ⟨settings, vocab, size, accounted', ?_⟩
  have slices := filterMap_range engine.vocab.slices.toList (fun _ entry => entry)
    engine.vocab.slices.size
  simp only [Option.map_id', List.take_of_length_le Array.length_toList.le, Array.getElem?_toList,
    List.zipIdx_map_fst] at slices
  rw [schedule, ← slices, List.filterMap_eq_flatMap_toList, List.flatMap_assoc,
    List.range_eq_range']
  exact congrArg List.flatten tasks

/-- The tokens that an iteration visits, each by its document and its index there. -/
def visited (engine : Engine) : List (Nat × Nat) :=
  engine.turns.flatMap fun turn => turn.task.tokens

/-- An iteration with every token visited once, in the slice
of its word and by the worker of its document. -/
structure Completed (engine : Engine) (report : IterationReport) (after : Engine) : Prop where
  scheduled : engine.turns.map Turn.task = schedule engine.vocab engine.samplers.size
    engine.block.docs
  enough : engine.block.docs.size ≤ engine.samplers.size * chunkSize engine.block.docs.size
    engine.samplers.size
  workers : ∀ turn ∈ engine.turns, turn.worker < engine.samplers.size
  once : engine.visited.Nodup
  tokens : ∀ document index, (document, index) ∈ engine.visited ↔
    ∃ doc, engine.block.docs[document]? = some doc ∧ index < doc.size
  homes : ∀ turn ∈ engine.turns, turn.slice < engine.vocab.slices.size ∧
    ∀ visit ∈ turn.visits, ∃ doc word,
    engine.block.docs[turn.document]? = some doc ∧ doc.words[visit.index]? = some word ∧
    ∀ (id : Nat) (entry : SliceMeta), engine.vocab.slices[id]? = some entry →
      ((engine.vocab.indexIn? entry word).isSome ↔ id = turn.slice)
  words : after.block.docs.map Document.words = engine.block.docs.map Document.words
  cursors : ∀ doc ∈ after.block.docs, doc.cursor = doc.size
  sampled : report.stats.sampled = engine.block.numTokens
  proposed : report.stats.proposed = 2 * engine.settings.mhStep * report.stats.sampled

/-- What holds of an engine between any two iterations. -/
structure Regular (engine : Engine) : Prop where
  knows : engine.vocab.Knows engine.block.docs
  sorted : ∀ doc ∈ engine.block.docs, doc.Sorted
  slices : 0 < engine.vocab.slices.size
  workers : 0 < engine.samplers.size
  rounds : ∀ sampler ∈ engine.samplers, sampler.mhStep = engine.settings.mhStep

theorem Regular.accounted (regular : engine.Regular) :
    Accounted engine.vocab engine.block.docs 0 engine.settings.mhStep 0
        engine.zeroStatistics.samplers engine.block.docs := by
  refine ⟨⟨rfl, ?_⟩, ?_, ?_⟩
  · intro number doc here
    rw [if_neg (Nat.not_lt_zero number)]
    exact (regular.sorted doc (Array.mem_of_getElem? here)).stands engine.vocab
  · intro sampler member
    obtain ⟨old, inside, rfl⟩ := Array.mem_map.mp member
    exact ⟨regular.rounds old inside, rfl⟩
  · rw [openings, List.sum_eq_zero, List.sum_eq_zero]
    · intro value member
      obtain ⟨number, inside, rfl⟩ := List.mem_mapIdx.mp member
      rfl
    · intro value member
      obtain ⟨sampler, listed, rfl⟩ := List.mem_map.mp member
      obtain ⟨old, _, rfl⟩ := Array.mem_map.mp (Array.mem_toList_iff.mp listed)
      rfl

theorem statistics_eq (engine : Engine) :
    engine.statistics.sampled = (engine.samplers.toList.map fun sampler =>
        sampler.stats.sampled).sum ∧
      engine.statistics.proposed = (engine.samplers.toList.map fun sampler =>
        sampler.stats.proposed).sum := by
  have every : ∀ (samplers : List Sampler) (stats : SamplerStats),
      (samplers.foldl (fun stats sampler => stats + sampler.stats) stats).sampled =
          stats.sampled + (samplers.map fun sampler => sampler.stats.sampled).sum ∧
        (samplers.foldl (fun stats sampler => stats + sampler.stats) stats).proposed =
          stats.proposed + (samplers.map fun sampler => sampler.stats.proposed).sum := by
    intro samplers
    induction samplers with
    | nil => exact fun stats => ⟨rfl, rfl⟩
    | cons sampler samplers ih =>
        intro stats
        obtain ⟨sampled, proposed⟩ := ih (stats + sampler.stats)
        rw [List.foldl_cons, List.map_cons, List.map_cons, List.sum_cons, List.sum_cons,
          sampled, proposed, ← Nat.add_assoc, ← Nat.add_assoc]
        exact ⟨rfl, rfl⟩
  obtain ⟨sampled, proposed⟩ := every engine.samplers.toList SamplerStats.zero
  rw [statistics, ← Array.foldl_toList, sampled, proposed]
  exact ⟨Nat.zero_add _, Nat.zero_add _⟩

section Scheduled

variable (regular : engine.Regular)
  (scheduled : engine.turns.map Turn.task = schedule engine.vocab engine.samplers.size
    engine.block.docs) {turn : Turn}
  (member : turn ∈ engine.turns)
include regular scheduled member

theorem mem_sliceSchedule_of_scheduled : ∃ entry, engine.vocab.slices[turn.slice]? = some entry ∧
    turn.task ∈ sliceSchedule engine.vocab engine.samplers.size engine.block.docs entry := by
  have listed : turn.task ∈ schedule engine.vocab engine.samplers.size engine.block.docs :=
    scheduled ▸ List.mem_map_of_mem member
  obtain ⟨entry, inside, mine⟩ := List.mem_flatMap.mp listed
  obtain ⟨id, there⟩ := Array.getElem?_of_mem (Array.mem_toList_iff.mp inside)
  obtain ⟨_, _, slice, _⟩ := mem_sliceSchedule mine
  have own : turn.slice = id := slice.trans (regular.knows.lawful.sliced.words_eq there).1
  exact ⟨entry, own ▸ there, mine⟩

theorem worker_lt_of_scheduled : turn.worker < engine.samplers.size := by
  obtain ⟨entry, _, mine⟩ := mem_sliceSchedule_of_scheduled regular scheduled member
  obtain ⟨doc, here, _, worker, _⟩ := mem_sliceSchedule mine
  have less := worker_lt regular.workers (Array.getElem?_eq_some_iff.mp here).1
  exact worker.trans_lt less

theorem home_of_scheduled : turn.slice < engine.vocab.slices.size ∧
    ∀ visit ∈ turn.visits, ∃ doc word,
    engine.block.docs[turn.document]? = some doc ∧ doc.words[visit.index]? = some word ∧
    ∀ (id : Nat) (entry : SliceMeta), engine.vocab.slices[id]? = some entry →
      ((engine.vocab.indexIn? entry word).isSome ↔ id = turn.slice) := by
  obtain ⟨entry, there, mine⟩ := mem_sliceSchedule_of_scheduled regular scheduled member
  obtain ⟨doc, here, _, _, indexes⟩ := mem_sliceSchedule mine
  refine ⟨(Array.getElem?_eq_some_iff.mp there).1, ?_⟩
  intro visit inside
  have listed : visit.index ∈ doc.indexesIn engine.vocab entry := by
    rw [← indexes]
    exact List.mem_map_of_mem inside
  obtain ⟨word, read, found⟩ := mem_indexesIn.mp listed
  exact ⟨doc, word, here, read, regular.knows.lawful.indexIn?_iff there found⟩

end Scheduled

theorem Regular.next (regular : engine.Regular) (settings : after.settings = engine.settings)
    (vocab : after.vocab = engine.vocab) (size : after.samplers.size = engine.samplers.size)
    (rounds : ∀ sampler ∈ after.samplers, sampler.mhStep = engine.settings.mhStep)
    (words : after.block.docs.map Document.words = engine.block.docs.map Document.words) :
    after.Regular := by
  refine ⟨?_, ?_, ?_, ?_, ?_⟩
  · rw [vocab]
    exact regular.knows.congr words
  · intro doc member
    rw [Document.sorted_iff]
    exact Document.forall_words (P := fun words => words.toList.Pairwise (· ≤ ·)) words
      (fun doc member => doc.sorted_iff.mp (regular.sorted doc member)) doc member
  · rw [vocab]
    exact regular.slices
  · rw [size]
    exact regular.workers
  · rw [settings]
    exact rounds

/-- Every iteration that succeeds visits every token once,
and leaves the engine ready for the next one. -/
theorem Regular.runIteration {report : IterationReport} (regular : engine.Regular)
    (done : Engine.runIteration engine = .ok report after) :
    Completed engine report after ∧ after.Regular := by
  obtain ⟨between, sampled, _, stats, rfl⟩ := runIteration_cases done
  have sameSize : engine.zeroStatistics.samplers.size = engine.samplers.size := Array.size_map
  have knows : engine.zeroStatistics.vocab.Knows engine.block.docs := regular.knows
  obtain ⟨settings, vocab, size, ⟨midway, balanced, total⟩, tasks⟩ :=
    Accounted.sampleSlices knows regular.accounted (sameSize ▸ regular.workers) sampled
  obtain ⟨ends, whole⟩ := midway.finished regular.knows regular.slices
  have scheduled :
      engine.turns.map Turn.task = schedule engine.vocab engine.samplers.size
      engine.block.docs := by
    rw [← sameSize, turns_eq_course, List.map_flatMap]
    exact tasks
  have visits : engine.visited =
      (schedule engine.vocab engine.samplers.size engine.block.docs).flatMap Task.tokens := by
    rw [visited, ← scheduled, List.flatMap_map]
  obtain ⟨once, tokens⟩ := schedule_tokens engine.samplers.size regular.knows
  obtain ⟨sampledAll, proposedAll⟩ := statistics_eq between
  have proposals : between.samplers.toList.map (fun sampler => sampler.stats.proposed) =
      (between.samplers.toList.map fun sampler => sampler.stats.sampled).map
        (2 * engine.settings.mhStep * ·) := by
    rw [List.map_map]
    exact List.map_congr_left fun sampler member =>
      (balanced sampler (Array.mem_toList_iff.mp member)).proposed
  constructor
  · refine ⟨scheduled, le_mul_chunkSize _ regular.workers, fun turn =>
      worker_lt_of_scheduled regular scheduled, visits ▸ once, visits ▸ tokens, fun turn =>
      home_of_scheduled regular scheduled, midway.words, ends, ?_, ?_⟩
    · rw [stats, sampledAll]
      exact total.trans whole
    · rw [stats, proposedAll, proposals, List.sum_map_mul_left, List.map_id', sampledAll]
  · exact regular.next settings vocab (size.trans sameSize) (fun sampler member =>
      (balanced sampler member).mhStep)
      midway.words

variable {settings : Settings} {seed : Nat} {block : Block}

inductive Trained (settings : Settings) (seed : Nat) (block : Block) : Engine → Prop where
  | start {engine : Engine} (started : Engine.start settings seed block = .ok engine) :
      Trained settings seed block engine
  | iteration {engine after : Engine} {report : IterationReport}
      (trained : Trained settings seed block engine)
      (ran : Engine.runIteration engine = .ok report after) : Trained settings seed block after

theorem regular_of_start (started : Engine.start settings seed block = .ok engine)
    (sorted : ∀ doc ∈ block.docs, doc.Sorted) : engine.Regular := by
  have begun := start_eq_ok.mp started
  have whole := begun.whole
  have rounds := begun.samplers_every (P := fun sampler => sampler.mhStep = engine.settings.mhStep)
    (fun rng => rfl)
  -- There is a word, so there is a slice.
  obtain ⟨entry, inside⟩ := begun.exists_entry
  obtain ⟨id, _, _, there, _⟩ := begun.lawful.sliced.exists_seats inside
  refine ⟨⟨begun.lawful, ?_⟩, whole ▸ sorted,
    Nat.zero_lt_of_lt (Array.getElem?_eq_some_iff.mp there).1, begun.workers, rounds⟩
  rw [whole]
  intro doc listed word read
  obtain ⟨position, here⟩ := Array.getElem?_of_mem read
  obtain ⟨token, own, rfl⟩ := Document.mem_words here
  exact begun.describes.known token
    (Tokens.mem_ofDocs.mpr ⟨doc, Array.mem_toList_iff.mpr listed, own⟩)

theorem Trained.regular (sorted : ∀ doc ∈ block.docs, doc.Sorted)
    (trained : Trained settings seed block engine) :
    engine.Regular := by
  induction trained with
  | start started => exact regular_of_start started sorted
  | iteration trained ran ih => exact (ih.runIteration ran).2

theorem Trained.runs (sorted : ∀ doc ∈ block.docs, doc.Sorted) (few : block.numTokens < 2147483648)
    (trained : Trained settings seed block engine) : Runs settings seed block 0 engine := by
  induction trained with
  | start started => exact .start started
  | iteration trained ran ih =>
      obtain ⟨report, after, again, run⟩ := ih.iteration sorted few
      rw [ran] at again
      cases again
      exact run

/-- In an iteration every token is visited once, whatever is
drawn, and with fewer than 2^31 tokens it succeeds. -/
theorem iteration_completes (sorted : ∀ doc ∈ block.docs, doc.Sorted)
    (trained : Trained settings seed block engine) :
    (∀ report after, Engine.runIteration engine = .ok report after →
      Completed engine report after) ∧
      (block.numTokens < 2147483648 →
      ∃ report after, Engine.runIteration engine = .ok report after) := by
  constructor
  · intro report after ran
    exact ((trained.regular sorted).runIteration ran).1
  · intro few
    obtain ⟨report, after, ran, _⟩ := (trained.runs sorted few).iteration sorted few
    exact ⟨report, after, ran⟩

/-- Two workers on three documents, one of them empty, and a cursor that stands behind a token. -/
theorem iteration_completes_pair :
    let settings : Settings :=
      { numTopics := 2, numWorkers := 2, counterCapacity := 1, modelMaxCapacity := 1 }
    let block : Block := ⟨#[⟨#[⟨3, 0⟩, ⟨7, 1⟩], 1⟩, ⟨#[], 0⟩, ⟨#[⟨7, 0⟩], 0⟩]⟩
    (∀ doc ∈ block.docs, doc.Sorted) ∧ block.numTokens < 2147483648 ∧
    ∃ engine, Trained settings 1 block engine ∧
      ∃ report after, Engine.runIteration engine = .ok report after ∧
        Completed engine report after := by
  intro settings block
  have sorted : ∀ doc ∈ block.docs, doc.Sorted := by
    simp [block, Document.Sorted]
  have few : block.numTokens < 2147483648 := by decide
  obtain ⟨engine, started⟩ :=
    (exists_start_iff few 1).mpr (by decide +kernel : Accepts (withVocabSize settings block) block)
  have trained : Trained settings 1 block engine := .start started
  obtain ⟨complete, succeeds⟩ := iteration_completes sorted trained
  obtain ⟨report, after, ran⟩ := succeeds few
  exact ⟨sorted, few, engine, trained, report, after, ran, complete report after ran⟩

end Engine

end LatentTopics
