import Mathlib
import LatentTopics.Proofs.Engine.Budgets
import LatentTopics.Proofs.Engine.Inference
import LatentTopics.Proofs.Report.Reading
import LatentTopics.Proofs.Report.Tables

/-! What an engine reports of its counts. The text of the table and the lists of top words are those
of the counts, whatever the engine went through and however its words are cut, so that two engines
with the same counts report the same. -/
namespace LatentTopics

open Report

namespace Engine

/-- The reports of an engine: a line for every word that has counts, from which the counts are read
back, and for every topic its words by rank, of which there are as many as were asked for. -/
structure Reports (engine : Engine) : Prop where
  table : ∃ table, Tabulates engine.store.count table ∧
    (wordTopicText engine.store).toList = (table.flatMap fun line => spellLine line ++ ['\n']) ∧
    readTable? (wordTopicText engine.store) = some table
  lists : ∀ limit, (topWords engine.settings.numTopics limit engine.store).length =
    engine.settings.numTopics
  ranks : ∀ topic < engine.settings.numTopics, ∃ words, Ranks (engine.store.count · topic) words ∧
    ∀ limit, (topWords engine.settings.numTopics limit engine.store)[topic]? =
      some (words.take limit)
  topics : ∀ word topic, engine.store.count word topic ≠ 0 → topic < engine.settings.numTopics

variable {settings settings' : Settings} {seed seed' : Nat} {block block' : Block}
  {engine first second : Engine}

theorem Reached.reports (reached : Reached settings seed block engine) : engine.Reports := by
  obtain ⟨lawful, numTopics, intact⟩ := reached.intact
  refine ⟨⟨_, tabulates_wordTopics lawful intact.store.fits, toList_wordTopicText _,
    readTable?_wordTopicText _⟩, fun limit => length_topWords _ limit _, fun topic below =>
    getElem?_topWords lawful intact.store.fits _ topic below, ?_⟩
  exact fun word topic present => numTopics ▸ intact.store.count_topic lawful present

theorem Reports.counts_of_text (reports : first.Reports) (reports' : second.Reports)
    (same : wordTopicText first.store = wordTopicText second.store) (word topic : Nat) :
    first.store.count word topic = second.store.count word topic := by
  obtain ⟨table, tabulates, -, read⟩ := reports.table
  obtain ⟨other, tabulates', -, read'⟩ := reports'.table
  rw [same, read'] at read
  obtain rfl := Option.some.inj read
  have entries : ∀ count ≠ 0, first.store.count word topic = count ↔
      second.store.count word topic = count := by
    intro count nonzero
    have both := (tabulates.entries word topic count).symm.trans
      (tabulates'.entries word topic count)
    simpa only [nonzero, ne_eq, not_false_eq_true, true_and] using both
  by_cases zero : first.store.count word topic = 0
  · by_contra different
    exact different ((entries _ fun none => different (zero.trans none.symm)).mpr rfl)
  · exact ((entries _ zero).mp rfl).symm

theorem Reports.text_of_counts (reports : first.Reports) (reports' : second.Reports)
    (same : first.store.count = second.store.count) :
    wordTopicText first.store = wordTopicText second.store := by
  obtain ⟨table, tabulates, written, -⟩ := reports.table
  obtain ⟨other, tabulates', written', -⟩ := reports'.table
  rw [same] at tabulates
  rw [tabulates.unique tabulates', ← written'] at written
  exact String.toList_injective written

theorem Reports.topWords_of_counts (reports : first.Reports) (reports' : second.Reports)
    (numTopics : first.settings.numTopics = second.settings.numTopics)
    (same : first.store.count = second.store.count) (limit : Nat) :
    topWords first.settings.numTopics limit first.store = topWords second.settings.numTopics limit
        second.store := by
  apply List.ext_getElem?
  intro topic
  by_cases below : topic < first.settings.numTopics
  · obtain ⟨words, ranks, top⟩ := reports.ranks topic below
    obtain ⟨others, ranks', top'⟩ := reports'.ranks topic (numTopics ▸ below)
    rw [same] at ranks
    rw [top, top', ranks.unique ranks']
  · rw [List.getElem?_eq_none ((reports.lists limit).le.trans (not_lt.mp below)),
      List.getElem?_eq_none ((reports'.lists limit).le.trans (numTopics ▸ not_lt.mp below))]

/-- The reports of engines depend on their counts only, and
the text of the table determines these. -/
theorem reports_canonical (reached : Reached settings seed block first)
    (reached' : Reached settings' seed' block' second)
    (numTopics : first.settings.numTopics = second.settings.numTopics) :
    first.Reports ∧ second.Reports ∧
      (wordTopicText first.store = wordTopicText second.store ↔
        ∀ word topic, first.store.count word topic = second.store.count word topic) ∧
      ((∀ word topic, first.store.count word topic = second.store.count word topic) → ∀ limit,
        topWords first.settings.numTopics limit first.store =
          topWords second.settings.numTopics limit second.store) := by
  have reports := reached.reports
  have reports' := reached'.reports
  refine ⟨reports, reports', ⟨reports.counts_of_text reports', ?_⟩, ?_⟩
  · exact fun same => reports.text_of_counts reports' (funext fun word => funext (same word))
  · exact fun same => reports.topWords_of_counts reports' numTopics (funext fun word =>
      funext (same word))

def trio : Block :=
  ⟨#[⟨#[⟨3, 0⟩, ⟨7, 1⟩], 0⟩, ⟨#[⟨7, 0⟩, ⟨9, 1⟩], 0⟩]⟩

theorem trio_sorted : ∀ doc ∈ trio.docs, doc.Sorted := by
  simp [trio, Document.Sorted]

theorem exists_trio (settings : Settings) (seed : Nat) (topics : settings.numTopics = 2)
    (load : settings.loadFactor = 2) (unset : settings.numVocabs = 0)
    (checked : (withVocabSize settings trio).validate = .ok ()) :
    ∃ engine, Reached settings seed trio engine ∧ engine.settings.numTopics = 2 ∧
      engine.vocab = Vocabulary.slice ⟨settings.modelMaxCapacity, settings.aliasMaxCapacity⟩
        ⟨2, #[⟨3, 1, .dense, true⟩, ⟨7, 2, .dense, true⟩, ⟨9, 1, .dense, true⟩],
          #[⟨0, 3, 9, 0, 3⟩]⟩ ∧
      ∀ word topic, engine.store.count word topic = trio.tokens.count ⟨word, topic⟩ := by
  have few : trio.numTokens < 2147483648 := by decide
  have shape : withVocabSize settings trio = { settings with numVocabs := 10 } := by
    rw [withVocabSize, if_pos unset]
    rfl
  have accepted : Accepts (withVocabSize settings trio) trio := by
    refine ⟨?_, by decide, checked, ?_⟩
    · rw [shape]
      exact Nat.succ_ne_zero 9
    · rw [withVocabSize_numTopics, shape, topics]
      exact (by decide : trio.validate 10 2 = .ok ())
  obtain ⟨engine, started⟩ := (exists_start_iff few seed).mpr accepted
  have begun := start_eq_ok.mp started
  obtain ⟨vocab, made, cut⟩ := begun.laidOut
  rw [begun.sized, shape] at made cut
  dsimp only at made cut
  rw [topics, load] at made
  refine ⟨engine, .start started, begun.settings_numTopics.trans topics, ?_, ?_⟩
  · rw [cut, Except.ok.inj (made.symm.trans Vocabulary.ofDocuments_trio)]
  · rw [← begun.whole]
    exact (sound_of_start started trio_sorted few).consistent.counts

/-- The same documents, with all words in one slice and with two slices. -/
theorem reports_canonical_cut :
    let whole : Settings := { numTopics := 2, counterCapacity := 1 }
    let cut : Settings :=
      { numTopics := 2, counterCapacity := 1, modelMaxCapacity := 4, aliasMaxCapacity := 8 }
    ∃ first second, Reached whole 1 trio first ∧ Reached cut 2 trio second ∧
      first.settings.numTopics = second.settings.numTopics ∧ first.vocab.slices.size = 1 ∧
        second.vocab.slices.size = 2 ∧
      wordTopicText first.store = wordTopicText second.store ∧
      ∀ limit, topWords 2 limit first.store = topWords 2 limit second.store := by
  intro whole cut
  obtain ⟨first, reached, topics, vocab, counts⟩ :=
    exists_trio whole 1 rfl rfl rfl (by decide +kernel)
  obtain ⟨second, reached', topics', vocab', counts'⟩ :=
    exists_trio cut 2 rfl rfl rfl (by decide +kernel)
  obtain ⟨-, -, text, lists⟩ := reports_canonical reached reached' (topics.trans topics'.symm)
  have same : ∀ word topic, first.store.count word topic = second.store.count word topic :=
    fun word topic =>
    (counts word topic).trans (counts' word topic).symm
  refine ⟨first, second, reached, reached',
    topics.trans topics'.symm, by rw [vocab]; decide +kernel, by rw [vocab']; decide +kernel,
    text.mpr same, fun limit => ?_⟩
  have lists' := lists same limit
  rwa [topics, topics'] at lists'

end Engine

end LatentTopics
