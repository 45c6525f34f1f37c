import Mathlib
import LatentTopics.Proofs.Sampler.Reversal
import LatentTopics.Proofs.Sampler.Serving

/-! The moments in which tokens are resampled. Whatever became of the
tokens before, the counts that the moves are weighed by hold the
token itself; so taking it out of them leaves no count below zero. -/
namespace LatentTopics

/-- The moves of a visit are weighed by acceptance under its counts, and these hold its token and
are those of a document and of a collection of tokens. -/
structure Visit.Covered (visit : Visit) (token : Token) : Prop where
  here : visit.doc.tokens[visit.index]? = some token
  byWord : visit.rule.byWord = visit.priors.acceptance visit.tally
    visit.priors.wordProposal token.topic
  byDoc : visit.rule.byDoc = visit.priors.acceptance visit.tally
    visit.priors.docProposal token.topic
  doc : ∀ topic, (visit.tally topic).doc = visit.doc.tokens.toList.countP fun other =>
    other.topic = topic
  word : 1 ≤ (visit.tally token.topic).word
  total : 1 ≤ (visit.tally token.topic).total
  words : ∀ topic, 0 ≤ (visit.tally topic).word
  totals : ∀ topic, 0 ≤ (visit.tally topic).total

theorem Visit.Covered.holds {visit : Visit} {token : Token} (covered : visit.Covered token) :
    Tally.Holds visit.tally token.topic := by
  have present : 0 < visit.doc.tokens.toList.countP fun other => other.topic = token.topic := by
    rw [List.countP_pos_iff]
    exact ⟨token, Array.mem_toList_iff.mpr (Array.mem_of_getElem? covered.here), by simp⟩
  constructor
  · intro topic
    refine ⟨?_, covered.words topic, covered.totals topic⟩
    rw [covered.doc topic]
    exact Int.natCast_nonneg _
  · rw [covered.doc token.topic]
    exact Int.ofNat_le.mpr present
  · exact covered.word
  · exact covered.total

theorem Visit.Covered.exclude_nonneg {visit : Visit} {token : Token} (covered : visit.Covered token)
    (topic : Nat) :
    0 ≤ ((visit.tally topic).exclude (topic = token.topic)).doc ∧
      0 ≤ ((visit.tally topic).exclude (topic = token.topic)).word ∧
      0 ≤ ((visit.tally topic).exclude (topic = token.topic)).total := by
  obtain ⟨doc, word, total⟩ := covered.holds.exclude topic
  exact ⟨doc, word, total⟩

def Covers {M : Type} [TopicCounts M] (words : Array Nat)
    (holds : Multiset Token → M → Prop) : Prop :=
  ∀ (tokens : Multiset Token) (model : M), holds tokens model →
    (∀ word ∈ words, ∀ topic, (tokens.count ⟨word, topic⟩ : Int) ≤
      TopicCounts.wordCount model word topic) ∧
      ∀ topic, (Tokens.ofTopic tokens topic : Int) ≤ TopicCounts.total model topic

theorem InPlace.covers (slice : Slice) (summary : Summary) (limit : Nat → Nat)
    (given : Multiset Token) : Covers slice.words (Holds slice summary limit given) := by
  rintro tokens model ⟨counted, shape, _, _⟩
  constructor
  · intro word member topic
    exact (counted.rows.counts word (shape.words ▸ member) topic).ge
  · exact fun topic => (counted.totals.get_eq counted.topics topic).ge

/-- The counts from the start of a pass are stale, but together with the worker's own changes they
cover its tokens: those of the other workers are counted beside them. -/
theorem Overlay.covers {slice : Slice} {summary : Summary} {limit : Nat → Nat}
    {given others : Multiset Token} (counted : Counted slice summary limit (given + others)) :
    Covers slice.words (Holds slice summary given) := by
  rintro tokens view ⟨follows, _⟩
  constructor
  · intro word member topic
    have shown : TopicCounts.wordCount view word topic =
        ((tokens + others).count ⟨word, topic⟩ : Int) :=
      follows.wordCount_eq counted.rows member topic
    rw [shown, Multiset.count_add]
    omega
  · intro topic
    have shown : TopicCounts.total view topic = (Tokens.ofTopic (tokens + others) topic : Int) :=
      follows.total_eq counted.totals counted.topics topic
    rw [shown, Tokens.ofTopic, Tokens.ofTopic, Multiset.countP_add]
    omega

namespace Sampler

variable {M : Type} [TopicCounts M] {words : Array Nat} {numTopics : Nat}
  {holds : Multiset Token → M → Prop}
  {others : Multiset Token}

theorem Bench.Ready.covered {bench : Bench M} (ready : bench.Ready numTopics holds others)
    (covers : Covers words holds) {index : Nat} {token : Token}
    (here : bench.doc.tokens[index]? = some token) (own : token.word ∈ words) :
    (moment index bench).Covered token := by
  obtain ⟨wordCounts, totals⟩ := covers _ _ ready.model
  have member : token ∈ (bench.doc.tokens.toList + others : Multiset Token) :=
    Multiset.mem_add.mpr
      (Or.inl (Multiset.mem_coe.mpr (Array.mem_toList_iff.mpr (Array.mem_of_getElem? here))))
  have inWord : 0 < (bench.doc.tokens.toList + others : Multiset Token).count ⟨token.word,
      token.topic⟩ :=
    Multiset.count_pos.mpr member
  have inTopic : 0 < Tokens.ofTopic (bench.doc.tokens.toList + others) token.topic :=
    Multiset.countP_pos.mpr ⟨token, member, rfl⟩
  have word : (bench.doc.tokens.getD index default).word = token.word := by
    rw [Arrays.getD_of_getElem? here]
  have topic : (bench.doc.tokens.getD index default).topic = token.topic := by
    rw [Arrays.getD_of_getElem? here]
  have shown := wordCounts token.word own
  refine ⟨here, ?_, ?_, ?_, ?_, ?_, ?_, ?_⟩
  · rw [← topic]
    rfl
  · rw [← topic]
    rfl
  · intro topic
    have counts := ready.counter.counts topic
    rw [Document.topics, Multiset.coe_count, List.count_eq_countP, List.countP_map] at counts
    simp only [moment, tally, counts]
    rfl
  · have := shown token.topic
    simp only [moment, tally, word]
    omega
  · have := totals token.topic
    simp only [moment, tally]
    omega
  · intro topic
    have := shown topic
    simp only [moment, tally, word]
    omega
  · intro topic
    have := totals topic
    simp only [moment, tally]
    omega

omit [TopicCounts M] in
theorem exists_token {entry : SliceMeta} {doc : Document} (waits : doc.Waits words numTopics entry)
    {bench : Bench M} (same : bench.doc.words = doc.words) {index : Nat}
    (least : doc.opening entry.id ≤ index) (below : index < doc.size)
    (within : isBeyond entry.lastWord index bench = false) :
    ∃ token, bench.doc.tokens[index]? = some token ∧ token.word ∈ words := by
  have inside : index < bench.doc.tokens.size := by
    rwa [← Document.size, ← Document.size_words, same, Document.size_words]
  have here := Array.getElem?_eq_getElem inside
  have read : doc.words[index]? = some bench.doc.tokens[index].word := by
    rw [← same, Document.words, Array.getElem?_map, here, Option.map_some]
  rw [isBeyond, Arrays.getD_of_getElem? here, decide_eq_false_iff_not, not_lt] at within
  exact ⟨_, here, waits.owned index _ ((doc.opening_le entry.id index).mp least) read within⟩

theorem visits_covered (serves : Serves words numTopics holds) (covers : Covers words holds)
    {proposals : AliasSlice} (legal : proposals.Legal numTopics) (entry : SliceMeta)
    {sampler : Sampler} (ready : sampler.Ready numTopics) {doc : Document}
    (waits : doc.Waits words numTopics entry) {model : M}
    (held : holds (doc.tokens.toList + others) model) :
    ∀ visit ∈ visits entry proposals ⟨sampler, doc, model⟩, ∃ token, visit.Covered token := by
  let opened : Document := { doc with cursor := doc.opening entry.id }
  have small : opened.size < 2147483648 := waits.small
  obtain ⟨counted, recounted, benchReady⟩ := recount_ok ready small waits.topics held
  intro visit member
  rw [visits_eq_course (by rw [rewind_eq]; exact recounted)] at member
  obtain ⟨stop, listed, rfl⟩ := List.mem_map.mp member
  have sizes : opened.size = doc.size := rfl
  have kept : ∀ (index : Nat) (bench after : Bench M), doc.opening entry.id ≤ index →
      index < doc.opening entry.id + (opened.size - doc.opening entry.id) →
      bench.Ready numTopics holds others ∧ bench.doc.words = doc.words →
        isBeyond entry.lastWord index bench = false →
      visitAt proposals index bench = .ok () after → after.Ready numTopics holds others ∧
        after.doc.words = doc.words := by
    rintro index bench after least below ⟨benchReady, same⟩ within visited
    obtain ⟨token, here, own⟩ := exists_token waits same least (by omega) within
    obtain ⟨after', again, readyAfter, keptDoc⟩ :=
      visit_ok serves legal trainingRule benchReady here own
    rw [visitAt, Arrays.getD_of_getElem? here, again] at visited
    cases visited
    exact ⟨readyAfter, keptDoc.words.trans same⟩
  obtain ⟨least, below, within, benchReady', same⟩ :=
    Update.course_kept _ ⟨benchReady, rfl⟩ kept stop listed
  obtain ⟨token, here, own⟩ := exists_token waits same least (by omega) within
  exact ⟨token, benchReady'.covered covers here own⟩

end Sampler

end LatentTopics
