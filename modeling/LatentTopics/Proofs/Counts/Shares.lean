import Mathlib
import LatentTopics.Engine.Pass
import LatentTopics.Proofs.Counts.Counting

/-! Shares of the tokens. A worker that changes topics of its own tokens
alone leaves a log that can be merged whenever the counts still hold its
tokens, whatever the logs of the other workers have done before. -/
namespace LatentTopics

structure Share where
  before : Multiset Token
  after : Multiset Token
  log : DeltaLog

namespace Share

/-- The worker has changed topics of tokens of some words, to topics that exist. -/
structure Turned (share : Share) (words : Array Nat) (numTopics : Nat) : Prop where
  turns : share.log.Turns share.before share.after
  foreign : ∀ token : Token, token.word ∉ words → share.after.count token = share.before.count token
  topics : ∀ token ∈ share.after, token ∈ share.before ∨ token.topic < numTopics
  sizes : ∀ word, Tokens.ofWord share.after word = Tokens.ofWord share.before word

def befores (shares : List Share) : Multiset Token :=
  (shares.map Share.before).sum

def afters (shares : List Share) : Multiset Token :=
  (shares.map Share.after).sum

theorem count_afters {shares : List Share} {words : Array Nat} {numTopics : Nat}
    (turned : ∀ share ∈ shares, share.Turned words numTopics) {token : Token}
    (missing : token.word ∉ words) :
    (afters shares).count token = (befores shares).count token := by
  induction shares with
  | nil => rfl
  | cons share shares ih =>
      have rest := ih fun later member => turned later (List.mem_cons_of_mem _ member)
      rw [afters, befores] at rest ⊢
      rw [List.map_cons, List.map_cons, List.sum_cons, List.sum_cons, Multiset.count_add,
        Multiset.count_add, rest, (turned share List.mem_cons_self).foreign token missing]

theorem ofWord_afters {shares : List Share} {words : Array Nat} {numTopics : Nat}
    (turned : ∀ share ∈ shares, share.Turned words numTopics) (word : Nat) :
    Tokens.ofWord (afters shares) word = Tokens.ofWord (befores shares) word := by
  induction shares with
  | nil => rfl
  | cons share shares ih =>
      have rest := ih fun later member => turned later (List.mem_cons_of_mem _ member)
      have own := (turned share List.mem_cons_self).sizes word
      rw [afters, befores, Tokens.ofWord, Tokens.ofWord] at rest ⊢
      rw [Tokens.ofWord, Tokens.ofWord] at own
      rw [List.map_cons, List.map_cons, List.sum_cons, List.sum_cons, Multiset.countP_add,
        Multiset.countP_add, rest, own]

end Share

theorem Overlay.Follows.turn {slice : Slice} {summary : Summary} {limit : Nat → Nat}
    {numTopics : Nat} {before after others : Multiset Token} {view : Overlay} {change : Change}
    (follows : Follows slice summary before after view)
    (turned : (⟨before, after, view.log⟩ : Share).Turned slice.words numTopics)
    (tallies : slice.Tallies limit (before + others)) (member : change.word ∈ slice.words)
    (source : change.source ∈ after) (below : change.new < numTopics) :
    ∃ view', Overlay.commit change view = .ok () view' ∧
      Follows slice summary before (Tokens.move change after) view' ∧
      (⟨before, Tokens.move change after, view'.log⟩ : Share).Turned slice.words numTopics := by
  obtain ⟨view', committed, follows', _⟩ := follows.commit tallies member source
  refine ⟨view', committed, follows', follows'.turns, follows'.foreign, ?_, ?_⟩
  · intro token inside
    rcases Tokens.mem_move inside with rfl | old
    · exact Or.inr below
    · exact turned.topics token old
  · intro word
    dsimp only
    rw [Tokens.ofWord_move source]
    exact turned.sizes word

section Merging

variable {slice : Slice} {summary : Summary} {limit : Nat → Nat} {others : Multiset Token}

theorem Counted.share_topics (counted : Counted slice summary limit others) {share : Share}
    (part : share.before ≤ others) (turned : share.Turned slice.words summary.numTopics) :
    (∀ token ∈ share.after, token.topic < summary.numTopics) ∧
      ∀ token ∈ share.before + share.after, token.topic < summary.numTopics := by
  have old : ∀ token ∈ share.before, token.topic < summary.numTopics :=
    fun token member => counted.topics token (Multiset.mem_of_le part member)
  have new : ∀ token ∈ share.after, token.topic < summary.numTopics := by
    intro token member
    rcases turned.topics token member with before | below
    · exact old token before
    · exact below
  refine ⟨new, ?_⟩
  intro token member
  rcases Multiset.mem_add.mp member with before | after
  · exact old token before
  · exact new token after

theorem Counted.share_within (counted : Counted slice summary limit others) {share : Share}
    {rest : Multiset Token} (split : share.before + rest = others)
    (turned : share.Turned slice.words summary.numTopics) :
    ∀ word ∈ slice.words, Tokens.ofWord (share.after + rest) word ≤ limit word := by
  intro word member
  have within := counted.rows.within word member
  rw [← split] at within
  rw [Tokens.ofWord, Multiset.countP_add, ← Tokens.ofWord, ← Tokens.ofWord] at within ⊢
  rwa [turned.sizes]

/-- The logs of several workers, merged in turn: the tokens
of those that are still to come stay counted. -/
theorem Counted.mergeLogs (shares : List Share)
    (counted : Counted slice summary limit (Share.befores shares + others))
    (turned : ∀ share ∈ shares, share.Turned slice.words summary.numTopics) :
    ∃ slice' summary', Engine.mergeLogs (shares.map Share.log) (slice, summary) =
        .ok () (slice', summary') ∧
      Counted slice' summary' limit (Share.afters shares + others) ∧ slice.SameShape slice' ∧
      summary'.numTopics = summary.numTopics := by
  induction shares generalizing slice summary others with
  | nil => exact ⟨slice, summary, rfl, counted, Slice.SameShape.refl slice, rfl⟩
  | cons share shares ih =>
      have own := turned share List.mem_cons_self
      -- For this log the later shares are others; for the later logs this one is, as it has become.
      have split : Share.befores (share :: shares) + others =
          share.before + (Share.befores shares + others) := by
        rw [Share.befores, List.map_cons, List.sum_cons, add_assoc, ← Share.befores]
      rw [split] at counted
      obtain ⟨slice', summary', merged, counted', shape, size⟩ :=
        counted.mergeInto own.turns own.foreign
        (counted.share_topics (Multiset.le_add_right _ _) own).1 (counted.share_within rfl own)
      have swapped : share.after + (Share.befores shares + others) = Share.befores shares +
          (share.after + others) := by
        rw [← add_assoc, ← add_assoc, add_comm share.after]
      rw [swapped] at counted'
      obtain ⟨slice'', summary'', rest, counted'', shape', size'⟩ := ih counted'
        (fun later member =>
          by rw [shape.words, size]; exact turned later (List.mem_cons_of_mem _ member))
      refine ⟨slice'', summary'', ?_, ?_, shape.trans shape', size'.trans size⟩
      · simp only [List.map_cons, Engine.mergeLogs, merged]
        exact rest
      · rw [Share.afters, List.map_cons, List.sum_cons, ← Share.afters, add_assoc, add_left_comm]
        exact counted''

/-- No count is negative, and no row holds more topics than its word has tokens. -/
structure Safe (limit : Nat → Nat) (slice : Slice) (summary : Summary) : Prop where
  rows : ∀ word topic, 0 ≤ slice.count word topic
  totals : ∀ topic, 0 ≤ summary.get topic
  few : ∀ (word : Nat) (row : Row), (word, row) ∈ slice.rows → row.pairs.length ≤ limit word

/-- A log is merged without a fault, and the counts are safe after each single addition. -/
structure MergesSafely (limit : Nat → Nat) (slice : Slice) (summary : Summary)
    (log : DeltaLog) : Prop where
  rows : ∀ done left, log.wordChanges = done ++ left →
    ∃ slice', DeltaLog.applyToRows done slice = .ok () slice' ∧ Safe limit slice' summary
  totals : ∃ slice', DeltaLog.applyToRows log.wordChanges slice = .ok () slice' ∧
    ∀ done left, log.totalChanges = done ++ left →
      ∃ summary', DeltaLog.applyToTotals done summary = .ok () summary' ∧ Safe limit slice' summary'

theorem Slice.Tallies.safe {tokens : Multiset Token} (tallies : slice.Tallies limit tokens)
    (totals : ∀ topic, 0 ≤ summary.get topic) : Safe limit slice summary := by
  refine ⟨tallies.count_nonneg, totals, ?_⟩
  intro word row member
  obtain ⟨inside, sound, counts⟩ := Store.mem_slice_rows tallies.valid member
  have few := Row.length_pairs_le_card sound (Tokens.topicsOf tokens word) (by
    intro topic present
    rw [counts, tallies.counts word inside, Int.natCast_ne_zero] at present
    exact Tokens.mem_topicsOf present)
  exact (few.trans (Tokens.card_topicsOf_le tokens word)).trans (tallies.within word inside)

theorem Counted.mergesSafely {share : Share}
    (counted : Counted slice summary limit (share.before + others))
    (turned : share.Turned slice.words summary.numTopics) :
    MergesSafely limit slice summary share.log := by
  obtain ⟨_, every⟩ := counted.share_topics (Multiset.le_add_right _ _) turned
  have inside := counted.wordChanges turned.turns turned.foreign every
  have within := counted.share_within rfl turned
  have nonneg : ∀ topic, 0 ≤ summary.get topic := by
    intro topic
    rw [counted.totals.get_eq counted.topics]
    exact Int.natCast_nonneg _
  -- A part of the changes leads to some tokens in between, which the rows tally.
  have partly : ∀ done left, share.log.wordChanges = done ++ left →
      ∃ slice' between, DeltaLog.applyToRows done slice = .ok () slice' ∧
        slice'.Tallies limit between := by
    intro done left split
    have leads := turned.turns.leads others
    rw [split] at leads inside
    obtain ⟨slice', between, applied, tallies, _⟩ :=
      DeltaLog.applyToRows_tallies done left counted.rows leads
      (fun change member => inside change (List.mem_append_left _ member)) within
    exact ⟨slice', between, applied, tallies⟩
  constructor
  · intro done left split
    obtain ⟨slice', _, applied, tallies⟩ := partly done left split
    exact ⟨slice', applied, tallies.safe nonneg⟩
  · obtain ⟨slice', _, applied, tallies⟩ := partly share.log.wordChanges [] (List.append_nil _).symm
    refine ⟨slice', applied, ?_⟩
    intro done left split
    have changes := counted.totals.totalChanges turned.turns every
    have distinct := DeltaLog.nodup_changes share.log.totalDeltas DeltaLog.totalOrder
    rw [← DeltaLog.totalChanges, split, List.map_append] at distinct
    rw [split] at changes
    obtain ⟨summary', summed, _, changed, same⟩ :=
      DeltaLog.applyToTotals_counts done (List.nodup_append.mp distinct).1
      (fun change member => (changes change (List.mem_append_left _ member)).1)
      (fun change member => (changes change (List.mem_append_left _ member)).2.2)
    refine ⟨summary', summed, tallies.safe ?_⟩
    intro topic
    -- A topic that was changed already has its last total, and another one its first.
    by_cases named : topic ∈ done.map Prod.fst
    · obtain ⟨change, member, rfl⟩ := List.mem_map.mp named
      rw [changed change member]
      exact (changes change (List.mem_append_left _ member)).2.2
    · rw [same topic named]
      exact nonneg topic

end Merging

end LatentTopics
