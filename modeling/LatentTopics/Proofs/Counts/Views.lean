import Mathlib
import LatentTopics.Counts.View
import LatentTopics.Proofs.Counts.Merge

/-! The two views of a slice that tallies tokens. Moving a token in place
tallies the moved tokens; an overlay keeps the slice and follows the
moves of some of the tokens, which is all that merging its log needs. -/
namespace LatentTopics

namespace Slice

variable {slice : Slice} {limit : Nat → Nat} {tokens : Multiset Token} {change : Change}

theorem Tallies.move (tallies : Tallies slice limit tokens) (member : change.word ∈ slice.words)
    (source : change.source ∈ tokens) (below : change.new < slice.numTopics) :
    ∃ lowered raised, Slice.add change.word change.old (-1) slice = .ok () lowered ∧
      Slice.add change.word change.new 1 lowered = .ok () raised ∧
      Tallies raised limit (Tokens.move change tokens) ∧
      SameShape slice raised := by
  have present : 0 < tokens.count ⟨change.word, change.old⟩ := Multiset.count_pos.mpr source
  -- In between, the token is nowhere: the row then tallies the tokens without it.
  have erased : (tokens.erase change.source).count ⟨change.word, change.old⟩ =
      tokens.count ⟨change.word, change.old⟩ - 1 := Multiset.count_erase_self _ _
  have added : (Tokens.move change tokens).count ⟨change.word, change.new⟩ =
      (tokens.erase change.source).count ⟨change.word, change.new⟩ + 1 :=
        Multiset.count_cons_self _ _
  have old : change.old < slice.numTopics := tallies.topics _ source member
  obtain ⟨lowered, down, talliesDown, shapeDown⟩ := tallies.add (tokens.erase change.source)
    (show (-1 : Int) ≠ 0 by decide) member old (by omega)
    (fun token different => Multiset.count_erase_of_ne different tokens)
    ((Tokens.ofWord_mono (Multiset.erase_le _ tokens) _).trans (tallies.within _ member))
  obtain ⟨raised, up, talliesUp, shapeUp⟩ := talliesDown.add (Tokens.move change tokens)
    (show (1 : Int) ≠ 0 by decide) (shapeDown.words ▸ member)
      (shapeDown.numTopics ▸ below) (by omega)
    (fun token different => Multiset.count_cons_of_ne different _)
    (by rw [Tokens.ofWord_move source]; exact tallies.within _ member)
  exact ⟨lowered, raised, down, up, talliesUp, shapeDown.trans shapeUp⟩

end Slice

namespace Summary

variable {summary : Summary} {tokens : Multiset Token} {change : Change}

theorem Tallies.move (tallies : Tallies summary tokens) (source : change.source ∈ tokens)
    (old : change.old < summary.numTopics) (below : change.new < summary.numTopics) :
    ∃ lowered raised, Summary.add change.old (-1) summary = .ok () lowered ∧
      Summary.add change.new 1 lowered = .ok () raised ∧
      Tallies raised (Tokens.move change tokens) ∧ raised.numTopics = summary.numTopics := by
  have split := Multiset.cons_erase source
  have leaves : ∀ topic, Tokens.ofTopic tokens topic =
      Tokens.ofTopic (tokens.erase change.source) topic + if change.old = topic then 1 else 0 := by
    intro topic
    conv_lhs => rw [← split]
    exact Multiset.countP_cons _ _ _
  have enters : ∀ topic, Tokens.ofTopic (Tokens.move change tokens) topic =
      Tokens.ofTopic (tokens.erase change.source) topic + if change.new = topic then 1 else 0 :=
    fun topic => Multiset.countP_cons _ _ _
  obtain ⟨lowered, down, talliesDown, sizeDown⟩ := tallies.add (tokens.erase change.source) (-1) old
    (by rw [leaves change.old, if_pos rfl]; omega)
    (fun topic different => by rw [leaves topic, if_neg (Ne.symm different)]; rfl)
  obtain ⟨raised, up, talliesUp, sizeUp⟩ :=
    talliesDown.add (Tokens.move change tokens) 1 (sizeDown.symm ▸ below)
    (by rw [enters change.new, if_pos rfl]; omega)
    (fun topic different => by rw [enters topic, if_neg (Ne.symm different)]; rfl)
  exact ⟨lowered, raised, down, up, talliesUp, sizeUp.trans sizeDown⟩

end Summary

/-- A slice and the totals tally the same tokens, whose topics all exist. -/
structure Counted (slice : Slice) (summary : Summary) (limit : Nat → Nat)
    (tokens : Multiset Token) : Prop where
  rows : slice.Tallies limit tokens
  totals : summary.Tallies tokens
  topics : ∀ token ∈ tokens, token.topic < summary.numTopics
  numTopics : slice.numTopics = summary.numTopics

section InPlace

variable {slice : Slice} {summary : Summary} {limit : Nat → Nat} {tokens : Multiset Token}
  {change : Change}

theorem Counted.topics_move (counted : Counted slice summary limit tokens)
    (below : change.new < summary.numTopics) :
    ∀ token ∈ Tokens.move change tokens, token.topic < summary.numTopics := by
  intro token member
  rcases Tokens.mem_move member with rfl | before
  · exact below
  · exact counted.topics token before

theorem Counted.commit (counted : Counted slice summary limit tokens)
    (member : change.word ∈ slice.words) (source : change.source ∈ tokens)
    (below : change.new < summary.numTopics) (recording : Bool) (events : Array Change) :
    ∃ slice' summary', InPlace.commit change ⟨slice, summary, recording, events⟩ =
        .ok () ⟨slice', summary', recording, if recording then events.push change else events⟩ ∧
      Counted slice' summary' limit (Tokens.move change tokens) ∧ slice.SameShape slice' ∧
      summary'.numTopics = summary.numTopics := by
  obtain ⟨lowered, raised, rowDown, rowUp, tallies, shape⟩ :=
    counted.rows.move member source (counted.numTopics ▸ below)
  obtain ⟨less, more, totalDown, totalUp, totals, size⟩ :=
    counted.totals.move source (counted.topics _ source) below
  refine ⟨raised, more, ?_, ⟨tallies, totals, ?_, ?_⟩, shape, size⟩
  · simp only [InPlace.commit, bind, EStateM.bind, InPlace.addToRow, InPlace.addToTotal, rowDown,
      rowUp, totalDown, totalUp, InPlace.record]
  · rw [size]
    exact counted.topics_move below
  · rw [shape.numTopics, size]
    exact counted.numTopics

theorem Counted.commit_unknown (counted : Counted slice summary limit tokens)
    (missing : change.word ∉ slice.words) (recording : Bool) (events : Array Change) :
    InPlace.commit change ⟨slice, summary, recording, events⟩ =
      .error (.unknownWord change.word slice.id) ⟨slice, summary, recording, events⟩ := by
  simp only [InPlace.commit, bind, EStateM.bind, InPlace.addToRow,
    Slice.add_unknown counted.rows.valid missing change.old (-1)]

/-- A token that is not there is refused, before anything
has changed; a full table would have another reason to. -/
theorem Counted.commit_absent (counted : Counted slice summary limit tokens)
    (member : change.word ∈ slice.words) (exceeds : slice.Exceeds change.word (limit change.word))
    (absent : change.source ∉ tokens) (below : change.old < summary.numTopics) (recording : Bool)
    (events : Array Change) :
    InPlace.commit change ⟨slice, summary, recording, events⟩ =
      .error (.negativeCount change.old (-1)) ⟨slice, summary, recording, events⟩ := by
  have zero : tokens.count ⟨change.word, change.old⟩ = 0 := Multiset.count_eq_zero.mpr absent
  have spare : slice.Exceeds change.word (Tokens.ofWord tokens change.word) :=
    fun index capacity here sparse =>
    (counted.rows.within _ member).trans_lt (exceeds index capacity here sparse)
  have refused := counted.rows.add_negative (-1) member (counted.numTopics ▸ below) spare
    (by rw [zero]; decide)
  rw [zero] at refused
  simp only [InPlace.commit, bind, EStateM.bind, InPlace.addToRow, refused]
  rfl

end InPlace

namespace Overlay

/-- An overlay over a slice and totals that keeps the moves of tokens of the slice's words. -/
structure Follows (slice : Slice) (summary : Summary) (before after : Multiset Token)
    (view : Overlay) : Prop where
  base : view.slice = slice
  sums : view.summary = summary
  turns : view.log.Turns before after
  foreign : ∀ token : Token, token.word ∉ slice.words → after.count token = before.count token

variable {slice : Slice} {summary : Summary} {limit : Nat → Nat} {before after others :
  Multiset Token} {view : Overlay}
  {change : Change}

theorem start_follows (slice : Slice) (summary : Summary) (tokens : Multiset Token) :
    Follows slice summary tokens tokens (start slice summary) :=
  ⟨rfl, rfl, DeltaLog.empty_turns tokens, fun _ _ => rfl⟩

theorem Follows.wordCount_eq (follows : Follows slice summary before after view)
    (tallies : slice.Tallies limit (before + others)) {word : Nat} (member : word ∈ slice.words)
    (topic : Nat) :
    view.wordCount word topic = (after + others).count ⟨word, topic⟩ := by
  rw [wordCount, follows.base, follows.turns.words, tallies.counts word member, Multiset.count_add,
    Multiset.count_add]
  push_cast
  omega

theorem Follows.wordCount_foreign (follows : Follows slice summary before after view)
    (valid : slice.Valid) {word : Nat} (missing : word ∉ slice.words) (topic : Nat) :
    view.wordCount word topic = 0 := by
  rw [wordCount, follows.base, follows.turns.words, valid.count_of_not_mem missing,
    follows.foreign ⟨word, topic⟩ missing]
  omega

theorem Follows.total_eq (follows : Follows slice summary before after view)
    (totals : summary.Tallies (before + others))
    (topics : ∀ token ∈ before + others, token.topic < summary.numTopics) (topic : Nat) :
    view.total topic = Tokens.ofTopic (after + others) topic := by
  rw [total, follows.sums, follows.turns.totals, totals.get_eq topics]
  simp only [Tokens.ofTopic, Multiset.countP_add]
  push_cast
  omega

theorem Follows.commit (follows : Follows slice summary before after view)
    (tallies : slice.Tallies limit (before + others)) (member : change.word ∈ slice.words)
    (source : change.source ∈ after) :
    ∃ view', Overlay.commit change view = .ok () view' ∧
      Follows slice summary before (Tokens.move change after) view' ∧
      view'.log.events = view.log.events.push change := by
  have contained : view.slice.contains change.word = true := by
    rw [follows.base]
    exact (tallies.valid.contains_iff change.word).mpr member
  have remaining : ¬ view.wordCount change.word change.old < 1 := by
    rw [follows.wordCount_eq tallies member, Multiset.count_add]
    have present : 0 < after.count ⟨change.word, change.old⟩ := Multiset.count_pos.mpr source
    omega
  refine ⟨⟨view.slice, view.summary, view.log.record change⟩, ?_, ⟨follows.base, follows.sums,
    follows.turns.record source, ?_⟩, rfl⟩
  · simp only [Overlay.commit, contained, Bool.not_true, Bool.false_eq_true, if_false, remaining]
  · intro token missing
    rw [← follows.foreign token missing]
    exact Tokens.count_move_foreign source fun same => missing (same ▸ member)

theorem Follows.commit_unknown (follows : Follows slice summary before after view)
    (valid : slice.Valid) (missing : change.word ∉ slice.words) :
    Overlay.commit change view = .error (.unknownWord change.word slice.id) view := by
  have uncontained : view.slice.contains change.word = false := by
    rw [follows.base, ← Bool.not_eq_true, valid.contains_iff]
    exact missing
  simp only [Overlay.commit, uncontained, Bool.not_false, if_true]
  rw [follows.base]

theorem Follows.commit_absent (follows : Follows slice summary before after view)
    (tallies : slice.Tallies limit (before + others)) (member : change.word ∈ slice.words)
    (absent : change.source ∉ after + others) :
    Overlay.commit change view = .error (.negativeCount change.old (-1)) view := by
  have contained : view.slice.contains change.word = true := by
    rw [follows.base]
    exact (tallies.valid.contains_iff change.word).mpr member
  have zero : view.wordCount change.word change.old = 0 := by
    rw [follows.wordCount_eq tallies member]
    exact Int.natCast_eq_zero.mpr (Multiset.count_eq_zero.mpr absent)
  simp only [Overlay.commit, contained, Bool.not_true, Bool.false_eq_true, if_false, zero]
  rfl

end Overlay

theorem Tokens.exists_of_ofTopic {tokens : Multiset Token} {topic : Nat}
    (some : Tokens.ofTopic tokens topic ≠ 0) :
    ∃ token ∈ tokens, token.topic = topic :=
  Multiset.countP_pos.mp (Nat.pos_of_ne_zero some)

section Totals

variable {summary : Summary} {before after others : Multiset Token} {log : DeltaLog}

theorem Summary.Tallies.shifted (tallies : summary.Tallies (before + others))
    (turns : log.Turns before after) {topic : Nat} (below : topic < summary.numTopics) :
    summary.get topic + log.totalDelta topic = Tokens.ofTopic (after + others) topic := by
  rw [tallies.counts topic below, turns.totals]
  simp only [Tokens.ofTopic, Multiset.countP_add]
  push_cast
  omega

theorem Summary.Tallies.totalChanges (tallies : summary.Tallies (before + others))
    (turns : log.Turns before after)
    (topics : ∀ token ∈ before + after, token.topic < summary.numTopics) :
    ∀ change ∈ log.totalChanges, change.1 < summary.numTopics ∧ log.totalDelta change.1 = change.2 ∧
      0 ≤ summary.get change.1 + change.2 := by
  rintro ⟨topic, delta⟩ member
  obtain ⟨nonzero, same⟩ := (log.mem_totalChanges topic delta).mp member
  have moved := turns.totals topic
  have some : Tokens.ofTopic (before + after) topic ≠ 0 := by
    rw [Tokens.ofTopic, Multiset.countP_add, ← Tokens.ofTopic, ← Tokens.ofTopic]
    omega
  obtain ⟨token, inside, rfl⟩ := Tokens.exists_of_ofTopic some
  have below := topics token inside
  refine ⟨below, same, ?_⟩
  dsimp only at same ⊢
  rw [← same, tallies.shifted turns below]
  exact Int.natCast_nonneg _

theorem Summary.Tallies.applyToTotals (tallies : summary.Tallies (before + others))
    (turns : log.Turns before after)
    (topics : ∀ token ∈ before + after, token.topic < summary.numTopics) :
    ∃ summary', DeltaLog.applyToTotals log.totalChanges summary = .ok () summary' ∧
      summary'.Tallies (after + others) ∧ summary'.numTopics = summary.numTopics := by
  have changes := tallies.totalChanges turns topics
  obtain ⟨summary', applied, size, changed, same⟩ := DeltaLog.applyToTotals_counts log.totalChanges
    (DeltaLog.nodup_changes log.totalDeltas DeltaLog.totalOrder) (fun change member =>
      (changes change member).1)
    (fun change member => (changes change member).2.2)
  refine ⟨summary', applied, ⟨?_⟩, size⟩
  intro topic below
  rw [size] at below
  rw [← tallies.shifted turns below]
  by_cases zero : log.totalDelta topic = 0
  · rw [zero, Int.add_zero]
    apply same
    intro named
    obtain ⟨⟨topic, delta⟩, member, rfl⟩ := List.mem_map.mp named
    obtain ⟨nonzero, own⟩ := (log.mem_totalChanges topic delta).mp member
    exact nonzero (own ▸ zero)
  · exact changed (topic, log.totalDelta topic) ((log.mem_totalChanges topic _).mpr ⟨zero, rfl⟩)

end Totals

theorem Counted.wordChanges {slice : Slice} {summary : Summary} {limit : Nat → Nat}
    {before after others : Multiset Token} {log : DeltaLog}
    (counted : Counted slice summary limit (before + others)) (turns : log.Turns before after)
    (foreign : ∀ token : Token, token.word ∉ slice.words → after.count token = before.count token)
    (topics : ∀ token ∈ before + after, token.topic < summary.numTopics) :
    ∀ change ∈ log.wordChanges, change.1.1 ∈ slice.words ∧ change.1.2 < slice.numTopics := by
  rintro ⟨⟨word, topic⟩, delta⟩ member
  obtain ⟨nonzero, same⟩ := (log.mem_wordChanges word topic delta).mp member
  rw [turns.words] at same
  have present : (⟨word, topic⟩ : Token) ∈ before + after := by
    rw [← Multiset.count_pos, Multiset.count_add]
    omega
  refine ⟨?_, counted.numTopics ▸ topics _ present⟩
  by_contra missing
  apply nonzero
  rw [← same, foreign ⟨word, topic⟩ missing, Int.sub_self]

theorem Counted.mergeInto {slice : Slice} {summary : Summary} {limit : Nat → Nat}
    {before after others : Multiset Token} {log : DeltaLog}
    (counted : Counted slice summary limit (before + others)) (turns : log.Turns before after)
    (foreign : ∀ token : Token, token.word ∉ slice.words → after.count token = before.count token)
    (topics : ∀ token ∈ after, token.topic < summary.numTopics)
    (within : ∀ word ∈ slice.words, Tokens.ofWord (after + others) word ≤ limit word) :
    ∃ slice' summary', DeltaLog.mergeInto log (slice, summary) = .ok () (slice', summary') ∧
      Counted slice' summary' limit (after + others) ∧ slice.SameShape slice' ∧
      summary'.numTopics = summary.numTopics := by
  have every : ∀ token ∈ before + after, token.topic < summary.numTopics := by
    intro token member
    rcases Multiset.mem_add.mp member with old | new
    · exact counted.topics token (Multiset.mem_add.mpr (Or.inl old))
    · exact topics token new
  have inside := counted.wordChanges turns foreign every
  obtain ⟨slice', between, rows, tallies, leads, shape⟩ :=
    DeltaLog.applyToRows_tallies log.wordChanges [] counted.rows
    (by rw [List.append_nil]; exact turns.leads others) inside within
  rw [← leads.nil] at tallies
  obtain ⟨summary', totals, talliesTotals, size⟩ := counted.totals.applyToTotals turns every
  refine ⟨slice', summary', ?_, ⟨tallies, talliesTotals, ?_, ?_⟩, shape, size⟩
  · simp only [DeltaLog.mergeInto, rows, totals]
  · intro token member
    rw [size]
    rcases Multiset.mem_add.mp member with new | other
    · exact topics token new
    · exact counted.topics token (Multiset.mem_add.mpr (Or.inr other))
  · rw [shape.numTopics, size]
    exact counted.numTopics

end LatentTopics
