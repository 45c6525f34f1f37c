import Mathlib
import LatentTopics.Proofs.Counts.Logs

/-! Merging a log. Its sums lead from the tokens that the rows tally to the tokens after the moves.
While counts still go down the tokens are some of the first ones; from then on they are some of the
last ones, so that no word ever has more tokens than its limit. -/
namespace LatentTopics

namespace Tokens

def setCount (token : Token) (count : Nat) (tokens : Multiset Token) : Multiset Token :=
  tokens.filter (· ≠ token) + Multiset.replicate count token

theorem count_setCount (token other : Token) (count : Nat) (tokens : Multiset Token) :
    (setCount token count tokens).count other =
      if other = token then count else tokens.count other := by
  rw [setCount, Multiset.count_add, Multiset.count_filter, Multiset.count_replicate]
  by_cases same : other = token
  · simp [same]
  · simp [same, Ne.symm same]

theorem ofWord_mono {tokens others : Multiset Token} (part : tokens ≤ others) (word : Nat) :
    ofWord tokens word ≤ ofWord others word :=
  Multiset.countP_le_of_le _ part

end Tokens

namespace DeltaLog

section Changes

variable {κ : Type} [BEq κ] [Hashable κ] [LawfulBEq κ] [LawfulHashable κ]

theorem mem_changes (deltas : Std.HashMap κ Int) (order : κ × Int → κ × Int → Bool) (key : κ)
    (delta : Int) :
    (key, delta) ∈ (deltas.toList.filter fun entry => entry.2 ≠ 0).mergeSort order ↔
      delta ≠ 0 ∧ deltas.getD key 0 = delta := by
  rw [List.mem_mergeSort, List.mem_filter, Std.HashMap.mem_toList_iff_getElem?_eq_some,
    Std.HashMap.getD_eq_getD_getElem?, decide_eq_true_eq, and_comm]
  apply and_congr_right
  intro nonzero
  cases deltas[key]? with
  | none => simp [Ne.symm nonzero]
  | some found => simp

theorem nodup_changes (deltas : Std.HashMap κ Int) (order : κ × Int → κ × Int → Bool) :
    (((deltas.toList.filter fun entry => entry.2 ≠ 0).mergeSort order).map Prod.fst).Nodup := by
  have permuted := List.mergeSort_perm (deltas.toList.filter fun entry => entry.2 ≠ 0) order
  rw [(permuted.map Prod.fst).nodup_iff, List.Nodup, List.pairwise_map]
  apply List.Pairwise.filter
  apply Std.HashMap.distinct_keys_toList.imp
  intro first second different
  simpa using different

end Changes

theorem mem_wordChanges (log : DeltaLog) (word topic : Nat) (delta : Int) :
    ((word, topic), delta) ∈ log.wordChanges ↔ delta ≠ 0 ∧ log.wordDelta word topic = delta :=
  mem_changes log.wordDeltas wordOrder (word, topic) delta

theorem mem_totalChanges (log : DeltaLog) (topic : Nat) (delta : Int) :
    (topic, delta) ∈ log.totalChanges ↔ delta ≠ 0 ∧ log.totalDelta topic = delta :=
  mem_changes log.totalDeltas totalOrder topic delta

theorem wordOrder_trans (first second third : (Nat × Nat) × Int)
    (before : wordOrder first second = true) (after : wordOrder second third = true) :
    wordOrder first third = true := by
  simp only [wordOrder] at before after ⊢
  grind

theorem wordOrder_total (first second : (Nat × Nat) × Int) :
    (wordOrder first second || wordOrder second first) = true := by
  simp only [wordOrder]
  grind

theorem wordChanges_ordered (log : DeltaLog) :
    log.wordChanges.Pairwise fun first second => first.2 ≤ second.2 := by
  apply (List.pairwise_mergeSort wordOrder_trans wordOrder_total _).imp
  intro first second before
  rw [wordOrder] at before
  split at before
  · exact le_of_lt (by simpa using before)
  · next same => exact le_of_eq (not_not.mp same)

/-- The changes that are left lead from the tokens tallied so far to the last ones. -/
structure Leads (changes : List ((Nat × Nat) × Int)) (tokens last : Multiset Token) : Prop where
  distinct : (changes.map Prod.fst).Nodup
  nonzero : ∀ change ∈ changes, change.2 ≠ 0
  ordered : changes.Pairwise fun first second => first.2 ≤ second.2
  changed : ∀ change ∈ changes,
    (last.count ⟨change.1.1, change.1.2⟩ : Int) = tokens.count ⟨change.1.1, change.1.2⟩ + change.2
  same : ∀ token : Token, (token.word, token.topic) ∉ changes.map Prod.fst →
    last.count token = tokens.count token

theorem Leads.nil {tokens last : Multiset Token} (leads : Leads [] tokens last) :
    last = tokens := by
  ext token
  exact leads.same token List.not_mem_nil

theorem Turns.leads {log : DeltaLog} {before after : Multiset Token}
    (turns : Turns log before after) (others : Multiset Token) :
    Leads log.wordChanges (before + others) (after + others) := by
  constructor
  · exact nodup_changes log.wordDeltas wordOrder
  · exact fun change member => ((log.mem_wordChanges change.1.1 change.1.2 change.2).mp member).1
  · exact log.wordChanges_ordered
  · rintro ⟨⟨word, topic⟩, delta⟩ member
    have moved := turns.words word topic
    rw [((log.mem_wordChanges word topic delta).mp member).2] at moved
    rw [Multiset.count_add, Multiset.count_add]
    push_cast
    omega
  · rintro ⟨word, topic⟩ missing
    have moved := turns.words word topic
    rw [Multiset.count_add, Multiset.count_add]
    by_cases zero : log.wordDelta word topic = 0
    · omega
    · exact absurd (List.mem_map_of_mem ((log.mem_wordChanges word topic _).mpr ⟨zero, rfl⟩))
        missing

section Step

variable {word topic : Nat} {delta : Int} {changes : List ((Nat × Nat) × Int)}
  {tokens last : Multiset Token}

theorem Leads.tail (leads : Leads (((word, topic), delta) :: changes) tokens last) :
    Leads changes (Tokens.setCount ⟨word, topic⟩ (last.count ⟨word, topic⟩) tokens) last := by
  have distinct := leads.distinct
  rw [List.map_cons, List.nodup_cons] at distinct
  constructor
  · exact distinct.2
  · exact fun change member => leads.nonzero change (List.mem_cons_of_mem _ member)
  · exact (List.pairwise_cons.mp leads.ordered).2
  · intro change member
    rw [Tokens.count_setCount, if_neg]
    · exact leads.changed change (List.mem_cons_of_mem _ member)
    · intro same
      apply distinct.1
      obtain ⟨rfl, rfl⟩ := Token.mk.inj same
      exact List.mem_map.mpr ⟨change, member, rfl⟩
  · intro token missing
    rw [Tokens.count_setCount]
    split
    · next same => rw [same]
    · next different =>
      apply leads.same token
      rw [List.map_cons, List.mem_cons, not_or]
      refine ⟨?_, missing⟩
      intro same
      exact different (congrArg (fun key => Token.mk key.1 key.2) same)

theorem Leads.le_before (leads : Leads (((word, topic), delta) :: changes) tokens last)
    (down : delta ≤ 0) :
    Tokens.setCount ⟨word, topic⟩ (last.count ⟨word, topic⟩) tokens ≤ tokens := by
  rw [Multiset.le_iff_count]
  intro token
  rw [Tokens.count_setCount]
  split
  · next same =>
    have step := leads.changed _ List.mem_cons_self
    rw [same]
    dsimp only at step
    omega
  · exact le_rfl

theorem Leads.le_last (leads : Leads (((word, topic), delta) :: changes) tokens last)
    (up : 0 ≤ delta) : Tokens.setCount ⟨word, topic⟩ (last.count ⟨word, topic⟩) tokens ≤ last := by
  have rest := leads.tail
  have later := (List.pairwise_cons.mp leads.ordered).1
  rw [Multiset.le_iff_count]
  intro token
  by_cases left : (token.word, token.topic) ∈ changes.map Prod.fst
  · obtain ⟨change, member, key⟩ := List.mem_map.mp left
    have own : (⟨change.1.1, change.1.2⟩ : Token) = token := by rw [key]
    have step := rest.changed change member
    rw [own] at step
    have := later change member
    dsimp only at this
    omega
  · exact (rest.same token left).ge

end Step

variable {slice : Slice} {limit : Nat → Nat} {tokens last : Multiset Token}

/-- The first change can be applied. Decrements come first: while
counts fall, the tokens are some of those before, and from then on some
of the last ones, so that no row ever holds more than both allow. -/
theorem Leads.add_ok {word topic : Nat} {delta : Int} {changes : List ((Nat × Nat) × Int)}
    (leads : Leads (((word, topic), delta) :: changes) tokens last)
    (tallies : slice.Tallies limit tokens) (member : word ∈ slice.words)
    (below : topic < slice.numTopics) (within : Tokens.ofWord last word ≤ limit word) :
    ∃ next, Slice.add word topic (Number.narrow delta) slice = .ok () next ∧
      next.Tallies limit (Tokens.setCount ⟨word, topic⟩ (last.count ⟨word, topic⟩) tokens) ∧
      slice.SameShape next := by
  have step := leads.changed _ List.mem_cons_self
  dsimp only at step
  have less : Tokens.ofWord (Tokens.setCount ⟨word, topic⟩ (last.count ⟨word, topic⟩) tokens) word ≤
      limit word := by
    rcases Int.le_total delta 0 with down | up
    · exact (Tokens.ofWord_mono (leads.le_before down) word).trans (tallies.within word member)
    · exact (Tokens.ofWord_mono (leads.le_last up) word).trans within
  -- The change is a difference of two counts that fit, and is not cut off to 32 bits.
  have exact32 : Number.narrow delta = delta := by
    have := tallies.roomy.small word member
    have := (Tokens.count_le_ofWord tokens word topic).trans (tallies.within word member)
    have := (Tokens.count_le_ofWord last word topic).trans within
    exact Number.narrow_eq_self (by omega) (by omega)
  have here :
      ((Tokens.setCount ⟨word, topic⟩ (last.count ⟨word, topic⟩) tokens).count
        ⟨word, topic⟩ : Int) = tokens.count ⟨word, topic⟩ + delta := by
    rw [Tokens.count_setCount, if_pos rfl, step]
  have others : ∀ token, token ≠ ⟨word, topic⟩ →
      (Tokens.setCount ⟨word, topic⟩ (last.count ⟨word, topic⟩) tokens).count token =
        tokens.count token := by
    intro token different
    rw [Tokens.count_setCount, if_neg different]
  rw [exact32]
  exact tallies.add _ (leads.nonzero _ List.mem_cons_self) member below here others less

theorem applyToRows_tallies (front back : List ((Nat × Nat) × Int))
    (tallies : slice.Tallies limit tokens) (leads : Leads (front ++ back) tokens last)
    (inside : ∀ change ∈ front, change.1.1 ∈ slice.words ∧ change.1.2 < slice.numTopics)
    (within : ∀ word ∈ slice.words, Tokens.ofWord last word ≤ limit word) :
    ∃ after between, applyToRows front slice = .ok () after ∧ after.Tallies limit between ∧
      Leads back between last ∧ slice.SameShape after := by
  induction front generalizing slice tokens with
  | nil => exact ⟨slice, tokens, rfl, tallies, leads, Slice.SameShape.refl slice⟩
  | cons change front ih =>
      obtain ⟨⟨word, topic⟩, delta⟩ := change
      obtain ⟨member, below⟩ := inside _ List.mem_cons_self
      rw [List.cons_append] at leads
      obtain ⟨next, added, talliesNext, shape⟩ :=
        leads.add_ok tallies member below (within word member)
      have insideNext : ∀ other ∈ front, other.1.1 ∈ next.words ∧ other.1.2 < next.numTopics := by
        intro other later
        rw [shape.words, shape.numTopics]
        exact inside other (List.mem_cons_of_mem _ later)
      have withinNext : ∀ word ∈ next.words, Tokens.ofWord last word ≤ limit word := by
        rw [shape.words]
        exact within
      obtain ⟨after, between, applied, talliesAfter, leadsAfter, shapeAfter⟩ :=
        ih talliesNext leads.tail insideNext withinNext
      refine ⟨after, between, ?_, talliesAfter, leadsAfter, shape.trans shapeAfter⟩
      rw [applyToRows, added]
      exact applied

theorem applyToTotals_counts (changes : List (Nat × Int)) {summary : Summary}
    (distinct : (changes.map Prod.fst).Nodup)
    (inside : ∀ change ∈ changes, change.1 < summary.numTopics)
    (nonneg : ∀ change ∈ changes, 0 ≤ summary.get change.1 + change.2) :
    ∃ after, applyToTotals changes summary = .ok () after ∧ after.numTopics = summary.numTopics ∧
      (∀ change ∈ changes, after.get change.1 = summary.get change.1 + change.2) ∧
      ∀ topic, topic ∉ changes.map Prod.fst → after.get topic = summary.get topic := by
  induction changes generalizing summary with
  | nil =>
      exact ⟨summary, rfl, rfl, fun change member => absurd member List.not_mem_nil,
        fun topic _ => rfl⟩
  | cons change changes ih =>
      obtain ⟨topic, delta⟩ := change
      rw [List.map_cons, List.nodup_cons] at distinct
      obtain ⟨next, added, size, here, others⟩ :=
        summary.add_ok (inside _ List.mem_cons_self) (nonneg _ List.mem_cons_self)
      have apart : ∀ change ∈ changes, change.1 ≠ topic := by
        intro change member same
        exact distinct.1 (List.mem_map.mpr ⟨change, member, same⟩)
      obtain ⟨after, applied, sizeAfter, changed, same⟩ := ih distinct.2
        (fun change member => by rw [size]; exact inside change (List.mem_cons_of_mem _ member))
        (fun change member => by
          rw [others _ (apart change member)]
          exact nonneg change (List.mem_cons_of_mem _ member))
      refine ⟨after, ?_, sizeAfter.trans size, ?_, ?_⟩
      · rw [applyToTotals, added]
        exact applied
      · intro change member
        rcases List.mem_cons.mp member with rfl | later
        · rw [same _ distinct.1, here]
        · rw [changed change later, others _ (apart change later)]
      · intro other missing
        rw [List.map_cons, List.mem_cons, not_or] at missing
        rw [same other missing.2, others other missing.1]

end DeltaLog

end LatentTopics
