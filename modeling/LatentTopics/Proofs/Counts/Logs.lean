import Mathlib
import LatentTopics.Counts.View
import LatentTopics.Proofs.Counts.Tallies

/-! What a log says. Moving a token turns one collection of tokens into another, and a log of such
moves keeps the difference of the two in its sums. -/
namespace LatentTopics

namespace Change

def source (change : Change) : Token :=
  ⟨change.word, change.old⟩

def target (change : Change) : Token :=
  ⟨change.word, change.new⟩

end Change

namespace Tokens

def move (change : Change) (tokens : Multiset Token) : Multiset Token :=
  change.target ::ₘ tokens.erase change.source

theorem countP_move (holds : Token → Prop) [DecidablePred holds] {change : Change}
    {tokens : Multiset Token} (member : change.source ∈ tokens) :
    (move change tokens).countP holds + (if holds change.source then 1 else 0) =
      tokens.countP holds + if holds change.target then 1 else 0 := by
  conv_rhs => rw [← Multiset.cons_erase member]
  rw [move, Multiset.countP_cons, Multiset.countP_cons]
  omega

theorem count_move {change : Change} {tokens : Multiset Token} (member : change.source ∈ tokens)
    (token : Token) :
    (move change tokens).count token + (if token = change.source then 1 else 0) =
      tokens.count token + if token = change.target then 1 else 0 :=
  countP_move (token = ·) member

theorem ofTopic_move {change : Change} {tokens : Multiset Token} (member : change.source ∈ tokens)
    (topic : Nat) :
    ofTopic (move change tokens) topic + (if change.old = topic then 1 else 0) =
      ofTopic tokens topic + if change.new = topic then 1 else 0 :=
  countP_move (fun token => token.topic = topic) member

theorem ofWord_move {change : Change} {tokens : Multiset Token} (member : change.source ∈ tokens)
    (word : Nat) :
    ofWord (move change tokens) word = ofWord tokens word :=
  Nat.add_right_cancel (countP_move (fun token => token.word = word) member)

theorem mem_move {change : Change} {tokens : Multiset Token} {token : Token}
    (member : token ∈ move change tokens) :
    token = change.target ∨ token ∈ tokens := by
  rcases Multiset.mem_cons.mp member with same | old
  · exact Or.inl same
  · exact Or.inr (Multiset.mem_of_mem_erase old)

theorem count_move_foreign {change : Change} {tokens : Multiset Token}
    (member : change.source ∈ tokens) {token : Token} (foreign : token.word ≠ change.word) :
    (move change tokens).count token = tokens.count token := by
  have moved := count_move member token
  have other : ∀ own : Token, own.word = change.word → token ≠ own := by
    rintro own same rfl
    exact foreign same
  rwa [if_neg (other change.source rfl), if_neg (other change.target rfl)] at moved

theorem move_add {change : Change} {tokens : Multiset Token} (member : change.source ∈ tokens)
    (others : Multiset Token) : move change (tokens + others) = move change tokens + others := by
  rw [move, move, Multiset.erase_add_left_pos others member, Multiset.cons_add]

end Tokens

namespace DeltaLog

theorem getD_shift {κ : Type} [BEq κ] [Hashable κ] [LawfulBEq κ] [LawfulHashable κ] (key : κ)
    (delta : Int) (deltas : Std.HashMap κ Int) (other : κ) :
    (shift key delta deltas).getD other 0 = deltas.getD other 0 +
        if key == other then delta else 0 := by
  rw [shift, Std.HashMap.getD_alter]
  split
  · next same =>
    rw [LawfulBEq.eq_of_beq same, Option.getD_some, Std.HashMap.getD_eq_getD_getElem?]
  · rw [Int.add_zero]

theorem wordDelta_record (change : Change) (log : DeltaLog) (word topic : Nat) :
    (log.record change).wordDelta word topic = log.wordDelta word topic +
      (if (⟨word, topic⟩ : Token) = change.target then 1 else 0) -
      if (⟨word, topic⟩ : Token) = change.source then 1 else 0 := by
  simp only [record, wordDelta, getD_shift, beq_iff_eq, Change.source, Change.target, Prod.mk.injEq,
    Token.mk.injEq, eq_comm (a := change.word), eq_comm (b := topic)]
  split <;> split <;> omega

theorem totalDelta_record (change : Change) (log : DeltaLog) (topic : Nat) :
    (log.record change).totalDelta topic = log.totalDelta topic +
      (if change.new = topic then 1 else 0) - if change.old = topic then 1 else 0 := by
  simp only [record, totalDelta, getD_shift, beq_iff_eq]
  split <;> split <;> omega

/-- The sums of the log are the difference of two collections of tokens. -/
structure Turns (log : DeltaLog) (before after : Multiset Token) : Prop where
  words : ∀ word topic, log.wordDelta word topic = (after.count ⟨word, topic⟩ : Int) - before.count
    ⟨word, topic⟩
  totals : ∀ topic, log.totalDelta topic = (Tokens.ofTopic after topic : Int) -
    Tokens.ofTopic before topic

theorem empty_turns (tokens : Multiset Token) : Turns empty tokens tokens := by
  constructor
  · intro word topic
    rw [Int.sub_self, wordDelta, empty]
    exact Std.HashMap.getD_empty
  · intro topic
    rw [Int.sub_self, totalDelta, empty]
    exact Std.HashMap.getD_empty

theorem Turns.record {log : DeltaLog} {before after : Multiset Token}
    (turns : Turns log before after) {change : Change} (member : change.source ∈ after) :
    Turns (log.record change) before (Tokens.move change after) := by
  constructor
  · intro word topic
    have moved := Tokens.count_move member ⟨word, topic⟩
    rw [wordDelta_record, turns.words]
    split at moved <;> split at moved <;> simp_all <;> omega
  · intro topic
    have moved := Tokens.ofTopic_move member topic
    rw [totalDelta_record, turns.totals]
    split at moved <;> split at moved <;> simp_all <;> omega

end DeltaLog

end LatentTopics
