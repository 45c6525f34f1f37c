import Mathlib
import LatentTopics.Corpus.Document
import LatentTopics.Proofs.Row.Layouts

/-! Reading a row as a list. The pairs of a row are its nonzero counts, each topic once, so that a
sum over the pairs is a sum over the topics. -/
namespace LatentTopics.Row

/-- A row that can be read: a table must be in order, cells always are. -/
def Sound : Row → Prop
  | .dense .. => True
  | .sparse slots window => Table.Sound slots window

variable {row : Row}

theorem dense_pairs (cells : Array Int) (offset numTopics : Nat) :
    pairs (.dense cells offset numTopics) = (List.range numTopics).filterMap fun topic =>
      if cells.getD (offset + topic) 0 = 0 then none
      else some (topic, cells.getD (offset + topic) 0) :=
  rfl

theorem mem_pairs (sound : Sound row) (topic : Nat) (count : Int) :
    (topic, count) ∈ row.pairs ↔ count ≠ 0 ∧ row.get topic = count := by
  cases row with
  | dense cells offset numTopics =>
      rw [dense_pairs, List.mem_filterMap]
      simp only [get]
      constructor
      · rintro ⟨other, inside, same⟩
        split at same
        · cases same
        · next nonzero =>
          obtain ⟨rfl, rfl⟩ := Prod.mk.inj (Option.some.inj same)
          rw [if_pos (List.mem_range.mp inside)]
          exact ⟨nonzero, rfl⟩
      · rintro ⟨nonzero, same⟩
        split at same
        · next below =>
          refine ⟨topic, List.mem_range.mpr below, ?_⟩
          rw [same, if_neg nonzero]
        · exact absurd same.symm nonzero
  | sparse slots window =>
      rw [pairs, Table.mem_live]
      exact Table.Sound.holds_iff sound topic count

theorem pairs_topics_nodup (sound : Sound row) : (row.pairs.map Prod.fst).Nodup := by
  cases row with
  | dense cells offset numTopics =>
      rw [dense_pairs, List.Nodup, List.pairwise_map, List.pairwise_filterMap]
      apply List.nodup_range.imp
      intro first second different pair isFirst pair' isSecond
      split at isFirst
      · cases isFirst
      · split at isSecond
        · cases isSecond
        · rw [← Option.some.inj isFirst, ← Option.some.inj isSecond]
          exact different
  | sparse slots window => exact Table.live_topics_nodup sound

theorem total_eq_sum (row : Row) : row.total = (row.pairs.map Prod.snd).sum :=
  List.sum_eq_foldr.symm

def copies (word : Nat) (pairs : List (Nat × Int)) : List Token :=
  pairs.flatMap fun pair => List.replicate pair.2.toNat ⟨word, pair.1⟩

theorem copies_cons (word : Nat) (pair : Nat × Int) (pairs : List (Nat × Int)) :
    copies word (pair :: pairs) = List.replicate pair.2.toNat ⟨word, pair.1⟩ ++ copies word pairs :=
  List.flatMap_cons

def tokens (word : Nat) (row : Row) : List Token :=
  copies word row.pairs

theorem mem_tokens {word : Nat} {token : Token} (member : token ∈ row.tokens word) :
    token.word = word ∧ ∃ count, (token.topic, count) ∈ row.pairs := by
  obtain ⟨⟨topic, count⟩, inside, copy⟩ := List.mem_flatMap.mp member
  rw [List.eq_of_mem_replicate copy]
  exact ⟨rfl, count, inside⟩

theorem count_copies (word topic : Nat) (count : Int) {pairs : List (Nat × Int)}
    (distinct : (pairs.map Prod.fst).Nodup) (present : count ≠ 0 → (topic, count) ∈ pairs)
    (unique : ∀ other, (topic, other) ∈ pairs → other = count) :
    (copies word pairs).count ⟨word, topic⟩ = count.toNat := by
  induction pairs with
  | nil =>
      by_cases zero : count = 0
      · rw [zero]
        rfl
      · exact absurd (present zero) List.not_mem_nil
  | cons pair pairs ih =>
      obtain ⟨other, held⟩ := pair
      rw [List.map_cons, List.nodup_cons] at distinct
      rw [copies_cons, List.count_append, List.count_replicate]
      -- The one pair of the topic gives all its tokens, and the pairs behind it give none.
      by_cases same : other = topic
      · subst same
        obtain rfl := unique held List.mem_cons_self
        have rest : (copies word pairs).count ⟨word, other⟩ = 0 := by
          rw [List.count_eq_zero]
          intro member
          obtain ⟨pair, inside, copy⟩ := List.mem_flatMap.mp member
          have topic := (Token.mk.inj (List.eq_of_mem_replicate copy)).2
          exact distinct.1 (List.mem_map.mpr ⟨pair, inside, topic.symm⟩)
        rw [rest, if_pos (beq_self_eq_true _), Nat.add_zero]
      · have apart : ((⟨word, other⟩ : Token) == ⟨word, topic⟩) = false := by
          simpa using same
        rw [apart, if_neg Bool.false_ne_true, Nat.zero_add]
        apply ih distinct.2
        · intro nonzero
          rcases List.mem_cons.mp (present nonzero) with own | later
          · exact absurd (Prod.mk.inj own).1.symm same
          · exact later
        · exact fun found member => unique found (List.mem_cons_of_mem _ member)

theorem count_tokens (sound : Sound row) (word topic : Nat) :
    (row.tokens word).count ⟨word, topic⟩ = (row.get topic).toNat := by
  apply count_copies word topic (row.get topic) (pairs_topics_nodup sound)
  · exact fun nonzero => (mem_pairs sound topic _).mpr ⟨nonzero, rfl⟩
  · exact fun other member => ((mem_pairs sound topic other).mp member).2.symm

theorem length_pairs_le_card (sound : Sound row) (topics : Finset Nat)
    (every : ∀ topic, row.get topic ≠ 0 → topic ∈ topics) : row.pairs.length ≤ topics.card := by
  rw [← List.length_map Prod.fst, ← List.toFinset_card_of_nodup (pairs_topics_nodup sound)]
  apply Finset.card_le_card
  intro topic member
  rw [List.mem_toFinset, List.mem_map] at member
  obtain ⟨⟨topic, count⟩, inside, rfl⟩ := member
  obtain ⟨nonzero, same⟩ := (mem_pairs sound topic count).mp inside
  exact every topic (same ▸ nonzero)

end LatentTopics.Row

namespace LatentTopics.Arena

theorem Valid.row_sound {arena : Arena} (valid : Valid arena) {index : Nat} {layout : Layout}
    (here : arena.layouts[index]? = some layout) : (arena.readAs layout).Sound := by
  have placed := valid.placed index layout here
  cases layout with
  | dense offset => trivial
  | sparse window tombstones => exact placed.sound

end LatentTopics.Arena
