import Mathlib
import LatentTopics.Proofs.Alias.Masses
import LatentTopics.Proofs.Alias.Reads
import LatentTopics.Proofs.Generators

/-! The topics that can be drawn from the smoothing table. A topic is drawn by as many values as it
has units of mass, and the units are few: a topic whose share is less than one unit has mass only
when one of those that are missing is left for it. -/
namespace LatentTopics

namespace Alias

namespace Share

def Served (missing index : Nat) (shares : List Share) : Prop :=
  shares.countP positive ≤ missing ∨ rank index shares < missing % shares.countP positive

theorem gain_pos_iff {missing index : Nat} {shares : List Share}
    (some : 0 < shares.countP positive) :
    0 < gain missing index shares ↔ Served missing index shares := by
  rw [gain, Served, Nat.add_pos_iff_pos_or_pos, Nat.div_pos_iff]
  apply or_congr
  · exact ⟨And.right, fun rounds => ⟨some, rounds⟩⟩
  · split
    · next before => exact ⟨fun _ => before, fun _ => Nat.one_pos⟩
    · next behind => exact ⟨fun none => absurd none (Nat.lt_irrefl 0), fun before =>
        absurd before behind⟩

end Share

/-- What the units of mass of an entry come from. -/
structure Units (weights : List Float) (index : Nat) (share : Share) : Prop where
  short : Share.massSum (shares weights) ≤ totalMass → (0 < (quantize weights).getD index 0 ↔
    0 < share.mass ∨ share.positive ∧
    Share.Served (totalMass - Share.massSum (shares weights)) index (shares weights))
  long : totalMass < Share.massSum (shares weights) → (quantize weights).getD index 0 ≤ share.mass

theorem units_of_share {weights : List Float} {index : Nat} {share : Share}
    (here : (shares weights)[index]? = some share) : Units weights index share := by
  have nonempty : weights ≠ [] := by
    rintro rfl
    rw [shares] at here
    split at here <;> cases here
  obtain ⟨_, gains, losses⟩ := quantizes nonempty
  refine ⟨?_, fun long => losses long index share here⟩
  intro short
  rw [gains short index share here, Nat.add_pos_iff_pos_or_pos]
  apply or_congr_right
  by_cases positive : share.positive
  · rw [if_pos positive, Share.gain_pos_iff (countP_shares_pos nonempty)]
    exact ⟨fun served => ⟨positive, served⟩, And.right⟩
  · rw [if_neg positive]
    exact ⟨fun none => absurd none (Nat.lt_irrefl 0), fun both => absurd both.1 positive⟩

end Alias

namespace AliasTable

open Alias

variable {weights : List Float} {entry : Nat}

/-- What can be drawn from a table, also when another draw was made before. -/
structure Draws (masses : List Nat) (table : AliasTable) (entry : Nat) : Prop where
  values : ((Finset.range totalMass).filter fun value =>
    pick table.buckets 0 table.buckets.size value = entry).card =
    masses.getD entry 0
  states : (∃ rng : Xorshift, rng.state ≠ 0 ∧ ∃ next, table.draw? rng = some (entry, next)) ↔
    0 < masses.getD entry 0
  later : (∃ rng : Xorshift, rng.state ≠ 0 ∧
    ∃ next, table.draw? rng.next31.2 = some (entry, next)) ↔ 0 < masses.getD entry 0

theorem card_ofWeights (nonempty : weights ≠ []) (entry : Nat) :
    ((Finset.range totalMass).filter fun value =>
    pick (ofWeights weights).buckets 0 (ofWeights weights).buckets.size value = entry).card =
        (quantize weights).getD entry 0 := by
  have some : quantize weights ≠ [] := by
    rw [← List.length_pos_iff, length_quantize]
    exact List.length_pos_iff.mpr nonempty
  have reproduces := masses_reproduced (quantize weights) some (quantizes nonempty).total
  obtain ⟨weight, weights, rfl⟩ := List.exists_cons_of_ne_nil nonempty
  have draws := reproduces.draws entry
  rw [← reproduces.size] at draws
  rw [ofWeights_cons]
  exact draws

theorem mass_pos_of_draw (nonempty : weights ≠ []) {rng next : Xorshift}
    (drew : (ofWeights weights).draw? rng = some (entry, next)) :
    0 < (quantize weights).getD entry 0 := by
  rw [← card_ofWeights nonempty entry, Finset.card_pos]
  rw [draw?, Alias.draw?] at drew
  dsimp only at drew
  split at drew
  · cases drew
  · obtain ⟨picked, _⟩ := Prod.mk.inj (Option.some.inj drew)
    exact ⟨_, Finset.mem_filter.mpr ⟨Finset.mem_range.mpr (Nat.mod_lt _ (by decide)), picked⟩⟩

theorem exists_draw_of_mass_pos (nonempty : weights ≠ [])
    (units : 0 < (quantize weights).getD entry 0) :
    ∃ rng : Xorshift, rng.state ≠ 0 ∧
      ∃ next, (ofWeights weights).draw? rng = some (entry, next) := by
  rw [← card_ofWeights nonempty entry, Finset.card_pos] at units
  obtain ⟨value, member⟩ := units
  obtain ⟨below, picked⟩ := Finset.mem_filter.mp member
  obtain ⟨rng, nonzero, drawn⟩ := Xorshift.exists_next31 (Finset.mem_range.mp below)
  have buckets : (ofWeights weights).buckets.size ≠ 0 := by
    rw [(ofWeights_closed weights).1]
    exact (List.length_pos_iff.mpr nonempty).ne'
  refine ⟨rng, nonzero, rng.next31.2, ?_⟩
  rw [draw?, Alias.draw?]
  dsimp only
  rw [if_neg buckets, totalMass, drawn, picked]

theorem ofWeights_draws (nonempty : weights ≠ []) (entry : Nat) :
    Draws (quantize weights) (ofWeights weights) entry := by
  refine ⟨card_ofWeights nonempty entry, ⟨?_, exists_draw_of_mass_pos nonempty⟩, ?_, ?_⟩
  · rintro ⟨_, _, _, drew⟩
    exact mass_pos_of_draw nonempty drew
  · rintro ⟨_, _, _, drew⟩
    exact mass_pos_of_draw nonempty drew
  -- The state in which it is drawn is the next one of another.
  · intro units
    obtain ⟨rng, nonzero, next, drew⟩ := exists_draw_of_mass_pos nonempty units
    obtain ⟨before, other, step⟩ := Xorshift.exists_step nonzero
    refine ⟨before, other, next, ?_⟩
    rw [Xorshift.next31, step]
    exact drew

end AliasTable

namespace AliasSlice

variable {proposals : AliasSlice} {word index : Nat} {row : AliasRow}

theorem propose?_smoothing (found : Search.find? proposals.words word = some index)
    (here : proposals.rows[index]? = some row) (sparse : row.dense = false) {rng : Xorshift}
    (other : ¬ proposals.DrawsOwn row rng) :
    proposals.propose? word rng = proposals.smoothing.draw? rng.next31.2 := by
  have missed :
      ¬ (0 < row.size ∧ rng.unit31.1 * (row.mass + proposals.smoothing.mass) < row.mass) := other
  simp only [AliasSlice.propose?, found, here, sparse, Bool.false_eq_true, if_false, drawSparse?,
    if_neg missed]
  rfl

/-- Which topics the word proposals of a slice get from the smoothing table: those that have units
of mass, in as many draws as they have units. -/
theorem smoothing_reaches (vocab : Vocabulary) (run : SliceMeta) (slice : Slice) (summary : Summary)
    (beta betaSum : Float) {topic : Nat} (below : topic < summary.numTopics) :
    let weights := AliasTable.smoothingWeights summary beta betaSum
    let masses := Alias.quantize weights
    let proposals := build vocab run slice summary beta betaSum
    (∃ share, (Alias.shares weights)[topic]? = some share ∧ Alias.Units weights topic share) ∧
    AliasTable.Draws masses (AliasTable.smoothing summary beta betaSum) topic ∧
    ∀ word index row, Search.find? proposals.words word = some index →
      proposals.rows[index]? = some row → row.dense = false →
      (∀ rng, ¬ proposals.DrawsOwn row rng →
        proposals.propose? word rng = (AliasTable.smoothing summary beta betaSum).draw?
        rng.next31.2) ∧
      (row.size = 0 →
        ((∃ rng : Xorshift, rng.state ≠ 0 ∧
        ∃ next, proposals.propose? word rng = some (topic, next)) ↔ 0 < masses.getD topic 0)) := by
  have length : (AliasTable.smoothingWeights summary beta betaSum).length = summary.numTopics := by
    rw [AliasTable.smoothingWeights, List.length_map, Array.length_toList]
    rfl
  intro weights masses proposals
  have nonempty : weights ≠ [] := List.length_pos_iff.mp (length ▸ Nat.zero_lt_of_lt below)
  have draws : AliasTable.Draws masses (AliasTable.smoothing summary beta betaSum) topic :=
    AliasTable.ofWeights_draws nonempty topic
  refine ⟨?_, draws, ?_⟩
  · have inside : topic < (Alias.shares weights).length := by
      rw [Alias.length_shares, length]
      exact below
    exact ⟨_, List.getElem?_eq_getElem inside,
      Alias.units_of_share (List.getElem?_eq_getElem inside)⟩
  · intro word index row found here sparse
    have smooth : ∀ rng, ¬ proposals.DrawsOwn row rng →
        proposals.propose? word rng = (AliasTable.smoothing summary beta betaSum).draw?
          rng.next31.2 :=
      fun rng other => propose?_smoothing found here sparse other
    refine ⟨smooth, fun empty => ?_⟩
    rw [← draws.later]
    have never : ∀ rng, ¬ proposals.DrawsOwn row rng := by
      rintro rng ⟨some, _⟩
      exact absurd empty some.ne'
    simp only [smooth _ (never _)]

/-- A rare word without a count, which proposes every topic. -/
theorem smoothing_reaches_rare :
    let vocab : Vocabulary := ⟨12, #[⟨3, 8, .dense, true⟩, ⟨9, 1, .sparse 2, false⟩],
        #[⟨0, 3, 9, 0, 2⟩]⟩
    let proposals := build vocab ⟨0, 3, 9, 0, 2⟩ (Slice.ofVocabulary vocab ⟨0, 3, 9, 0, 2⟩)
        (Summary.zero 12) 0.5 1.0
    7 < (Summary.zero 12).numTopics ∧ ∃ rng : Xorshift, rng.state ≠ 0 ∧
      ∃ next, proposals.propose? 9 rng = some (7, next) := by
  intro vocab proposals
  have below : 7 < (Summary.zero 12).numTopics := by decide
  obtain ⟨_, _, rows⟩ := smoothing_reaches vocab ⟨0, 3, 9, 0, 2⟩
    (Slice.ofVocabulary vocab ⟨0, 3, 9, 0, 2⟩) (Summary.zero 12)
    0.5 1.0 below
  have found : Search.find? proposals.words 9 = some 1 := by decide +kernel
  have here : proposals.rows[1]? = some ⟨12, 0, 0, false, 0.0⟩ := by decide +kernel
  exact ⟨below, ((rows 9 1 _ found here rfl).2 rfl).mpr (by decide +kernel)⟩

end AliasSlice

theorem AliasTable.quantize_tiny :
    Alias.quantize (smoothingWeights ⟨#[0, 1]⟩ 1e-10 1e-10) = [2147483647, 0] := by
  decide +kernel

/-- With a tiny smoothing parameter the topic with a token
has less than one unit, and is never drawn. -/
theorem AliasTable.smoothing_misses : (0.0 : Float) < 1e-10 ∧ (1e-10 : Float).isFinite ∧
    1 < (⟨#[0, 1]⟩ : Summary).numTopics ∧ (∀ count ∈ (⟨#[0, 1]⟩ : Summary).counts, 0 ≤ count) ∧
    ∀ rng next, (smoothing ⟨#[0, 1]⟩ 1e-10 1e-10).draw? rng ≠ some (1, next) := by
  refine ⟨by decide +kernel, by decide +kernel, by decide, by decide, ?_⟩
  intro rng next drew
  have nonempty : smoothingWeights ⟨#[0, 1]⟩ 1e-10 1e-10 ≠ [] := List.cons_ne_nil _ _
  have units := mass_pos_of_draw nonempty drew
  rw [quantize_tiny] at units
  exact absurd units (by decide)

end LatentTopics
