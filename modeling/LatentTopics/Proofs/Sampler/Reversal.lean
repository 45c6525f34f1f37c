import Mathlib
import LatentTopics.Sampler.Acceptance

/-! Detailed balance. In exact arithmetic a move and its reversal come to pass equally often under
the target, for both proposals and whichever of the two topics is that of the token. The target
leaves the token out of all counts, the proposals count it. -/
namespace LatentTopics

instance Scalar.exact (F : Type) [Field F] [LinearOrder F] : Scalar F where
  ofInt := Int.cast
  decLt := inferInstance

structure Tally.Nonneg (tally : Tally) : Prop where
  doc : 0 ≤ tally.doc
  word : 0 ≤ tally.word
  total : 0 ≤ tally.total

/-- Tallies that count a token of topic `old` among others. -/
structure Tally.Holds (tally : Nat → Tally) (old : Nat) : Prop where
  nonneg : ∀ topic, (tally topic).Nonneg
  doc : 1 ≤ (tally old).doc
  word : 1 ≤ (tally old).word
  total : 1 ≤ (tally old).total

theorem Tally.Holds.exclude {tally : Nat → Tally} {old : Nat} (holds : Tally.Holds tally old)
    (topic : Nat) :
    ((tally topic).exclude (topic = old)).Nonneg := by
  obtain ⟨nonneg, doc, word, total⟩ := holds
  by_cases own : topic = old
  · subst own
    simp only [Tally.exclude, decide_true, if_true]
    exact ⟨Int.sub_nonneg.mpr doc, Int.sub_nonneg.mpr word, Int.sub_nonneg.mpr total⟩
  · simp only [Tally.exclude, own, decide_false, Bool.false_eq_true, if_false]
    exact nonneg topic

namespace Priors

section Exact

variable {F : Type} [Field F] [LinearOrder F] (priors : Priors F)

structure Positive : Prop where
  alpha : 0 < priors.alpha
  beta : 0 < priors.beta
  betaSum : 0 < priors.betaSum

/-- The weight that a topic has for a token of topic `old` by all other tokens. -/
def target (tally : Nat → Tally) (old topic : Nat) : F :=
  let others := (tally topic).exclude (topic = old)
  priors.docWeight others * priors.wordWeight others / priors.totalWeight others

/-- A move from `s` to `t` in balance with its reversal; nothing is divided by zero on the way. -/
structure Balanced (tally : Nat → Tally) (proposal : Tally → F) (old s t : Nat) : Prop where
  balance : priors.target tally old s * proposal (tally t) * priors.acceptance tally
    proposal old s t =
    priors.target tally old t * proposal (tally s) * priors.acceptance tally proposal old t s
  accepted : 0 < priors.acceptance tally proposal old s t
  atMostOne : priors.acceptance tally proposal old s t ≤ 1
  targets : 0 < priors.totalWeight ((tally s).exclude (s = old)) ∧
    0 < priors.totalWeight ((tally t).exclude (t = old))
  proposals : 0 < priors.totalWeight (tally s) ∧ 0 < priors.totalWeight (tally t)
  denominator : 0 < priors.docWeight ((tally s).exclude (s = old)) * priors.wordWeight
    ((tally s).exclude (s = old)) *
    priors.totalWeight ((tally t).exclude (t = old)) * proposal (tally t)

theorem capAtOne_eq (x : F) : Scalar.capAtOne x = min x 1 := by
  have one : (Scalar.ofInt 1 : F) = 1 := Int.cast_one
  rw [Scalar.capAtOne, one]
  split
  · next less => exact (min_eq_left less.le).symm
  · next more => exact (min_eq_right (not_lt.mp more)).symm

theorem ratio_eq (s t : Tally) (proposalOfS proposalOfT : F) :
    priors.ratio s t proposalOfS proposalOfT =
    priors.docWeight t * priors.wordWeight t * priors.totalWeight s * proposalOfS /
      (priors.docWeight s * priors.wordWeight s * priors.totalWeight t * proposalOfT) :=
  rfl

end Exact

variable {F : Type} [Field F] [LinearOrder F] [IsStrictOrderedRing F] {priors : Priors F}
  {tally : Nat → Tally}
  {proposal : Tally → F} {counts : Tally} {old : Nat}

theorem Positive.docWeight (positive : priors.Positive) (nonneg : counts.Nonneg) :
    0 < priors.docWeight counts :=
  add_pos_of_nonneg_of_pos (Int.cast_nonneg nonneg.doc) positive.alpha

theorem Positive.wordWeight (positive : priors.Positive) (nonneg : counts.Nonneg) :
    0 < priors.wordWeight counts :=
  add_pos_of_nonneg_of_pos (Int.cast_nonneg nonneg.word) positive.beta

theorem Positive.totalWeight (positive : priors.Positive) (nonneg : counts.Nonneg) :
    0 < priors.totalWeight counts :=
  add_pos_of_nonneg_of_pos (Int.cast_nonneg nonneg.total) positive.betaSum

theorem Positive.wordProposal (positive : priors.Positive) (nonneg : counts.Nonneg) :
    0 < priors.wordProposal counts :=
  div_pos (positive.wordWeight nonneg) (positive.totalWeight nonneg)

theorem Positive.target (positive : priors.Positive) (holds : Tally.Holds tally old) (topic : Nat) :
    0 < priors.target tally old topic := by
  have others := holds.exclude topic
  exact div_pos (mul_pos (positive.docWeight others) (positive.wordWeight others))
    (positive.totalWeight others)

/-- A move is accepted as the target times the proposal of its reversal compares with its own. -/
theorem Positive.acceptance_eq (positive : priors.Positive) (holds : Tally.Holds tally old)
    (proposed : ∀ topic, 0 < proposal (tally topic)) (s t : Nat) :
    priors.acceptance tally proposal old s t =
      min (priors.target tally old t * proposal (tally s) /
        (priors.target tally old s * proposal (tally t))) 1 := by
  by_cases same : s = t
  · subst same
    have whole := mul_pos (positive.target holds s) (proposed s)
    have one : (Scalar.ofInt 1 : F) = 1 := Int.cast_one
    rw [acceptance, if_pos rfl, one, div_self whole.ne', min_self]
  · have totalOfS := (positive.totalWeight (holds.exclude s)).ne'
    have totalOfT := (positive.totalWeight (holds.exclude t)).ne'
    have ratio : priors.ratio ((tally s).exclude (s = old)) ((tally t).exclude (t = old))
        (proposal (tally s))
        (proposal (tally t)) =
        priors.target tally old t * proposal (tally s) /
          (priors.target tally old s * proposal (tally t)) := by
      rw [ratio_eq, Priors.target, Priors.target]
      field_simp
    rw [acceptance, if_neg same, capAtOne_eq, ratio]

theorem mul_min_div {a b : F} (aPositive : 0 < a) (bPositive : 0 < b) :
    a * min (b / a) 1 = b * min (a / b) 1 := by
  rw [mul_min_of_nonneg _ _ aPositive.le, mul_min_of_nonneg _ _ bPositive.le,
    mul_div_cancel₀ b aPositive.ne', mul_div_cancel₀ a bPositive.ne', mul_one, mul_one, min_comm]

theorem Positive.balanced (positive : priors.Positive) (holds : Tally.Holds tally old)
    (proposed : ∀ topic, 0 < proposal (tally topic)) (s t : Nat) :
    priors.Balanced tally proposal old s t := by
  have forward := mul_pos (positive.target holds s) (proposed t)
  have backward := mul_pos (positive.target holds t) (proposed s)
  have ofS := holds.exclude s
  have ofT := holds.exclude t
  constructor
  · rw [positive.acceptance_eq holds proposed, positive.acceptance_eq holds proposed]
    exact mul_min_div forward backward
  · rw [positive.acceptance_eq holds proposed]
    exact lt_min (div_pos backward forward) one_pos
  · rw [positive.acceptance_eq holds proposed]
    exact min_le_right _ _
  · exact ⟨positive.totalWeight ofS, positive.totalWeight ofT⟩
  · exact ⟨positive.totalWeight (holds.nonneg s), positive.totalWeight (holds.nonneg t)⟩
  · exact mul_pos (mul_pos (mul_pos (positive.docWeight ofS) (positive.wordWeight ofS))
      (positive.totalWeight ofT))
      (proposed t)

/-- Training moves between any two topics in detailed
balance, by word proposals and by document proposals. -/
theorem moves_balanced (positive : priors.Positive) (holds : Tally.Holds tally old) (s t : Nat) :
    priors.Balanced tally priors.wordProposal old s t ∧
      priors.Balanced tally priors.docProposal old s t :=
  ⟨positive.balanced holds (fun topic => positive.wordProposal (holds.nonneg topic)) s t,
    positive.balanced holds (fun topic => positive.docWeight (holds.nonneg topic)) s t⟩

/-- A token of topic 0, of which it is the only one, moves to a topic that has none. -/
theorem moves_balanced_lone :
    let priors : Priors Rat := ⟨1 / 2, 1 / 10, 1 / 5⟩
    let tally : Nat → Tally := fun topic => if topic = 0 then ⟨1, 1, 1⟩ else ⟨0, 0, 0⟩
    priors.Positive ∧ Tally.Holds tally 0 ∧
      priors.Balanced tally priors.wordProposal 0 0 1 ∧
        priors.Balanced tally priors.docProposal 0 0 1 := by
  intro priors tally
  have positive : priors.Positive := by
    constructor <;> norm_num [priors]
  have holds : Tally.Holds tally 0 := by
    refine ⟨?_, by decide, by decide, by decide⟩
    intro topic
    simp only [tally]
    split <;> exact ⟨by decide, by decide, by decide⟩
  exact ⟨positive, holds, moves_balanced positive holds 0 1⟩

end Priors

end LatentTopics
