import Mathlib
import LatentTopics.Sampler.Chain
import LatentTopics.Proofs.Alias.Proposals

/-! The chain of a token stays among the topics. It does so whatever the draws and the acceptance
probabilities are: a move goes to a proposed topic or nowhere. -/
namespace LatentTopics

theorem Xorshift.below_lt {bound limit : Nat} (positive : 0 < limit) (most : bound ≤ limit)
    (rng : Xorshift) :
    (rng.below bound).1 < limit := by
  simp only [Xorshift.below]
  split <;> omega

namespace Chain

variable {doc : Document} {numTopics : Nat}

theorem proposeFromDoc_lt (positive : 0 < numTopics)
    (below : ∀ token ∈ doc.tokens, token.topic < numTopics) (alphaSum : Float) (rng : Xorshift) :
    (proposeFromDoc doc numTopics alphaSum rng).1 < numTopics := by
  simp only [proposeFromDoc]
  split
  · rw [Array.getD_eq_getD_getElem?]
    cases here : doc.tokens[(rng.unit31.2.below (Number.word32 doc.size)).1]? with
    | none => exact positive
    | some token => exact below token (Array.mem_of_getElem? here)
  · exact Xorshift.below_lt positive (Nat.mod_le _ _) _

theorem decide_lt {chain : Chain} {proposed : Nat} (here : chain.topic < numTopics)
    (there : proposed < numTopics) (draw probability : Float) (rng : Xorshift) :
    (chain.decide proposed draw probability rng).topic < numTopics := by
  simp only [decide]
  split
  · exact there
  · exact here

theorem rounds_lt {proposals : AliasSlice} (legal : proposals.Legal numTopics)
    (positive : 0 < numTopics) (below : ∀ token ∈ doc.tokens, token.topic < numTopics) (word : Nat)
    (alphaSum : Float) (rule : MoveRule) (count : Nat) {chain : Chain}
    (here : chain.topic < numTopics) :
    ∃ after, rounds proposals word doc numTopics alphaSum rule count chain = some after ∧
      after.topic < numTopics := by
  induction count generalizing chain with
  | zero => exact ⟨chain, rfl, here⟩
  | succ count ih =>
      obtain ⟨proposed, next, drew, there⟩ := legal.propose? positive word chain.rng
      have moved : chain.wordMove proposals word rule =
          .some (chain.decide proposed next.unit31.1 (rule.byWord chain.topic proposed)
            next.unit31.2) := by
        simp only [wordMove, drew]
      have first := decide_lt here there next.unit31.1 (rule.byWord chain.topic proposed)
        next.unit31.2
      have second :
          ((chain.decide proposed next.unit31.1 (rule.byWord chain.topic proposed)
            next.unit31.2).docMove doc numTopics alphaSum rule).topic < numTopics :=
        decide_lt first (proposeFromDoc_lt positive below alphaSum _) _ _ _
      simp only [rounds, moved]
      exact ih second

end Chain

end LatentTopics
