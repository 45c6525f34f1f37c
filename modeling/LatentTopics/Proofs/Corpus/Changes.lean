import Mathlib
import LatentTopics.Counts.View
import LatentTopics.Proofs.Corpus.Words

/-! What has changed between two versions of a document: one change for each token whose topic is
another one, in the order of the tokens. -/
namespace LatentTopics

def Token.change? (before after : Token) : Option Change :=
  if before.topic = after.topic then none else some ⟨before.word, before.topic, after.topic⟩

def Tokens.changes (before after : List Token) : List Change :=
  (before.zip after).filterMap fun (old, new) => old.change? new

def Document.changes (before after : Document) : List Change :=
  Tokens.changes before.tokens.toList after.tokens.toList

namespace Tokens

theorem changes_cons (old new : Token) (before after : List Token) :
    changes (old :: before) (new :: after) = (old.change? new).toList ++ changes before after := by
  rw [changes, List.zip_cons_cons, List.filterMap_cons]
  dsimp only
  cases old.change? new <;> rfl

theorem changes_self (tokens : List Token) : changes tokens tokens = [] := by
  induction tokens with
  | nil => rfl
  | cons token tokens ih => rw [changes_cons, ih, Token.change?, if_pos rfl]; rfl

theorem changes_modify {before after : List Token} {index topic : Nat} {token : Token}
    (here : before[index]? = some token)
    (ahead : ∀ position, index ≤ position → after[position]? = before[position]?)
    (different : topic ≠ token.topic) :
    changes before (after.modify index fun token => { token with topic }) =
      changes before after ++ [⟨token.word, token.topic, topic⟩] := by
  induction index generalizing before after with
  | zero =>
      obtain rfl : after = before := List.ext_getElem? fun position =>
        ahead position (Nat.zero_le position)
      cases after with
      | nil => cases here
      | cons first rest =>
          obtain rfl := Option.some.inj here
          rw [List.modify_zero_cons, changes_cons, changes_self, changes_self, Token.change?,
            if_neg (Ne.symm different)]
          rfl
  | succ index ih =>
      have there := (ahead (index + 1) (Nat.le_refl _)).trans here
      cases before with
      | nil => cases here
      | cons old before =>
          cases after with
          | nil => cases there
          | cons new after =>
              rw [List.modify_succ_cons, changes_cons, changes_cons, List.append_assoc,
                ih here fun position least => ahead (position + 1) (Nat.succ_le_succ least)]

end Tokens

namespace Document

variable {before after : Document}

theorem changes_of_tokens (same : after.tokens = before.tokens) : before.changes after = [] := by
  rw [changes, same, Tokens.changes_self]

theorem changes_setTopic {index topic : Nat} {token : Token}
    (here : before.tokens[index]? = some token)
    (ahead : ∀ position, index ≤ position → after.tokens[position]? = before.tokens[position]?)
    (different : topic ≠ token.topic) :
    before.changes (after.setTopic index topic) = before.changes after ++
        [⟨token.word, token.topic, topic⟩] := by
  have modified : (after.setTopic index topic).tokens.toList =
      after.tokens.toList.modify index fun token => { token with topic } := Array.toList_modify
  rw [changes, modified]
  apply Tokens.changes_modify _ _ different
  · rwa [Array.getElem?_toList]
  · intro position least
    rw [Array.getElem?_toList, Array.getElem?_toList, ahead position least]

theorem getElem?_setTopic_ne {index other : Nat} (doc : Document) (topic : Nat)
    (different : other ≠ index) :
    (doc.setTopic index topic).tokens[other]? = doc.tokens[other]? := by
  simp only [setTopic, Array.getElem?_modify, if_neg (Ne.symm different)]

end Document

end LatentTopics
