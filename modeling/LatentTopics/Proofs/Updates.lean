import LatentTopics.Fault

/-! What comes out of an update: the fault it ends with, if
any, and the state it leaves in either case. -/
namespace LatentTopics.Update

variable {σ α : Type}

def left (update : Update σ α) (state : σ) : σ :=
  match update state with
  | .ok _ after => after
  | .error _ after => after

def refusal (update : Update σ α) (state : σ) : Option Fault :=
  match update state with
  | .ok _ _ => none
  | .error fault _ => some fault

variable {update : Update σ α} {state after : σ}

theorem left_of_ok {value : α} (done : update state = .ok value after) :
    left update state = after := by
  rw [left, done]

theorem left_of_error {fault : Fault} (failed : update state = .error fault after) :
    left update state = after := by
  rw [left, failed]

theorem refusal_of_ok {value : α} (done : update state = .ok value after) :
    refusal update state = none := by
  rw [refusal, done]

theorem refusal_of_error {fault : Fault} (failed : update state = .error fault after) :
    refusal update state = some fault := by
  rw [refusal, failed]

/-- Whether it fails or not, the update leaves what held before. -/
def Keeps (P : σ → Prop) (update : Update σ α) : Prop :=
  ∀ state, P state → P (left update state)

variable {P : σ → Prop}

theorem Keeps.bind {β : Type} {rest : α → Update σ β} (keeps : Keeps P update)
    (others : ∀ value, Keeps P (rest value)) :
    Keeps P (update >>= rest) := by
  intro state holds
  have between := keeps state holds
  cases done : update state with
  | ok value after =>
      rw [left_of_ok done] at between
      have next := others value after between
      simp only [left, Bind.bind, EStateM.bind, done] at next ⊢
      exact next
  | error fault after =>
      rw [left_of_error done] at between
      simp only [left, Bind.bind, EStateM.bind, done]
      exact between

theorem Keeps.of_ok (keeps : Keeps P update) {value : α} (holds : P state)
    (done : update state = .ok value after) : P after :=
  left_of_ok done ▸ keeps state holds

theorem Keeps.of_error (keeps : Keeps P update) {fault : Fault} (holds : P state)
    (failed : update state = .error fault after) : P after :=
  left_of_error failed ▸ keeps state holds

theorem Keeps.of_outcomes (outcomes : ∀ state, P state →
    (∃ value after, update state = .ok value after ∧ P after) ∨
      ∃ fault, update state = .error fault state) : Keeps P update := by
  intro state holds
  rcases outcomes state holds with ⟨value, after, done, kept⟩ | ⟨fault, failed⟩
  · rw [left_of_ok done]
    exact kept
  · rw [left_of_error failed]
    exact holds

theorem Keeps.followed {β : Type} {others whole : Update σ β} (keeps : Keeps P update)
    (rest : Keeps P others)
    (onward : ∀ {state value next}, update state = .ok value next → whole state = others next)
    (ended : ∀ {state fault next}, update state = .error fault next →
      whole state = .error fault next) : Keeps P whole := by
  intro state holds
  cases done : update state with
  | ok value next =>
      rw [left, onward done]
      exact rest next (keeps.of_ok holds done)
  | error fault next =>
      rw [left_of_error (ended done)]
      exact keeps.of_error holds done

/-- Two updates answer alike and leave states that stand in the relation. -/
structure Agree {τ β : Type} (related : σ → τ → Prop) (update : Update σ α) (other : Update τ β)
    (state : σ) (shadow : τ) : Prop where
  refusal : refusal update state = refusal other shadow
  left : related (left update state) (left other shadow)

section Agree

variable {τ β : Type} {related : σ → τ → Prop} {other : Update τ β} {shadow : τ}

theorem Agree.congr {whole : Update σ α} (agree : Agree related update other state shadow)
    (same : whole state = update state) : Agree related whole other state shadow := by
  constructor
  · rw [Update.refusal, same]
    exact agree.refusal
  · rw [Update.left, same]
    exact agree.left

theorem Agree.outcomes (agree : Agree related update other state shadow) :
    (∃ value after value' after', update state = .ok value after ∧
      other shadow = .ok value' after' ∧ related after after') ∨
      ∃ fault after after', update state = .error fault after ∧ other shadow = .error fault after' ∧
      related after after' := by
  obtain ⟨answers, related⟩ := agree
  cases done : update state with
  | ok value after =>
      rw [refusal_of_ok done] at answers
      rw [left_of_ok done] at related
      cases done' : other shadow with
      | ok value' after' =>
          rw [left_of_ok done'] at related
          exact Or.inl ⟨value, after, value', after', rfl, rfl, related⟩
      | error fault after' =>
          rw [refusal_of_error done'] at answers
          cases answers
  | error fault after =>
      rw [refusal_of_error done] at answers
      rw [left_of_error done] at related
      cases done' : other shadow with
      | ok value' after' =>
          rw [refusal_of_ok done'] at answers
          cases answers
      | error fault' after' =>
          rw [refusal_of_error done'] at answers
          rw [left_of_error done'] at related
          obtain rfl := Option.some.inj answers
          exact Or.inr ⟨fault, after, after', rfl, rfl, related⟩

end Agree

end LatentTopics.Update
