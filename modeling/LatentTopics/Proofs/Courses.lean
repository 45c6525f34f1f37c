import Mathlib
import LatentTopics.Fault

/-! Numbered steps one after another, and the states that they find. The
loops of a sampler and of an engine are all of this kind: over the tokens
of a document, the documents of a worker, the workers, and the slices. -/
namespace LatentTopics.Update

variable {σ : Type}

/-- Takes steps with the numbers from `number` on, at most `count` of them, until it is over.
Returns the number of the first step that was not taken. -/
def steps (ends : Nat → σ → Bool) (step : Nat → Update σ Unit) : Nat → Nat → Update σ Nat
  | 0, number, state => .ok number state
  | count + 1, number, state =>
      if ends number state then .ok number state
      else
        match step number state with
        | .ok _ state => steps ends step count (number + 1) state
        | .error fault state => .error fault state

def course (ends : Nat → σ → Bool) (step : Nat → Update σ Unit) : Nat → Nat → σ → List (Nat × σ)
  | 0, _, _ => []
  | count + 1, number, state =>
      if ends number state then []
      else
        (number, state) ::
          match step number state with
          | .ok _ state => course ends step count (number + 1) state
          | .error _ _ => []

def never : Nat → σ → Bool := fun _ _ => false

def reached {α : Type} (update : Update σ α) (state : σ) : Option σ :=
  match update state with
  | .ok _ after => some after
  | .error _ _ => none

variable {ends : Nat → σ → Bool} {step : Nat → Update σ Unit} {count first next : Nat}
  {state after : σ}

theorem steps_succ {between : σ} (further : ends first state = false)
    (stepped : step first state = .ok () between) :
    steps ends step (count + 1) first state = steps ends step count (first + 1) between := by
  simp only [steps, further, stepped, Bool.false_eq_true, if_false]

theorem course_succ {between : σ} (further : ends first state = false)
    (stepped : step first state = .ok () between) :
    course ends step (count + 1) first state =
      (first, state) :: course ends step count (first + 1) between := by
  simp only [course, further, stepped, Bool.false_eq_true, if_false]

/-- The states that steps find are those that they lead to when they are stopped earlier. -/
theorem course_eq_filterMap (count first : Nat) (state : σ) :
    course ends step count first state = (List.range count).filterMap fun taken =>
      match steps ends step taken first state with
      | .ok next now => if ends next now then none else some (next, now)
      | .error _ _ => none := by
  induction count generalizing first state with
  | zero => rfl
  | succ count ih =>
      cases further : ends first state with
      | true =>
          have ended : ∀ taken, steps ends step taken first state = .ok first state := by
            intro taken
            cases taken with
            | zero => rfl
            | succ taken => simp only [steps, further, if_true]
          simp only [course, ended, further, if_true, List.filterMap_none]
      | false =>
          rw [List.range_succ_eq_map, List.filterMap_cons, List.filterMap_map]
          simp only [steps, course, further, Bool.false_eq_true, if_false, Function.comp_def]
          cases stepped : step first state with
          | error fault between => simp only [List.filterMap_none]
          | ok _ between => exact congrArg ((first, state) :: ·) (ih (first + 1) between)

theorem steps_cases (done : steps ends step (count + 1) first state = .ok next after) :
    ends first state = true ∧ next = first ∧ after = state ∨
      ∃ between, ends first state = false ∧ step first state = .ok () between ∧
        steps ends step count (first + 1) between = .ok next after := by
  cases further : ends first state with
  | true =>
      simp only [steps, further, if_true] at done
      cases done
      exact Or.inl ⟨rfl, rfl, rfl⟩
  | false =>
      cases stepped : step first state with
      | error fault between =>
          simp only [steps, further, stepped, Bool.false_eq_true, if_false] at done
          cases done
      | ok _ between =>
          rw [steps_succ further stepped] at done
          exact Or.inr ⟨between, rfl, rfl, done⟩

/-- What every step passes on to the next one holds wherever a step begins. -/
theorem course_kept {P : Nat → σ → Prop} (count : Nat) {first : Nat} {state : σ}
    (begins : P first state)
    (kept : ∀ number state after, first ≤ number → number < first + count → P number state →
      ends number state = false → step number state = .ok () after → P (number + 1) after) :
    ∀ stop ∈ course ends step count first state,
      first ≤ stop.1 ∧ stop.1 < first + count ∧ ends stop.1 stop.2 = false ∧ P stop.1 stop.2 := by
  induction count generalizing first state with
  | zero => exact fun stop member => absurd member List.not_mem_nil
  | succ count ih =>
      intro stop member
      cases further : ends first state with
      | true =>
          simp only [course, further, if_true] at member
          cases member
      | false =>
          cases stepped : step first state with
          | error fault between =>
              simp only [course, further, stepped, Bool.false_eq_true, if_false] at member
              obtain rfl := List.mem_singleton.mp member
              exact ⟨Nat.le_refl _, by omega, further, begins⟩
          | ok _ between =>
              rw [course_succ further stepped] at member
              rcases List.mem_cons.mp member with rfl | later
              · exact ⟨Nat.le_refl _, by omega, further, begins⟩
              · have begins' :=
                  kept first state between (Nat.le_refl _) (by omega) begins further stepped
                obtain ⟨least, most, goes, holds⟩ := ih begins'
                  (fun number state after least most =>
                    kept number state after (by omega) (by omega)) stop later
                exact ⟨by omega, by omega, goes, holds⟩

theorem steps_kept {P : Nat → σ → Prop} (count : Nat) {first : Nat} {state : σ}
    (begins : P first state)
    (kept : ∀ number state after, first ≤ number → number < first + count → P number state →
      ends number state = false → step number state = .ok () after → P (number + 1) after)
    (done : steps ends step count first state = .ok next after) :
    first ≤ next ∧ next ≤ first + count ∧ (next < first + count → ends next after = true) ∧
      P next after := by
  induction count generalizing first state with
  | zero =>
      cases done
      exact ⟨Nat.le_refl _, Nat.le_refl _, fun less => absurd less (Nat.lt_irrefl _), begins⟩
  | succ count ih =>
      rcases steps_cases done with ⟨ended, rfl, rfl⟩ | ⟨between, further, stepped, rest⟩
      · exact ⟨Nat.le_refl _, by omega, fun _ => ended, begins⟩
      · obtain ⟨least, most, ended, holds⟩ :=
          ih (kept first state between (Nat.le_refl _) (by omega) begins further stepped)
          (fun number state after least most => kept number state after (by omega) (by omega)) rest
        exact ⟨by omega, by omega, fun less => ended (by omega), holds⟩

theorem steps_never_number (done : steps never step count first state = .ok next after) :
    next = first + count := by
  obtain ⟨_, most, ended, _⟩ :=
    steps_kept (P := fun _ _ => True) count trivial (fun _ _ _ _ _ _ _ _ => trivial) done
  by_contra less
  have := ended (by omega)
  simp only [never, Bool.false_eq_true] at this

theorem course_of_loop {α : Type} {loop : Nat → Update σ α}
    (same : ∀ taken, reached (loop taken) state = reached (steps never step taken first) state) :
    course never step count first state =
      (List.range count).filterMap fun taken =>
        (reached (loop taken) state).map (first + taken, ·) := by
  rw [course_eq_filterMap]
  apply List.filterMap_congr
  intro taken _
  rw [same, reached]
  cases stepped : steps never step taken first state with
  | error fault now => rfl
  | ok next now =>
      obtain rfl := steps_never_number stepped
      rfl

theorem reached_steps_of_ok {between : σ} (stepped : step first state = .ok () between) :
    reached (steps never step (count + 1) first) state =
        reached (steps never step count (first + 1)) between := by
  rw [reached, reached, steps_succ (by rfl) stepped]

theorem reached_steps_of_error {fault : Fault} {between : σ}
    (stepped : step first state = .error fault between) :
    reached (steps never step (count + 1) first) state = none := by
  simp only [reached, steps, never, stepped, Bool.false_eq_true, if_false]

/-- A loop that goes on to the next number after each step,
and stops where one is refused, gets where the steps do. -/
theorem reached_of_loop {loop : Nat → Nat → Update σ Unit}
    (done : ∀ number state, loop 0 number state = .ok () state)
    (next : ∀ count number state, loop (count + 1) number state =
      match step number state with
      | .ok _ between => loop count (number + 1) between
      | .error fault between => .error fault between)
    (count number : Nat) (state : σ) :
    reached (loop count number) state = reached (steps never step count number) state := by
  induction count generalizing number state with
  | zero => rw [reached, done, reached, steps]
  | succ count ih =>
      cases stepped : step number state with
      | error fault between =>
          rw [reached_steps_of_error stepped, reached, next, stepped]
      | ok _ between =>
          rw [reached_steps_of_ok stepped, ← ih, reached, next, stepped, reached]

theorem flatMap_course_of_loop {α β : Type} {loop : Nat → Update σ α}
    (same : ∀ taken, reached (loop taken) state = reached (steps never step taken first) state)
    (read : Nat × σ → List β) :
    (course never step count first state).flatMap read =
      (List.range count).flatMap fun taken => (reached (loop taken) state).toList.flatMap fun now =>
        read (first + taken, now) := by
  rw [course_of_loop same, List.filterMap_eq_flatMap_toList, List.flatMap_assoc]
  apply List.flatMap_congr
  intro taken _
  cases reached (loop taken) state <;> rfl

theorem steps_of_reached (led : reached (steps never step count first) state = some after) :
    steps never step count first state = .ok (first + count) after := by
  rw [reached] at led
  cases done : steps never step count first state with
  | error fault now =>
      rw [done] at led
      cases led
  | ok next now =>
      rw [done] at led
      obtain rfl := Option.some.inj led
      rw [steps_never_number done]

theorem course_of_steps (count : Nat) {first : Nat} {state : σ}
    (done : steps ends step count first state = .ok next after) :
    (course ends step count first state).map Prod.fst = List.range' first (next - first) ∧
      ∀ stop ∈ course ends step count first state,
        ∃ between, step stop.1 stop.2 = .ok () between := by
  induction count generalizing first state with
  | zero =>
      cases done
      rw [Nat.sub_self]
      exact ⟨rfl, fun stop member => absurd member List.not_mem_nil⟩
  | succ count ih =>
      rcases steps_cases done with ⟨ended, rfl, rfl⟩ | ⟨between, further, stepped, rest⟩
      · simp [course, ended]
      · obtain ⟨numbers, every⟩ := ih rest
        obtain ⟨least, _⟩ := steps_kept (P := fun _ _ => True) count trivial
          (fun _ _ _ _ _ _ _ _ => trivial) rest
        have length : next - first = next - (first + 1) + 1 := by omega
        rw [course_succ further stepped, length, List.range'_succ]
        refine ⟨congrArg (first :: ·) numbers, ?_⟩
        intro stop member
        rcases List.mem_cons.mp member with rfl | later
        · exact ⟨between, stepped⟩
        · exact every stop later

theorem course_map {α : Type} {P : Nat → σ → Prop} {read : Nat × σ → α} {known : Nat → α}
    (begins : P first state)
    (pass : ∀ (number : Nat) (state after : σ), P number state → step number state = .ok () after →
      P (number + 1) after ∧ read (number, state) = known number)
    (done : steps never step count first state = .ok (first + count) after) :
    P (first + count) after ∧ (course never step count first state).map read =
        (List.range' first count).map known := by
  have kept : ∀ (number : Nat) (state after : σ), first ≤ number → number < first + count →
      P number state → never number state = false → step number state = .ok () after →
      P (number + 1) after :=
    fun number state after _ _ holds _ stepped => (pass number state after holds stepped).1
  obtain ⟨_, _, _, holds⟩ := steps_kept count begins kept done
  obtain ⟨numbers, every⟩ := course_of_steps count done
  rw [Nat.add_sub_cancel_left] at numbers
  refine ⟨holds, ?_⟩
  rw [← numbers, List.map_map]
  apply List.map_congr_left
  intro stop member
  obtain ⟨_, _, _, here⟩ := course_kept count begins kept stop member
  obtain ⟨between, stepped⟩ := every stop member
  exact (pass stop.1 stop.2 between here stepped).2

end LatentTopics.Update
