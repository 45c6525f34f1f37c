import Mathlib
import LatentTopics.Proofs.Number
import LatentTopics.Proofs.Updates

/-! Counts that numbers are added to. Whatever keeps the counts, an addition stores the new sum in
the form that sums have there, or is refused and changes nothing. A ledger sums up exactly what was
accepted, and so says what is stored after any history of additions. -/
namespace LatentTopics

variable {σ κ : Type}

inductive Settles (form : Int → Int) (read : σ → κ → Int) (takes : σ → κ → Prop) (key : κ)
    (delta : Int) (update : Update σ Unit) (before : σ) : Prop where
  | stored (after : σ) (done : update before = .ok () after) (taken : takes before key)
      (nonneg : 0 ≤ read before key + delta)
      (count : read after key = form (read before key + delta)) (others : ∀ other, other ≠ key →
        read after other = read before other)
  | refused (fault : Fault) (failed : update before = .error fault before)
      (reason : takes before key → read before key + delta < 0)

/-- One addition to a count of 32 bits. A sum that is too large
for them is stored without its high bits, as a negative number. -/
inductive Wraps (read : σ → κ → Int) (takes : σ → κ → Prop) (key : κ) (delta : Int)
    (update : Update σ Unit) (before : σ) : Prop where
  | exact (after : σ) (done : update before = .ok () after) (taken : takes before key)
      (nonneg : 0 ≤ read before key + delta)
      (fits : read before key + delta < 2147483648)
      (count : read after key = read before key + delta)
      (others : ∀ other, other ≠ key → read after other = read before other)
  | wrapped (after : σ) (done : update before = .ok () after) (taken : takes before key)
      (exceeds : 2147483648 ≤ read before key + delta)
      (count : read after key = read before key + delta - 4294967296)
      (negative : read after key < 0) (others : ∀ other, other ≠ key →
        read after other = read before other)
  | refused (fault : Fault) (failed : update before = .error fault before)
      (reason : takes before key → read before key + delta < 0)

/-- The states that additions of 32-bit numbers lead to, each
with the exact sum of what was accepted for each key. -/
inductive Accrued [DecidableEq κ] (add : κ → Int → Update σ Unit) (first : σ) :
    σ → (κ → Int) → Prop where
  | first : Accrued add first first 0
  | stored {state after : σ} {sums : κ → Int} (accrued : Accrued add first state sums) (key : κ)
      {delta : Int} (range : Number.Int32Range delta) (done : add key delta state = .ok () after) :
      Accrued add first after (Function.update sums key (sums key + delta))
  | refused {state after : σ} {sums : κ → Int} (accrued : Accrued add first state sums) (key : κ)
      {delta : Int} (range : Number.Int32Range delta) {fault : Fault}
      (failed : add key delta state = .error fault after) :
      Accrued add first after sums

/-- Counts that keep 32 bits of their sums, whatever is added to them and in whatever order. -/
structure Narrows [DecidableEq κ] (read : σ → κ → Int) (takes : σ → κ → Prop)
    (add : κ → Int → Update σ Unit) (first : σ) : Prop where
  counts : ∀ state sums, Accrued add first state sums →
    ∀ key, read state key = Number.narrow (read first key + sums key)
  steps : ∀ state sums, Accrued add first state sums → ∀ key delta, Number.Int32Range delta →
    Wraps read takes key delta (add key delta) state
  exact : ∀ state sums, Accrued add first state sums →
    ∀ key delta, Number.Int32Range delta → ∀ after,
    add key delta state = .ok () after →
      ((read after key = read state key + delta ∧ 0 ≤ read after key) ↔
        read state key + delta < 2147483648)

variable {read : σ → κ → Int} {takes : σ → κ → Prop} {key : κ} {delta : Int}
  {update : Update σ Unit} {before after : σ}

theorem Settles.of_outcomes [DecidableEq κ] {form : Int → Int}
    (full : ¬ takes before key → ∃ fault, update before = .error fault before)
    (negative : takes before key → read before key + delta < 0 →
      ∃ fault, update before = .error fault before)
    (stores : takes before key → 0 ≤ read before key + delta →
      ∃ after, update before = .ok () after ∧ ∀ other, read after other =
        if other = key then form (read before key + delta) else read before other) :
    Settles form read takes key delta update before := by
  by_cases taken : takes before key
  · by_cases below : read before key + delta < 0
    · obtain ⟨fault, failed⟩ := negative taken below
      exact .refused fault failed fun _ => below
    · obtain ⟨after, done, counts⟩ := stores taken (not_lt.mp below)
      have own := (counts key).trans (if_pos rfl)
      exact .stored after done taken (not_lt.mp below) own fun other different =>
        (counts other).trans (if_neg different)
  · obtain ⟨fault, failed⟩ := full taken
    exact .refused fault failed fun possible => absurd possible taken

theorem Settles.of_ok {form : Int → Int} (settles : Settles form read takes key delta update before)
    (done : update before = .ok () after) :
    0 ≤ read before key + delta ∧ read after key = form (read before key + delta) ∧
      ∀ other, other ≠ key → read after other = read before other := by
  cases settles with
  | stored next added taken nonneg count others =>
      rw [added] at done
      cases done
      exact ⟨nonneg, count, others⟩
  | refused fault failed reason =>
      rw [failed] at done
      cases done

theorem Settles.of_error {form : Int → Int}
    (settles : Settles form read takes key delta update before) {fault : Fault}
    (failed : update before = .error fault after) : after = before := by
  cases settles with
  | stored next added taken nonneg count others =>
      rw [added] at failed
      cases failed
  | refused other refused reason =>
      rw [refused] at failed
      cases failed
      rfl

/-- Two numbers of 32 bits have a sum below 2^32, of which one bit at most is lost. -/
theorem Settles.wraps (settles : Settles Number.narrow read takes key delta update before)
    (count : Number.Int32Range (read before key)) (range : Number.Int32Range delta) :
    Wraps read takes key delta update before := by
  cases settles with
  | stored after done taken nonneg stored others =>
      obtain ⟨_, small⟩ := count
      obtain ⟨_, least⟩ := range
      by_cases fits : read before key + delta < 2147483648
      · rw [Number.narrow_eq_self (by omega) fits] at stored
        exact .exact after done taken nonneg fits stored others
      · have wrapped : read after key = read before key + delta - 4294967296 := by
          rw [stored, Number.narrow_eq_bmod, Int.bmod_def]
          omega
        exact .wrapped after done taken (not_lt.mp fits) wrapped (by omega) others
  | refused fault failed reason => exact .refused fault failed reason

theorem Wraps.exact_iff (wraps : Wraps read takes key delta update before)
    (done : update before = .ok () after) :
    (read after key = read before key + delta ∧ 0 ≤ read after key) ↔
      read before key + delta < 2147483648 := by
  cases wraps with
  | exact next added taken nonneg fits count others =>
      rw [added] at done
      cases done
      exact iff_of_true ⟨count, count ▸ nonneg⟩ fits
  | wrapped next added taken exceeds count negative others =>
      rw [added] at done
      cases done
      exact iff_of_false (fun stored => not_le.mpr negative stored.2) (not_lt.mpr exceeds)
  | refused fault failed reason =>
      rw [failed] at done
      cases done

section History

variable [DecidableEq κ] {add : κ → Int → Update σ Unit} {first state : σ} {sums : κ → Int}
  {P : σ → Prop}

theorem Accrued.keeps (accrued : Accrued add first state sums) (holds : P first)
    (keeps : ∀ key delta, Number.Int32Range delta → Update.Keeps P (add key delta)) : P state := by
  induction accrued with
  | first => exact holds
  | stored _ key range done ih => exact (keeps key _ range).of_ok ih done
  | refused _ key range failed ih => exact (keeps key _ range).of_error ih failed

/-- After any history a count of 32 bits is what they hold
of the first count and the sum of all that was accepted. -/
theorem Accrued.count_eq (accrued : Accrued add first state sums) (holds : P first)
    (keeps : ∀ key delta, Number.Int32Range delta → Update.Keeps P (add key delta))
    (settles : ∀ state key delta, P state → Number.Int32Range delta →
      Settles Number.narrow read takes key delta (add key delta) state)
    (range : ∀ key, Number.Int32Range (read first key)) (key : κ) :
    read state key = Number.narrow (read first key + sums key) := by
  induction accrued with
  | first => rw [Pi.zero_apply, Int.add_zero, (range key).narrow_eq]
  | stored accrued own small done ih =>
      obtain ⟨_, count, others⟩ := (settles _ own _ (accrued.keeps holds keeps) small).of_ok done
      by_cases same : key = own
      · subst same
        rw [count, ih, Number.narrow_add_narrow, Function.update_self, Int.add_assoc]
      · rw [others key same, ih, Function.update_of_ne same]
  | refused accrued own small failed ih =>
      rw [(settles _ own _ (accrued.keeps holds keeps) small).of_error failed]
      exact ih

theorem Narrows.of_settles (holds : P first)
    (keeps : ∀ key delta, Number.Int32Range delta → Update.Keeps P (add key delta))
    (settles : ∀ state key delta, P state → Number.Int32Range delta →
      Settles Number.narrow read takes key delta (add key delta) state)
    (range : ∀ state key, P state → Number.Int32Range (read state key)) :
    Narrows read takes add first := by
  have steps : ∀ state sums, Accrued add first state sums → ∀ key delta, Number.Int32Range delta →
      Wraps read takes key delta (add key delta) state := by
    intro state sums accrued key delta small
    have kept := accrued.keeps holds keeps
    exact (settles state key delta kept small).wraps (range state key kept) small
  refine ⟨?_, steps, ?_⟩
  · intro state sums accrued key
    exact accrued.count_eq holds keeps settles (fun key => range first key holds) key
  · intro state sums accrued key delta small after done
    exact (steps state sums accrued key delta small).exact_iff done

end History

section InTurn

variable {add : κ → Int → Update σ Unit} {P : σ → Prop}

def inTurn (add : κ → Int → Update σ Unit) : List (κ × Int) → Update σ Unit
  | [], state => .ok () state
  | (key, delta) :: additions, state =>
      match add key delta state with
      | .ok _ state => inTurn add additions state
      | .error fault state => .error fault state

theorem inTurn_ok {form part : Int → Int} (keeps : ∀ key delta, Update.Keeps P (add key delta))
    (settles : ∀ state key delta, P state →
      Settles form read takes key (part delta) (add key delta) state)
    (additions : List (κ × Int)) (distinct : (additions.map Prod.fst).Nodup) (holds : P before)
    (done : inTurn add additions before = .ok () after) :
    (∀ key delta, (key, delta) ∈ additions →
      0 ≤ read before key + part delta ∧ read after key = form (read before key + part delta)) ∧
      ∀ key, key ∉ additions.map Prod.fst → read after key = read before key := by
  induction additions generalizing before with
  | nil =>
      cases done
      exact ⟨fun key delta member => absurd member List.not_mem_nil, fun _ _ => rfl⟩
  | cons addition additions ih =>
      obtain ⟨first, amount⟩ := addition
      rw [List.map_cons, List.nodup_cons] at distinct
      rw [inTurn] at done
      cases added : add first amount before with
      | error fault between =>
          rw [added] at done
          cases done
      | ok _ between =>
          rw [added] at done
          obtain ⟨nonneg, count, others⟩ := (settles before first amount holds).of_ok added
          obtain ⟨listed, unlisted⟩ := ih distinct.2 ((keeps first amount).of_ok holds added) done
          constructor
          · intro key delta member
            rcases List.mem_cons.mp member with own | later
            · obtain ⟨rfl, rfl⟩ := Prod.mk.inj own
              rw [unlisted key distinct.1, count]
              exact ⟨nonneg, rfl⟩
            -- The first addition was to another key.
            · have different : key ≠ first := by
                rintro rfl
                exact distinct.1 (List.mem_map.mpr ⟨(key, delta), later, rfl⟩)
              have sum := listed key delta later
              rwa [others key different] at sum
          · intro key missing
            rw [List.map_cons, List.mem_cons, not_or] at missing
            rw [unlisted key missing.2, others key missing.1]

/-- The additions may be the sums that are not zero, in whatever order. -/
theorem inTurn_sums {form part : Int → Int} (keeps : ∀ key delta, Update.Keeps P (add key delta))
    (settles : ∀ state key delta, P state →
      Settles form read takes key (part delta) (add key delta) state)
    {additions : List (κ × Int)} (distinct : (additions.map Prod.fst).Nodup) {sums : κ → Int}
    (lists : ∀ key delta, (key, delta) ∈ additions ↔ delta ≠ 0 ∧ sums key = delta)
    (holds : P before) (done : inTurn add additions before = .ok () after) (key : κ) :
    (sums key ≠ 0 → 0 ≤ read before key + part (sums key) ∧
      read after key = form (read before key + part (sums key))) ∧
      (sums key = 0 → read after key = read before key) := by
  obtain ⟨listed, unlisted⟩ := inTurn_ok keeps settles additions distinct holds done
  constructor
  · intro nonzero
    exact listed key (sums key) ((lists key (sums key)).mpr ⟨nonzero, rfl⟩)
  · intro zero
    apply unlisted key
    intro member
    obtain ⟨⟨_, delta⟩, listing, rfl⟩ := List.mem_map.mp member
    obtain ⟨nonzero, sum⟩ := (lists _ delta).mp listing
    exact nonzero (sum.symm.trans zero)

end InTurn

end LatentTopics
