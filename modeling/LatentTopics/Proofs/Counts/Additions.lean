import Mathlib
import LatentTopics.Counts.View
import LatentTopics.Proofs.Number
import LatentTopics.Proofs.Updates

/-! Commits and merges as additions. Both add to counts of rows and to totals, one addition after
another until one of them is refused. -/
namespace LatentTopics

inductive Addition where
  | row (word topic : Nat) (delta : Int)
  | total (topic : Nat) (delta : Int)
  deriving DecidableEq, Repr

namespace Addition

def apply : Addition → Update (Slice × Summary) Unit
  | .row word topic delta, (slice, summary) =>
      match Slice.add word topic delta slice with
      | .ok _ slice => .ok () (slice, summary)
      | .error fault slice => .error fault (slice, summary)
  | .total topic delta, (slice, summary) =>
      match Summary.add topic delta summary with
      | .ok _ summary => .ok () (slice, summary)
      | .error fault summary => .error fault (slice, summary)

def applyAll : List Addition → Update (Slice × Summary) Unit
  | [], counts => .ok () counts
  | addition :: additions, counts =>
      match addition.apply counts with
      | .ok _ counts => applyAll additions counts
      | .error fault counts => .error fault counts

def InRange : Addition → Prop
  | .row _ _ delta => Number.Int32Range delta
  | .total .. => True

theorem left_row (word topic : Nat) (delta : Int) (slice : Slice) (summary : Summary) :
    Update.left (apply (.row word topic delta)) (slice, summary) =
        (Update.left (Slice.add word topic delta) slice, summary) := by
  simp only [Update.left, apply]
  cases Slice.add word topic delta slice <;> rfl

theorem left_total (topic : Nat) (delta : Int) (slice : Slice) (summary : Summary) :
    Update.left (apply (.total topic delta)) (slice, summary) =
        (slice, Update.left (Summary.add topic delta) summary) := by
  simp only [Update.left, apply]
  cases Summary.add topic delta summary <;> rfl

theorem keeps_applyAll {P : Slice × Summary → Prop} {additions : List Addition}
    (each : ∀ addition ∈ additions, Update.Keeps P addition.apply) :
    Update.Keeps P (applyAll additions) := by
  induction additions with
  | nil => exact fun counts holds => holds
  | cons addition additions ih =>
      exact (each addition List.mem_cons_self).followed (ih fun other member =>
        each other (List.mem_cons_of_mem _ member))
        (fun done => by rw [applyAll, done]) fun failed => by rw [applyAll, failed]

end Addition

def Change.additions (change : Change) : List Addition :=
  [.row change.word change.old (-1), .row change.word change.new 1, .total change.old (-1),
    .total change.new 1]

/-- The additions of a merge: those of rows in the order of
their sums, and behind them those of totals. -/
def DeltaLog.additions (log : DeltaLog) : List Addition :=
  log.wordChanges.map (fun ((word, topic), delta) => .row word topic (Number.narrow delta)) ++
    log.totalChanges.map fun (topic, delta) => .total topic delta

theorem Change.additions_inRange (change : Change) :
    ∀ addition ∈ change.additions, addition.InRange := by
  have range : Number.Int32Range (-1) ∧ Number.Int32Range 1 :=
    ⟨⟨by decide, by decide⟩, ⟨by decide, by decide⟩⟩
  simp only [additions, List.forall_mem_cons]
  exact ⟨range.1, range.2, trivial, trivial, List.forall_mem_nil _⟩

theorem DeltaLog.additions_inRange (log : DeltaLog) :
    ∀ addition ∈ log.additions, addition.InRange := by
  intro addition member
  rcases List.mem_append.mp member with row | total
  · obtain ⟨⟨⟨word, topic⟩, delta⟩, _, rfl⟩ := List.mem_map.mp row
    exact Number.narrow_range delta
  · obtain ⟨⟨topic, delta⟩, _, rfl⟩ := List.mem_map.mp total
    trivial

namespace InPlace

/-- An update of a view consists of additions to what it views. -/
def RunsAs (additions : List Addition) (update : Update InPlace Unit) : Prop :=
  ∀ view, update view = match Addition.applyAll additions (view.slice, view.summary) with
    | .ok _ counts => .ok () ⟨counts.1, counts.2, view.recording, view.events⟩
    | .error fault counts => .error fault ⟨counts.1, counts.2, view.recording, view.events⟩

theorem runsAs_addToRow (word topic : Nat) (delta : Int) :
    RunsAs [.row word topic delta] (addToRow word topic delta) := by
  intro view
  simp only [addToRow, Addition.applyAll, Addition.apply]
  cases Slice.add word topic delta view.slice <;> rfl

theorem runsAs_addToTotal (topic : Nat) (delta : Int) :
    RunsAs [.total topic delta] (addToTotal topic delta) := by
  intro view
  simp only [addToTotal, Addition.applyAll, Addition.apply]
  cases Summary.add topic delta view.summary <;> rfl

theorem RunsAs.bind {addition : Addition} {additions : List Addition}
    {first rest : Update InPlace Unit} (runsFirst : RunsAs [addition] first)
    (runsRest : RunsAs additions rest) :
    RunsAs (addition :: additions) (first >>= fun _ => rest) := by
  intro view
  have begins := runsFirst view
  simp only [Addition.applyAll] at begins ⊢
  cases done : addition.apply (view.slice, view.summary) with
  | ok _ counts =>
      rw [done] at begins
      simp only [Bind.bind, EStateM.bind, begins]
      exact runsRest _
  | error fault counts =>
      rw [done] at begins
      simp only [Bind.bind, EStateM.bind, begins]

def move (change : Change) : Update InPlace Unit := do
  addToRow change.word change.old (-1)
  addToRow change.word change.new 1
  addToTotal change.old (-1)
  addToTotal change.new 1

theorem commit_eq (change : Change) : commit change = move change >>= fun _ => record change := by
  simp only [commit, move, bind_assoc]

theorem runsAs_move (change : Change) : RunsAs change.additions (move change) :=
  (runsAs_addToRow _ _ _).bind
    ((runsAs_addToRow _ _ _).bind ((runsAs_addToTotal _ _).bind (runsAs_addToTotal _ _)))

theorem RunsAs.keeps {P : Slice × Summary → Prop} {additions : List Addition}
    {update : Update InPlace Unit} (runs : RunsAs additions update)
    (keeps : Update.Keeps P (Addition.applyAll additions)) :
    Update.Keeps (fun view => P (view.slice, view.summary)) update := by
  intro view holds
  have after := keeps (view.slice, view.summary) holds
  have same := runs view
  rw [Update.left] at after ⊢
  rw [same]
  cases applied : Addition.applyAll additions (view.slice, view.summary) <;>
    · rw [applied] at after
      exact after

theorem RunsAs.keeps_record {additions : List Addition} {update : Update InPlace Unit}
    (runs : RunsAs additions update) (recording : Bool) (events : Array Change) :
    Update.Keeps (fun view => view.recording = recording ∧ view.events = events) update := by
  intro view holds
  rw [Update.left, runs view]
  cases Addition.applyAll additions (view.slice, view.summary) <;> exact holds

theorem commit_cases (change : Change) (view : InPlace) :
    (∃ moved, move change view = .ok () moved ∧ commit change view =
      .ok () ⟨moved.slice, moved.summary, moved.recording,
        if moved.recording then moved.events.push change else moved.events⟩) ∨
    ∃ fault left, move change view = .error fault left ∧
      commit change view = .error fault left := by
  rw [commit_eq]
  cases moved : move change view with
  | ok _ next => exact Or.inl ⟨next, rfl, by simp only [bind, EStateM.bind, moved, record]⟩
  | error fault next => exact Or.inr ⟨fault, next, rfl, by simp only [bind, EStateM.bind, moved]⟩

end InPlace

namespace DeltaLog

theorem applyAll_rows (changes : List ((Nat × Nat) × Int)) (others : List Addition) (slice : Slice)
    (summary : Summary) :
    Addition.applyAll (changes.map (fun ((word, topic), delta) =>
        .row word topic (Number.narrow delta)) ++ others)
        (slice, summary) = match applyToRows changes slice with
      | .ok _ slice => Addition.applyAll others (slice, summary)
      | .error fault slice => .error fault (slice, summary) := by
  induction changes generalizing slice with
  | nil => rfl
  | cons entry changes ih =>
      obtain ⟨⟨word, topic⟩, delta⟩ := entry
      simp only [List.map_cons, List.cons_append, Addition.applyAll, Addition.apply, applyToRows]
      cases Slice.add word topic (Number.narrow delta) slice with
      | ok _ next => exact ih next
      | error fault next => rfl

theorem applyAll_totals (changes : List (Nat × Int)) (slice : Slice) (summary : Summary) :
    Addition.applyAll (changes.map fun (topic, delta) => .total topic delta) (slice, summary) =
      match applyToTotals changes summary with
      | .ok _ summary => .ok () (slice, summary)
      | .error fault summary => .error fault (slice, summary) := by
  induction changes generalizing summary with
  | nil => rfl
  | cons entry changes ih =>
      obtain ⟨topic, delta⟩ := entry
      simp only [List.map_cons, Addition.applyAll, Addition.apply, applyToTotals]
      cases Summary.add topic delta summary with
      | ok _ next => exact ih next
      | error fault next => rfl

theorem mergeInto_eq (log : DeltaLog) : log.mergeInto = Addition.applyAll log.additions := by
  funext counts
  obtain ⟨slice, summary⟩ := counts
  rw [additions, applyAll_rows, mergeInto]
  cases applyToRows log.wordChanges slice with
  | error fault next => rfl
  | ok _ next =>
      dsimp only
      rw [applyAll_totals]
      cases applyToTotals log.totalChanges summary <;> rfl

end DeltaLog

end LatentTopics
