import Mathlib
import LatentTopics.Counts.View
import LatentTopics.Proofs.Counts.Additions
import LatentTopics.Proofs.Counts.Confined
import LatentTopics.Proofs.Counts.Merge

/-! Commits in every outcome. A view in place takes a change in four additions,
of which any may fail; its record is written after the last one. So the changes
that a view has recorded are those that it took, whatever became of the others.
Nor does a commit or a merge that fails bring counts of anything but topics. -/
namespace LatentTopics

/-- A reading of a model by the changes that it took: it takes
a change or refuses it, and knows only those it took. -/
structure Takes {M : Type} (numTopics : Nat) (commit : Change → Update M Unit)
    (taken : List Change → M → Prop) : Prop where
  accepted : ∀ {changes : List Change} {model next : M} {change : Change}, taken changes model →
    change.old < numTopics →
    change.new < numTopics → commit change model = .ok () next → taken (changes ++ [change]) next
  refused : ∀ {changes : List Change} {model next : M} {change : Change} {fault : Fault},
    taken changes model →
    change.old < numTopics → change.new < numTopics → commit change model = .error fault next →
      taken changes next

/-- Something that a model keeps when it takes changes of topics, and also when it refuses them. -/
def Lasting {M : Type} (numTopics : Nat) (commit : Change → Update M Unit)
    (holds : M → Prop) : Prop :=
  ∀ change : Change, change.old < numTopics → change.new < numTopics →
    Update.Keeps holds (commit change)

structure Slice.Suits (numTopics : Nat) (given : Slice) (slice : Slice)
    (summary : Summary) : Prop where
  confined : slice.Confined numTopics
  shape : given.SameShape slice
  size : summary.numTopics = numTopics

variable {numTopics : Nat} {given : Slice}

theorem Slice.keeps_confined (given : Slice) (word : Nat) {topic : Nat} (below : topic < numTopics)
    {delta : Int} (range : Number.Int32Range delta) :
    Update.Keeps (fun slice => slice.Confined numTopics ∧ given.SameShape slice)
        (Slice.add word topic delta) := by
  rintro slice ⟨confined, shape⟩
  obtain ⟨after, same⟩ := confined.left_add word below range
  exact ⟨after, shape.trans same⟩

theorem Summary.keeps_numTopics (topic : Nat) (delta : Int) (size : Nat) :
    Update.Keeps (fun summary => summary.numTopics = size) (Summary.add topic delta) :=
  fun summary same => (Store.left_summary summary topic delta).trans same

namespace Addition

def Topical (numTopics : Nat) : Addition → Prop
  | .row _ topic _ => topic < numTopics
  | .total .. => True

theorem keeps_suits (given : Slice) {additions : List Addition}
    (ranges : ∀ addition ∈ additions, addition.InRange)
    (topics : ∀ addition ∈ additions, addition.Topical numTopics) :
    Update.Keeps (fun counts : Slice × Summary => given.Suits numTopics counts.1 counts.2)
        (applyAll additions) := by
  apply keeps_applyAll
  rintro addition member ⟨slice, summary⟩ ⟨confined, shape, size⟩
  have range := ranges addition member
  have topical := topics addition member
  cases addition with
  | row word topic delta =>
      obtain ⟨confinedNext, shapeNext⟩ :=
        Slice.keeps_confined given word topical range slice ⟨confined, shape⟩
      rw [left_row]
      exact ⟨confinedNext, shapeNext, size⟩
  | total topic delta =>
      rw [left_total]
      exact ⟨confined, shape, Summary.keeps_numTopics topic delta numTopics summary size⟩

end Addition

namespace InPlace

def Recorded (earlier changes : List Change) (view : InPlace) : Prop :=
  view.recording = true ∧ view.events.toList = earlier ++ changes

theorem takes_recorded (numTopics : Nat) (earlier : List Change) :
    Takes numTopics commit (Recorded earlier) := by
  have keeps : ∀ (change : Change) (view : InPlace), Update.Keeps
      (fun other => other.recording = view.recording ∧ other.events = view.events) (move change) :=
    fun change view => (runsAs_move change).keeps_record view.recording view.events
  constructor
  · rintro changes model next change ⟨recording, events⟩ _ _ committed
    rcases commit_cases change model with ⟨moved, done, accepted⟩ | ⟨fault, left, _, refused⟩
    · obtain ⟨sameRecording, sameEvents⟩ := (keeps change model).of_ok ⟨rfl, rfl⟩ done
      rw [accepted] at committed
      cases committed
      refine ⟨sameRecording.trans recording, ?_⟩
      rw [sameRecording, recording, sameEvents, if_pos rfl, Array.toList_push, events,
        List.append_assoc]
    · rw [refused] at committed
      cases committed
  · rintro changes model next change fault ⟨recording, events⟩ _ _ failed
    rcases commit_cases change model with ⟨moved, _, accepted⟩ | ⟨fault', left, done, refused⟩
    · rw [accepted] at failed
      cases failed
    · obtain ⟨sameRecording, sameEvents⟩ := (keeps change model).of_error ⟨rfl, rfl⟩ done
      rw [refused] at failed
      cases failed
      exact ⟨sameRecording.trans recording, sameEvents.symm ▸ events⟩

theorem lasting_suits (numTopics : Nat) (given : Slice) :
    Lasting numTopics commit fun view => given.Suits numTopics view.slice view.summary := by
  intro change old new
  have topics : ∀ addition ∈ change.additions, addition.Topical numTopics := by
    simp only [Change.additions, List.forall_mem_cons]
    exact ⟨old, new, trivial, trivial, List.forall_mem_nil _⟩
  rw [commit_eq]
  exact ((runsAs_move change).keeps
    (Addition.keeps_suits given change.additions_inRange topics)).bind fun _ view suits => suits

end InPlace

def DeltaLog.Topical (numTopics : Nat) (log : DeltaLog) : Prop :=
  ∀ word topic, log.wordDelta word topic ≠ 0 → topic < numTopics

namespace Overlay

theorem commit_cases (change : Change) (view : Overlay) :
    commit change view = .ok () ⟨view.slice, view.summary, view.log.record change⟩ ∨
      ∃ fault, commit change view = .error fault view := by
  rw [commit]
  split
  · exact Or.inr ⟨_, rfl⟩
  · dsimp only
    split
    · exact Or.inr ⟨_, rfl⟩
    · exact Or.inl rfl

def Recorded (earlier changes : List Change) (view : Overlay) : Prop :=
  view.log.events.toList = earlier ++ changes

theorem takes_recorded (numTopics : Nat) (earlier : List Change) :
    Takes numTopics commit (Recorded earlier) := by
  constructor
  · intro changes model next change events _ _ committed
    rcases commit_cases change model with accepted | ⟨fault, refused⟩
    · rw [accepted] at committed
      cases committed
      have pushed : (model.log.record change).events = model.log.events.push change := rfl
      rw [Recorded, pushed, Array.toList_push, events, List.append_assoc]
    · rw [refused] at committed
      cases committed
  · intro changes model next change fault events _ _ failed
    rcases commit_cases change model with accepted | ⟨fault', refused⟩
    · rw [accepted] at failed
      cases failed
    · rw [refused] at failed
      cases failed
      exact events

theorem start_topical (slice : Slice) (summary : Summary) (numTopics : Nat) :
    (start slice summary).log.Topical numTopics := by
  intro word topic present
  exact absurd ((DeltaLog.empty_turns 0).words word topic) present

theorem lasting_topical (numTopics : Nat) :
    Lasting numTopics commit fun view => view.log.Topical numTopics := by
  intro change old new view topical
  rcases commit_cases change view with accepted | ⟨fault, refused⟩
  · rw [Update.left_of_ok accepted]
    intro word topic present
    rw [DeltaLog.wordDelta_record] at present
    by_cases target : (⟨word, topic⟩ : Token) = change.target
    · have same : topic = change.new := congrArg Token.topic target
      exact same ▸ new
    · by_cases source : (⟨word, topic⟩ : Token) = change.source
      · have same : topic = change.old := congrArg Token.topic source
        exact same ▸ old
      · rw [if_neg target, if_neg source, Int.add_zero, Int.sub_zero] at present
        exact topical word topic present
  · rw [Update.left_of_error refused]
    exact topical

end Overlay

theorem DeltaLog.keeps_mergeInto (given : Slice) {log : DeltaLog}
    (topical : log.Topical numTopics) :
    Update.Keeps (fun counts : Slice × Summary => given.Suits numTopics counts.1 counts.2)
        log.mergeInto := by
  have topics : ∀ addition ∈ log.additions, addition.Topical numTopics := by
    intro addition member
    rcases List.mem_append.mp member with row | total
    · obtain ⟨⟨⟨word, topic⟩, delta⟩, listed, rfl⟩ := List.mem_map.mp row
      obtain ⟨nonzero, same⟩ := (mem_wordChanges log word topic delta).mp listed
      exact topical word topic (same ▸ nonzero)
    · obtain ⟨⟨topic, delta⟩, _, rfl⟩ := List.mem_map.mp total
      trivial
  rw [mergeInto_eq]
  exact Addition.keeps_suits given log.additions_inRange topics

end LatentTopics
