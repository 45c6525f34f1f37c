import Mathlib
import LatentTopics.Proofs.Updates
import LatentTopics.Proofs.Row.Addition

/-! How a row keeps its counts cannot be seen. As long as fewer topics have a count than a sparse
row has slots, it answers every addition as a dense row does, and reads the same afterwards. -/
namespace LatentTopics

namespace Row

/-- The rows are read alike, but for the order of their pairs. -/
structure Alike (row other : Row) : Prop where
  counts : ∀ topic, row.get topic = other.get topic
  nonzeroCount : row.nonzeroCount = other.nonzeroCount
  total : row.total = other.total
  pairs : row.pairs.Perm other.pairs
  once : (row.pairs.map Prod.fst).Nodup ∧ (other.pairs.map Prod.fst).Nodup

variable {row other : Row}

theorem nonzeroCount_eq_length (sound : Sound row) : row.nonzeroCount = row.pairs.length := by
  cases row with
  | dense cells offset numTopics => rfl
  | sparse slots window =>
      apply List.countP_eq_length.mpr
      intro pair member
      simpa using ((mem_pairs sound pair.1 pair.2).mp member).1

theorem alike_of_counts (sound : Sound row) (sound' : Sound other)
    (counts : ∀ topic, row.get topic = other.get topic) : Alike row other := by
  have perm : row.pairs.Perm other.pairs := by
    apply (List.perm_ext_iff_of_nodup (pairs_topics_nodup sound).of_map
      (pairs_topics_nodup sound').of_map).mpr
    rintro ⟨topic, count⟩
    rw [mem_pairs sound, mem_pairs sound', counts]
  constructor
  · exact counts
  · rw [nonzeroCount_eq_length sound, nonzeroCount_eq_length sound', perm.length_eq]
  · rw [total_eq_sum, total_eq_sum, (perm.map Prod.snd).sum_eq]
  · exact perm
  · exact ⟨pairs_topics_nodup sound, pairs_topics_nodup sound'⟩

end Row

namespace Arena

/-- Why an addition was refused, if it was, and the row as it leaves it. -/
structure Reply where
  refusal : Option Fault
  row : Option Row

def replies (index : Nat) : List (Nat × Int) → Arena → List Reply
  | [], _ => []
  | (topic, delta) :: additions, arena =>
      let after := Update.left (add index topic delta) arena
      ⟨Update.refusal (add index topic delta) arena, after.row? index⟩ ::
        replies index additions after

def nonzeroCount (arena : Arena) (index : Nat) : Nat :=
  match arena.row? index with
  | some row => row.nonzeroCount
  | none => 0

def Spare (capacity index : Nat) : List (Nat × Int) → Arena → Prop
  | [], _ => True
  | (topic, delta) :: additions, arena =>
      arena.nonzeroCount index < capacity ∧
        Spare capacity index additions (Update.left (add index topic delta) arena)

instance decidableSpare (capacity index : Nat) :
    (additions : List (Nat × Int)) → (arena : Arena) →
    Decidable (Spare capacity index additions arena)
  | [], _ => .isTrue trivial
  | (topic, delta) :: additions, arena =>
      @instDecidableAnd _ _ inferInstance
        (decidableSpare capacity index additions (Update.left (add index topic delta) arena))

structure Reply.Alike (reply other : Reply) : Prop where
  refusal : reply.refusal = other.refusal
  row : ∃ row row', reply.row = some row ∧ other.row = some row' ∧ Row.Alike row row'

structure Twins (numTopics capacity dense sparse : Nat) (first second : Arena) : Prop where
  valid : Valid first
  valid' : Valid second
  isDense : first.kinds[dense]? = some .dense
  isSparse : second.kinds[sparse]? = some (.sparse capacity)
  numTopics : first.numTopics = numTopics
  counts : ∀ topic, first.get dense topic = second.get sparse topic

theorem row?_of_layout {arena : Arena} {index : Nat} {layout : Layout}
    (here : arena.layouts[index]? = some layout) :
    arena.row? index = some (arena.readAs layout) := by
  rw [row?, here]

theorem layout_of_kind {arena : Arena} {index : Nat} {kind : RowKind}
    (here : arena.kinds[index]? = some kind) :
    ∃ layout, arena.layouts[index]? = some layout ∧ layout.kind = kind := by
  rwa [kinds, Array.getElem?_map, Option.map_eq_some_iff] at here

section Twins

variable {numTopics capacity dense sparse : Nat} {first second : Arena}

theorem Twins.alike (twins : Twins numTopics capacity dense sparse first second) :
    ∃ row row', first.row? dense = some row ∧ second.row? sparse = some row' ∧
      Row.Alike row row' := by
  obtain ⟨layout, here, _⟩ := layout_of_kind twins.isDense
  obtain ⟨layout', there, _⟩ := layout_of_kind twins.isSparse
  refine ⟨_, _, row?_of_layout here, row?_of_layout there, ?_⟩
  apply Row.alike_of_counts (twins.valid.row_sound here) (twins.valid'.row_sound there)
  intro topic
  rw [← get_of_layout here, ← get_of_layout there]
  exact twins.counts topic

theorem Twins.admits (twins : Twins numTopics capacity dense sparse first second) {topic : Nat}
    (below : topic < numTopics) (spare : first.nonzeroCount dense < capacity) :
    Admits first dense topic ∧ Admits second sparse topic := by
  obtain ⟨layout, here, isDense⟩ := layout_of_kind twins.isDense
  obtain ⟨layout', there, isSparse⟩ := layout_of_kind twins.isSparse
  constructor
  · cases layout with
    | dense offset => exact .dense offset here (twins.numTopics ▸ below)
    | sparse window tombstones => cases isDense
  · cases layout' with
    | dense offset => cases isSparse
    | sparse window tombstones =>
        obtain ⟨row, row', isRow, isRow', alike⟩ := twins.alike
        obtain rfl := Option.some.inj ((row?_of_layout there).symm.trans isRow')
        have live := Row.nonzeroCount_eq_length (twins.valid'.row_sound there)
        rw [nonzeroCount, isRow] at spare
        dsimp only at spare
        rw [alike.nonzeroCount, live, ← RowKind.sparse.inj isSparse] at spare
        exact .sparse window tombstones there (Or.inr spare)

theorem Twins.add (twins : Twins numTopics capacity dense sparse first second) {topic : Nat}
    {delta : Int} (below : topic < numTopics) (range : Number.Int32Range delta)
    (spare : first.nonzeroCount dense < capacity) :
    (∃ first' second', Arena.add dense topic delta first = .ok () first' ∧
      Arena.add sparse topic delta second = .ok () second' ∧
      Twins numTopics capacity dense sparse first' second') ∨
    ∃ fault, Arena.add dense topic delta first = .error fault first ∧
      Arena.add sparse topic delta second = .error fault second := by
  obtain ⟨admits, admits'⟩ := twins.admits below spare
  by_cases negative : first.get dense topic + delta < 0
  · have negative' : second.get sparse topic + delta < 0 := twins.counts topic ▸ negative
    have refused := add_negative twins.valid admits negative
    rw [twins.counts topic] at refused
    exact Or.inr ⟨_, refused, add_negative twins.valid' admits' negative'⟩
  · obtain ⟨first', added, assigns⟩ := add_ok twins.valid admits range (not_lt.mp negative)
    obtain ⟨second', added', assigns'⟩ :=
      add_ok twins.valid' admits' range (not_lt.mp (twins.counts topic ▸ negative))
    refine Or.inl ⟨first', second', added, added', assigns.valid, assigns'.valid, ?_, ?_, ?_, ?_⟩
    · rw [assigns.kinds]
      exact twins.isDense
    · rw [assigns'.kinds]
      exact twins.isSparse
    · rw [assigns.numTopics]
      exact twins.numTopics
    · intro other
      rw [assigns.counts, assigns'.counts, twins.counts topic, twins.counts other]
      simp only [true_and]

theorem Twins.replies (additions : List (Nat × Int))
    (twins : Twins numTopics capacity dense sparse first second)
    (legal : ∀ addition ∈ additions, addition.1 < numTopics ∧ Number.Int32Range addition.2)
    (spare : Spare capacity dense additions first) :
    List.Forall₂ Reply.Alike (replies dense additions first) (replies sparse additions second) := by
  induction additions generalizing first second with
  | nil => exact .nil
  | cons addition additions ih =>
      obtain ⟨below, range⟩ := legal addition List.mem_cons_self
      have rest := fun other member => legal other (List.mem_cons_of_mem addition member)
      obtain ⟨free, later⟩ := spare
      rcases twins.add below range free with ⟨first', second', added, added', tied⟩ | ⟨fault,
        refused, refused'⟩
      · rw [Update.left_of_ok added] at later
        simp only [Arena.replies, Update.refusal_of_ok added, Update.refusal_of_ok added',
          Update.left_of_ok added, Update.left_of_ok added']
        exact .cons ⟨rfl, tied.alike⟩ (ih tied rest later)
      · rw [Update.left_of_error refused] at later
        simp only [Arena.replies, Update.refusal_of_error refused, Update.refusal_of_error refused',
          Update.left_of_error refused, Update.left_of_error refused']
        exact .cons ⟨rfl, twins.alike⟩ (ih twins rest later)

end Twins

/-- A new dense row and a new sparse one: whatever is added to their
topics, while the sparse row has a free slot, they accept and refuse the
same additions for the same reasons, and are read alike after each. -/
theorem rows_agree {numTopics capacity dense sparse : Nat} {kinds kinds' : List RowKind}
    (legal : ∀ kind ∈ kinds, kind.Legal) (legal' : ∀ kind ∈ kinds', kind.Legal)
    (isDense : kinds[dense]? = some .dense) (isSparse : kinds'[sparse]? = some (.sparse capacity))
    (additions : List (Nat × Int))
    (topics : ∀ addition ∈ additions, addition.1 < numTopics ∧ Number.Int32Range addition.2)
    (spare : Spare capacity dense additions (ofKinds numTopics kinds)) :
    List.Forall₂ Reply.Alike (replies dense additions (ofKinds numTopics kinds))
      (replies sparse additions (ofKinds numTopics kinds')) := by
  obtain ⟨valid, size, shape, zero⟩ := ofKinds_spec numTopics kinds legal
  obtain ⟨valid', _, shape', zero'⟩ := ofKinds_spec numTopics kinds' legal'
  have twins : Twins numTopics capacity dense sparse (ofKinds numTopics kinds)
      (ofKinds numTopics kinds') := by
    refine ⟨valid, valid', ?_, ?_, size, ?_⟩
    · rwa [shape, List.getElem?_toArray]
    · rwa [shape', List.getElem?_toArray]
    · intro topic
      rw [zero, zero']
  exact twins.replies additions topics spare

/-- A count that overflows, a topic that leaves and comes back, and additions that are refused. -/
theorem rows_agree_wrapped :
    let kinds : List RowKind := [.sparse 4, .dense]
    let kinds' : List RowKind := [.dense, .dense, .sparse 2]
    let additions : List (Nat × Int) :=
      [(0, 5), (2, -1), (0, -5), (1, 2147483647), (1, 1), (1, 3), (2, 0), (2, 7)]
    Spare 2 1 additions (ofKinds 3 kinds) ∧
      List.Forall₂ Reply.Alike (replies 1 additions (ofKinds 3 kinds))
        (replies 2 additions (ofKinds 3 kinds')) := by
  intro kinds kinds' additions
  have legal : ∀ kind ∈ kinds, kind.Legal := by
    simp only [kinds, List.forall_mem_cons, RowKind.Legal]
    exact ⟨⟨2, rfl⟩, trivial, by simp⟩
  have legal' : ∀ kind ∈ kinds', kind.Legal := by
    simp only [kinds', List.forall_mem_cons, RowKind.Legal]
    exact ⟨trivial, trivial, ⟨1, rfl⟩, by simp⟩
  have spare : Spare 2 1 additions (ofKinds 3 kinds) := by
    decide +kernel
  exact ⟨spare, rows_agree legal legal' rfl rfl additions
    (by simp [additions, Number.Int32Range]) spare⟩

end Arena

end LatentTopics
