import Mathlib
import LatentTopics.Corpus.Bag
import LatentTopics.Proofs.Search
import LatentTopics.Proofs.Vocabulary.Terms

/-! Words that are renumbered. The original words stand in order, so that a
word and its number determine each other and smaller words have smaller
numbers; every word of the bags is among them, so that no entry is lost. -/
namespace LatentTopics

namespace Bag

theorem alter_of_last {word : Nat} {change : Nat → Nat} {bag : Bag}
    (last : ∀ entry ∈ bag, entry.1 < word) :
    bag.alter word change = bag ++ [(word, change 0)] := by
  induction bag with
  | nil => rfl
  | cons entry rest ih =>
      have before : entry.1 < word := last entry List.mem_cons_self
      rw [alter, if_neg (by omega), if_neg (by omega), ih fun other member =>
        last other (List.mem_cons_of_mem _ member)]
      rfl

theorem ofEntries_of_increasing {entries : List (Nat × Nat)}
    (increasing : (entries.map Prod.fst).Pairwise (· < ·)) :
    ofEntries entries = entries := by
  induction entries using List.reverseRecOn with
  | nil => rfl
  | append_singleton entries entry ih =>
      rw [List.map_append, List.pairwise_append] at increasing
      obtain ⟨front, -, across⟩ := increasing
      have last : ∀ other ∈ entries, other.1 < entry.1 := fun other member =>
        across _ (List.mem_map_of_mem member) _ (List.mem_map_of_mem List.mem_cons_self)
      rw [ofEntries, List.foldl_append, ← ofEntries, ih front]
      exact alter_of_last last

end Bag

namespace Search

variable {keys : Array Nat} {first second left right : Nat}

theorem Increasing.lt_iff (increasing : Increasing keys) (here : keys[first]? = some left)
    (there : keys[second]? = some right) :
    left < right ↔ first < second := by
  obtain ⟨inside, rfl⟩ := Array.getElem?_eq_some_iff.mp here
  obtain ⟨within, rfl⟩ := Array.getElem?_eq_some_iff.mp there
  have ordered := List.pairwise_iff_getElem.mp increasing
  rcases Nat.lt_trichotomy first second with before | rfl | after
  · exact iff_of_true (ordered first second inside within before) before
  · exact iff_of_false (Nat.lt_irrefl _) (Nat.lt_irrefl _)
  · exact iff_of_false (Nat.lt_asymm (ordered second first within inside after))
      (Nat.lt_asymm after)

theorem Increasing.inj (increasing : Increasing keys) (here : keys[first]? = some left)
    (there : keys[second]? = some left) :
    first = second := by
  have forth := increasing.lt_iff here there
  have back := increasing.lt_iff there here
  omega

/-- There are as many keys below a key as its index says, so that the index is not above it. -/
theorem Increasing.le (increasing : Increasing keys) (here : keys[first]? = some left) :
    first ≤ left := by
  induction first generalizing left with
  | zero => exact Nat.zero_le _
  | succ first ih =>
      obtain ⟨inside, -⟩ := Array.getElem?_eq_some_iff.mp here
      have earlier : first < keys.size := by omega
      have before := Array.getElem?_eq_getElem earlier
      have below := (increasing.lt_iff before here).mpr (Nat.lt_succ_self first)
      have := ih before
      omega

theorem Increasing.ext {others : Array Nat} (increasing : Increasing keys)
    (ordered : Increasing others) (same : ∀ key, key ∈ keys ↔ key ∈ others) : keys = others :=
  Array.toList_inj.mp (Number.eq_of_ordered _ (fun _ _ => Nat.lt_asymm) increasing ordered
    (by simpa using same))

theorem increasing_range (size : Nat) : Increasing (Array.range size) := by
  rw [Increasing, Array.toList_range]
  exact List.pairwise_lt_range

end Search

namespace Compaction

def Occurs (word : Nat) (bags : List Bag) : Prop :=
  ∃ bag ∈ bags, word ∈ bag.map Prod.fst

def Renumbered (original : Array Nat) (entry renumbered : Nat × Nat) : Prop :=
  original[renumbered.1]? = some entry.1 ∧ renumbered.2 = entry.2

/-- A bag and the one with the numbers: as maps they give a word and its number the same count. -/
structure Corresponds (original : Array Nat) (bag compacted : Bag) : Prop where
  entries : compacted.length = bag.length
  increasing : (compacted.map Prod.fst).Pairwise (· < ·)
  counts : ∀ id word, original[id]? = some word → compacted.lookup id = bag.lookup word

/-- Bags whose words are renumbered without gaps, in their order. -/
structure Renumbers (bags compacted : List Bag) (original : Array Nat) : Prop where
  increasing : Search.Increasing original
  words : ∀ word, word ∈ original ↔ Occurs word bags
  ids : ∀ id, id < original.size ↔ Occurs id compacted
  bags : List.Forall₂ (Corresponds original) bags compacted
  order : ∀ id other word later : Nat, original[id]? = some word → original[other]? = some later →
    (word < later ↔ id < other)
  fits : ∀ id word : Nat, original[id]? = some word → id ≤ word

theorem mem_wordsOf (bags : List Bag) (word : Nat) : word ∈ wordsOf bags ↔ Occurs word bags := by
  rw [wordsOf, List.mem_toArray, (Bag.ofWords_counts _).mem, List.mem_flatMap, Occurs]

theorem increasing_wordsOf (bags : List Bag) : Search.Increasing (wordsOf bags) :=
  (Bag.ofWords_counts _).increasing

section Renumbering

variable {original : Array Nat} {bag compacted : Bag}

theorem compactBag_renumbered (increasing : Search.Increasing original)
    (covered : ∀ word ∈ bag.map Prod.fst, word ∈ original) :
    List.Forall₂ (Renumbered original) bag (compactBag original bag) := by
  induction bag with
  | nil => exact .nil
  | cons entry rest ih =>
      obtain ⟨id, here⟩ := Array.getElem?_of_mem (covered entry.1 List.mem_cons_self)
      have found := (increasing.find?_eq_some entry.1 id).mpr here
      have shape : compactBag original (entry :: rest) = (id, entry.2) ::
          compactBag original rest := by
        rw [compactBag, List.filterMap_cons_some (by rw [found]; rfl), compactBag]
      rw [shape]
      exact .cons ⟨here, rfl⟩ (ih fun word member => covered word (List.mem_cons_of_mem _ member))

theorem mem_of_renumbered (renumbered : List.Forall₂ (Renumbered original) bag compacted) {id : Nat}
    (member : id ∈ compacted.map Prod.fst) :
    ∃ word ∈ bag.map Prod.fst, original[id]? = some word := by
  induction renumbered with
  | nil => cases member
  | cons head _ ih =>
      rcases List.mem_cons.mp member with rfl | later
      · exact ⟨_, List.mem_cons_self, head.1⟩
      · obtain ⟨word, inside, here⟩ := ih later
        exact ⟨word, List.mem_cons_of_mem _ inside, here⟩

theorem mem_renumbered (renumbered : List.Forall₂ (Renumbered original) bag compacted) {word : Nat}
    (member : word ∈ bag.map Prod.fst) :
    ∃ id ∈ compacted.map Prod.fst, original[id]? = some word := by
  induction renumbered with
  | nil => cases member
  | cons head _ ih =>
      rcases List.mem_cons.mp member with rfl | later
      · exact ⟨_, List.mem_cons_self, head.1⟩
      · obtain ⟨id, inside, here⟩ := ih later
        exact ⟨id, List.mem_cons_of_mem _ inside, here⟩

theorem increasing_renumbered (increasing : Search.Increasing original)
    (ordered : (bag.map Prod.fst).Pairwise (· < ·))
    (renumbered : List.Forall₂ (Renumbered original) bag compacted) :
    (compacted.map Prod.fst).Pairwise (· < ·) := by
  induction renumbered with
  | nil => exact List.Pairwise.nil
  | cons head tail ih =>
      rw [List.map_cons, List.pairwise_cons] at ordered ⊢
      refine ⟨fun id member => ?_, ih ordered.2⟩
      obtain ⟨word, inside, here⟩ := mem_of_renumbered tail member
      exact (increasing.lt_iff head.1 here).mp (ordered.1 word inside)

theorem lookup_renumbered (increasing : Search.Increasing original)
    (renumbered : List.Forall₂ (Renumbered original) bag compacted) {id word : Nat}
    (here : original[id]? = some word) :
    compacted.lookup id = bag.lookup word := by
  induction renumbered with
  | nil => rfl
  | @cons entry renumbered rest compacted head _ ih =>
      obtain ⟨first, count⟩ := entry
      obtain ⟨number, same⟩ := renumbered
      obtain ⟨there, rfl⟩ : original[number]? = some first ∧ same = count := head
      by_cases own : id = number
      · subst own
        obtain rfl : first = word := Option.some.inj (there.symm.trans here)
        rw [List.lookup_cons_self, List.lookup_cons_self]
      · have other : word ≠ first := fun equal => own (increasing.inj here (equal ▸ there))
        rw [List.lookup_cons, List.lookup_cons, beq_false_of_ne own, beq_false_of_ne other]
        exact ih

theorem corresponds_of_renumbered (increasing : Search.Increasing original)
    (ordered : (bag.map Prod.fst).Pairwise (· < ·))
    (renumbered : List.Forall₂ (Renumbered original) bag compacted) :
    Corresponds original bag compacted :=
  ⟨renumbered.length_eq.symm, increasing_renumbered increasing ordered renumbered,
    fun _ _ here => lookup_renumbered increasing renumbered here⟩

theorem restoreBag_renumbered (ordered : (bag.map Prod.fst).Pairwise (· < ·))
    (renumbered : List.Forall₂ (Renumbered original) bag compacted) :
    restoreBag original compacted = some bag := by
  have entries : (compacted.mapM fun entry => (original[entry.1]?).map fun word =>
      (word, entry.2)) = some bag := by
    clear ordered
    induction renumbered with
    | nil => rfl
    | cons head _ ih =>
        rw [List.mapM_cons, ih, head.1, head.2]
        rfl
  rw [restoreBag, entries]
  exact congrArg some (Bag.ofEntries_of_increasing ordered)

theorem mapM_restoreBag {bags : List Bag}
    (each : ∀ bag ∈ bags, restoreBag original (compactBag original bag) = some bag) :
    (bags.map (compactBag original)).mapM (restoreBag original) = some bags := by
  induction bags with
  | nil => rfl
  | cons bag bags ih =>
      have rest := ih fun other member => each other (List.mem_cons_of_mem _ member)
      rw [List.map_cons, List.mapM_cons, each bag List.mem_cons_self, rest]
      rfl

theorem compactBag_range {size : Nat} (inside : ∀ id ∈ bag.map Prod.fst, id < size) :
    compactBag (Array.range size) bag = bag := by
  have same := compactBag_renumbered (Search.increasing_range size) fun id member =>
    Array.mem_range.mpr (inside id member)
  have equal : ∀ entry renumbered, Renumbered (Array.range size) entry renumbered →
      renumbered = entry := by
    rintro entry renumbered ⟨number, count⟩
    obtain ⟨_, own⟩ := Array.getElem?_eq_some_iff.mp number
    exact Prod.ext ((Array.getElem_range _).symm.trans own) count
  exact List.forall₂_eq_eq_eq ▸ (same.imp equal).flip

end Renumbering

section Bounds

theorem foldl_bag_le_iff (bag : Bag) (least most : Nat) :
    bag.foldl (fun bound entry => max bound (entry.1 + 1)) least ≤ most ↔
      least ≤ most ∧ ∀ word ∈ bag.map Prod.fst, word < most := by
  induction bag generalizing least with
  | nil => simp
  | cons entry rest ih =>
      rw [List.foldl_cons, ih, max_le_iff, List.map_cons, List.forall_mem_cons, and_assoc,
        Nat.succ_le_iff]

theorem foldl_bags_le_iff (bags : List Bag) (least most : Nat) :
    bags.foldl (fun bound bag => bag.foldl (fun bound entry => max bound (entry.1 + 1)) bound)
        least ≤ most ↔
      least ≤ most ∧ ∀ bag ∈ bags, ∀ word ∈ bag.map Prod.fst, word < most := by
  induction bags generalizing least with
  | nil => simp
  | cons bag rest ih =>
      rw [List.foldl_cons, ih, foldl_bag_le_iff, List.forall_mem_cons, and_assoc]

theorem bound_le_iff (bags : List Bag) (most : Nat) :
    bound bags ≤ most ↔ ∀ word, Occurs word bags → word < most := by
  rw [bound, foldl_bags_le_iff]
  constructor
  · rintro ⟨-, below⟩ word ⟨bag, member, inside⟩
    exact below bag member word inside
  · exact fun below => ⟨Nat.zero_le _, fun bag member word inside =>
      below word ⟨bag, member, inside⟩⟩

theorem isLeast_bound (bags : List Bag) :
    IsLeast {most | ∀ word, Occurs word bags → word < most} (bound bags) :=
  ⟨(bound_le_iff bags _).mp le_rfl, fun most below => (bound_le_iff bags most).mpr below⟩

end Bounds

section Bags

variable {bags : List Bag}

theorem renumbered_of_mem {bag : Bag} (member : bag ∈ bags) :
    List.Forall₂ (Renumbered (wordsOf bags)) bag (compactBag (wordsOf bags) bag) :=
  compactBag_renumbered (increasing_wordsOf bags) fun word inside =>
    (mem_wordsOf bags word).mpr ⟨bag, member, inside⟩

theorem compact_eq (bags : List Bag) :
    compact bags = (bags.map (compactBag (wordsOf bags)), wordsOf bags) :=
  rfl

theorem lt_size_iff_occurs (bags : List Bag) (id : Nat) :
    id < (wordsOf bags).size ↔ Occurs id (compact bags).1 := by
  constructor
  · intro inside
    have here : (wordsOf bags)[id]? = some (wordsOf bags)[id] := Array.getElem?_eq_getElem inside
    obtain ⟨bag, member, word⟩ := (mem_wordsOf bags _).mp (Array.getElem_mem inside)
    obtain ⟨number, found, there⟩ := mem_renumbered (renumbered_of_mem member) word
    obtain rfl := (increasing_wordsOf bags).inj here there
    exact ⟨_, List.mem_map_of_mem member, found⟩
  · rintro ⟨compacted, member, found⟩
    obtain ⟨bag, inside, rfl⟩ := List.mem_map.mp member
    obtain ⟨word, -, here⟩ := mem_of_renumbered (renumbered_of_mem inside) found
    exact (Array.getElem?_eq_some_iff.mp here).1

theorem renumbers_compact (ordered : ∀ bag ∈ bags, (bag.map Prod.fst).Pairwise (· < ·)) :
    Renumbers bags (compact bags).1 (compact bags).2 where
  increasing := increasing_wordsOf bags
  words := mem_wordsOf bags
  ids := lt_size_iff_occurs bags
  bags := by
    rw [compact_eq, List.forall₂_map_right_iff, List.forall₂_same]
    exact fun bag member => corresponds_of_renumbered (increasing_wordsOf bags) (ordered bag member)
      (renumbered_of_mem member)
  order _ _ _ _ here there := (increasing_wordsOf bags).lt_iff here there
  fits _ _ here := (increasing_wordsOf bags).le here

theorem restore_compact (ordered : ∀ bag ∈ bags, (bag.map Prod.fst).Pairwise (· < ·)) :
    restore (compact bags).1 (compact bags).2 = .ok (bags, bound bags) := by
  have each : ∀ bag ∈ bags, restoreBag (wordsOf bags) (compactBag (wordsOf bags) bag) = some bag :=
    fun bag member => restoreBag_renumbered (ordered bag member) (renumbered_of_mem member)
  rw [restore, compact_eq, mapM_restoreBag each]

theorem compact_compact (bags : List Bag) :
    compact (compact bags).1 = ((compact bags).1, Array.range (compact bags).2.size) := by
  have same : wordsOf (compact bags).1 = Array.range (wordsOf bags).size := by
    apply (increasing_wordsOf _).ext (Search.increasing_range _)
    intro id
    rw [mem_wordsOf, ← lt_size_iff_occurs, Array.mem_range]
  have kept : (compact bags).1.map (compactBag (Array.range (wordsOf bags).size)) =
      (compact bags).1 := by
    have each : ∀ compacted ∈ (compact bags).1, compactBag (Array.range (wordsOf bags).size)
        compacted = compacted :=
      fun compacted member => compactBag_range fun id found =>
        (lt_size_iff_occurs bags id).mpr ⟨compacted, member, found⟩
    exact (List.map_congr_left each).trans (List.map_id _)
  rw [compact_eq, same, kept]
  rfl

/-- The renumbering of bags loses nothing: it keeps the order of words and the counts, leaves no
gaps, tells how many words there are, and is taken back with all bags as they were and the bound of
their words. Bags without gaps are left as they are. -/
theorem compact_lossless (ordered : ∀ bag ∈ bags, (bag.map Prod.fst).Pairwise (· < ·))
    {compacted : List Bag} {size : Nat} {original : Array Nat}
    (made : compactWords bags = (compacted, size, original)) :
    size = original.size ∧ Renumbers bags compacted original ∧
      (∃ most, restore compacted original = .ok (bags, most) ∧
        IsLeast {most | ∀ word, Occurs word bags → word < most} most) ∧
      compactWords compacted = (compacted, size, Array.range size) := by
  obtain ⟨rfl, rfl, rfl⟩ : (compact bags).1 = compacted ∧ (compact bags).2.size = size ∧
    (compact bags).2 = original := by
    cases made
    exact ⟨rfl, rfl, rfl⟩
  refine ⟨rfl, renumbers_compact ordered, ⟨_, restore_compact ordered, isLeast_bound bags⟩, ?_⟩
  have again := compact_compact bags
  have numbers := congrArg (fun result : List Bag × Array Nat =>
    (result.1, result.2.size, result.2)) again
  rwa [Array.size_range] at numbers

/-- Two bags that share a word, with gaps between the words. -/
theorem compact_lossless_shared :
    (∀ bag ∈ [[(12, 1), (907, 2)], [(12, 4), (5000, 1)]], (bag.map Prod.fst).Pairwise (· < ·)) ∧
      compactWords [[(12, 1), (907, 2)], [(12, 4), (5000, 1)]] =
        ([[(0, 1), (1, 2)], [(0, 4), (2, 1)]], 3, #[12, 907, 5000]) ∧
      ∃ most, restore [[(0, 1), (1, 2)], [(0, 4), (2, 1)]] #[12, 907, 5000] =
        .ok ([[(12, 1), (907, 2)], [(12, 4), (5000, 1)]], most) ∧ 5000 < most := by
  have ordered : ∀ bag ∈ [[(12, 1), (907, 2)], [(12, 4), (5000, 1)]],
      (bag.map Prod.fst).Pairwise (· < ·) := by decide
  have made : compactWords [[(12, 1), (907, 2)], [(12, 4), (5000, 1)]] =
      ([[(0, 1), (1, 2)], [(0, 4), (2, 1)]], 3, #[12, 907, 5000]) := by
    cbv
  obtain ⟨-, -, ⟨most, restored, least⟩, -⟩ := compact_lossless ordered made
  exact ⟨ordered, made, most, restored, least.1 5000 ⟨_, .tail _ (.head _), by decide⟩⟩

end Bags

end Compaction

end LatentTopics
