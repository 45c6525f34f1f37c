import Mathlib
import LatentTopics.Vocabulary
import LatentTopics.Proofs.Row.Layouts

/-! The words of a vocabulary. They stand in order, each once, with
the frequency that their term gives and a kind that goes with it; the
terms of documents are their words with the number of their tokens. -/
namespace LatentTopics

namespace Bag

structure Counts (bag : Bag) (words : List Nat) : Prop where
  increasing : (bag.map Prod.fst).Pairwise (· < ·)
  entries : ∀ word count, (word, count) ∈ bag ↔ 0 < count ∧ count = words.count word

theorem Counts.mem {bag : Bag} {words : List Nat} (counts : Counts bag words) (word : Nat) :
    word ∈ bag.map Prod.fst ↔ word ∈ words := by
  constructor
  · intro member
    obtain ⟨⟨word, count⟩, inside, rfl⟩ := List.mem_map.mp member
    obtain ⟨positive, same⟩ := (counts.entries word count).mp inside
    exact List.count_pos_iff.mp (same ▸ positive)
  · intro member
    have positive := List.count_pos_iff.mpr member
    exact List.mem_map.mpr ⟨_, (counts.entries word _).mpr ⟨positive, rfl⟩, rfl⟩

theorem Counts.again {word held : Nat} {rest : Bag} {words : List Nat}
    (counts : Counts ((word, held) :: rest) words) :
    Counts ((word, held + 1) :: rest) (word :: words) := by
  have increasing := counts.increasing
  rw [List.map_cons, List.pairwise_cons] at increasing
  have own := (counts.entries word held).mp List.mem_cons_self
  refine ⟨List.pairwise_cons.mpr increasing, ?_⟩
  intro other count
  have others := counts.entries other count
  rw [List.mem_cons, Prod.mk.injEq] at others ⊢
  by_cases here : other = word
  · subst here
    have absent : (other, count) ∉ rest := by
      intro member
      have := increasing.1 other (List.mem_map.mpr ⟨_, member, rfl⟩)
      omega
    rw [List.count_cons_self]
    simp only [true_and, absent, or_false]
    omega
  · rw [List.count_cons_of_ne (Ne.symm here)]
    simpa only [here, false_and, false_or] using others

theorem Counts.first {word : Nat} {bag : Bag} {words : List Nat} (counts : Counts bag words)
    (least : ∀ other ∈ words, word < other) : Counts ((word, 1) :: bag) (word :: words) := by
  have none : words.count word = 0 := by
    rw [List.count_eq_zero]
    intro member
    exact Nat.lt_irrefl _ (least word member)
  refine ⟨List.pairwise_cons.mpr ⟨?_, counts.increasing⟩, ?_⟩
  · intro other member
    exact least other ((counts.mem other).mp member)
  · intro other count
    rw [List.mem_cons, Prod.mk.injEq]
    by_cases here : other = word
    · subst here
      have absent : (other, count) ∉ bag := by
        intro member
        have := (counts.entries other count).mp member
        omega
      rw [List.count_cons_self, none]
      simp only [true_and, absent, or_false]
      omega
    · rw [List.count_cons_of_ne (Ne.symm here)]
      simpa only [here, false_and, false_or] using counts.entries other count

theorem Counts.countFirst {bag : Bag} {words : List Nat} (counts : Counts bag words) {word : Nat}
    (least : ∀ other ∈ words, word ≤ other) : Counts (countFirst word bag) (word :: words) := by
  cases bag with
  | nil =>
      apply counts.first
      intro other member
      exact absurd ((counts.mem other).mpr member) List.not_mem_nil
  | cons entry rest =>
      obtain ⟨first, held⟩ := entry
      rw [Bag.countFirst]
      by_cases same : first = word
      · subst same
        rw [if_pos rfl]
        exact counts.again
      · rw [if_neg same]
        apply counts.first
        intro other member
        have increasing := counts.increasing
        rw [List.map_cons, List.pairwise_cons] at increasing
        have atLeast := least first ((counts.mem first).mp List.mem_cons_self)
        have inBag := (counts.mem other).mpr member
        rw [List.map_cons, List.mem_cons] at inBag
        rcases inBag with rfl | later
        · omega
        · have := increasing.1 other later
          omega

theorem ofWords_counts (words : List Nat) : Counts (ofWords words) words := by
  have sorted : (words.mergeSort fun a b => a ≤ b).Pairwise fun a b => a ≤ b :=
    Number.sorted_mergeSort id words
  have general : ∀ sorted : List Nat, (sorted.Pairwise fun a b => a ≤ b) →
      Counts (sorted.foldr Bag.countFirst []) sorted := by
    intro sorted
    induction sorted with
    | nil => exact fun _ => ⟨List.Pairwise.nil, by simp; omega⟩
    | cons word rest ih =>
        intro order
        rw [List.pairwise_cons] at order
        exact (ih order.2).countFirst order.1
  have counted := general _ sorted
  refine ⟨counted.increasing, ?_⟩
  intro word count
  rw [ofWords, counted.entries, (List.mergeSort_perm words _).count_eq]

end Bag

namespace Vocabulary

def Ordered (entries : List WordMeta) : Prop :=
  entries.Pairwise fun first second => first.word < second.word

theorem keepFirst_sublist (entries : List WordMeta) : (keepFirst entries).Sublist entries := by
  fun_induction keepFirst entries with
  | case1 first second rest same ih =>
      exact ih.trans ((List.sublist_cons_self second rest).cons_cons first)
  | case2 first second rest different ih => exact ih.cons_cons first
  | case3 entries short => exact List.Sublist.refl entries

theorem ordered_keepFirst {entries : List WordMeta}
    (sorted : entries.Pairwise fun first second => first.word ≤ second.word) :
    Ordered (keepFirst entries) := by
  fun_induction keepFirst entries with
  | case1 first second rest same ih =>
      exact ih (sorted.sublist ((List.sublist_cons_self second rest).cons_cons first))
  | case2 first second rest different ih =>
      rw [List.pairwise_cons] at sorted
      refine List.pairwise_cons.mpr ⟨?_, ih sorted.2⟩
      intro entry member
      have order := sorted.1 second List.mem_cons_self
      rcases List.mem_cons.mp ((keepFirst_sublist _).subset member) with rfl | later
      · exact lt_of_le_of_ne order different
      · have := (List.pairwise_cons.mp sorted.2).1 entry later
        omega
  | case3 entries short =>
      rcases entries with _ | ⟨first, _ | ⟨second, rest⟩⟩
      · exact List.Pairwise.nil
      · exact List.pairwise_singleton _ _
      · exact absurd rfl (short first second rest)

theorem exists_keepFirst {entries : List WordMeta} {entry : WordMeta} (member : entry ∈ entries) :
    ∃ kept ∈ keepFirst entries, kept.word = entry.word := by
  fun_induction keepFirst entries generalizing entry with
  | case1 first second rest same ih =>
      rcases List.mem_cons.mp member with rfl | later
      · exact ih List.mem_cons_self
      · rcases List.mem_cons.mp later with rfl | later
        · rw [← same]
          exact ih List.mem_cons_self
        · exact ih (List.mem_cons_of_mem first later)
  | case2 first second rest different ih =>
      rcases List.mem_cons.mp member with rfl | later
      · exact ⟨entry, List.mem_cons_self, rfl⟩
      · obtain ⟨kept, inside, same⟩ := ih later
        exact ⟨kept, List.mem_cons_of_mem first inside, same⟩
  | case3 entries short => exact ⟨entry, member, rfl⟩

/-- What makes up a vocabulary: every entry has the kind and the flag of its frequency, which a term
gives, and every term that is a word has an entry. -/
structure Entries (terms : List (Nat × Nat)) (numTopics loadFactor : Nat)
    (entries : List WordMeta) : Prop where
  ordered : Ordered entries
  laid : ∀ entry ∈ entries, layOut? numTopics loadFactor (entry.word, entry.frequency) = some entry
  given : ∀ entry ∈ entries, (entry.word, entry.frequency) ∈ terms ∧ 0 < entry.frequency
  every : ∀ term ∈ terms, 0 < term.2 → ∃ entry ∈ entries, entry.word = term.1

theorem layOut?_eq_some {numTopics loadFactor : Nat} {term : Nat × Nat} {entry : WordMeta}
    (laid : layOut? numTopics loadFactor term = some entry) :
    (entry.word, entry.frequency) = term := by
  rw [layOut?, Option.map_eq_some_iff] at laid
  obtain ⟨kind, _, rfl⟩ := laid
  rfl

theorem mapM_layOut? {numTopics loadFactor : Nat} {terms : List (Nat × Nat)}
    {entries : List WordMeta} (laid : terms.mapM (layOut? numTopics loadFactor) = some entries) :
    terms = entries.map (fun entry => (entry.word, entry.frequency)) ∧
      ∀ entry ∈ entries, layOut? numTopics loadFactor (entry.word, entry.frequency) =
        some entry := by
  induction terms generalizing entries with
  | nil =>
      obtain rfl : [] = entries := Option.some.inj laid
      exact ⟨rfl, fun entry member => absurd member List.not_mem_nil⟩
  | cons term terms ih =>
      rw [List.mapM_cons, Option.bind_eq_bind, Option.bind_eq_some_iff] at laid
      obtain ⟨entry, here, rest⟩ := laid
      rw [Option.bind_eq_bind, Option.bind_eq_some_iff] at rest
      obtain ⟨others, there, same⟩ := rest
      obtain rfl : entry :: others = entries := Option.some.inj same
      obtain ⟨shape, every⟩ := ih there
      have own := layOut?_eq_some here
      refine ⟨by rw [List.map_cons, own, ← shape], ?_⟩
      intro other member
      rcases List.mem_cons.mp member with rfl | later
      · rw [own]
        exact here
      · exact every other later

theorem ofFrequencies_eq_ok {terms : List (Nat × Nat)} {numTopics loadFactor : Nat}
    {vocab : Vocabulary} (made : ofFrequencies terms numTopics loadFactor = .ok vocab) :
    ∃ entries, Entries terms numTopics loadFactor entries ∧
      vocab = slice noLimits ⟨numTopics, entries.toArray, #[]⟩ := by
  rw [ofFrequencies] at made
  split at made
  · cases made
  · next entries laid =>
    obtain ⟨shape, every⟩ := mapM_layOut? laid
    have permuted := List.mergeSort_perm entries fun a b => a.word ≤ b.word
    have sorted := Number.sorted_mergeSort WordMeta.word entries
    have part : ∀ entry ∈ keepFirst (entries.mergeSort fun a b => a.word ≤ b.word),
        entry ∈ entries :=
      fun entry member => permuted.mem_iff.mp ((keepFirst_sublist _).subset member)
    refine ⟨_, ⟨ordered_keepFirst sorted, ?_, ?_, ?_⟩, (Except.ok.inj made).symm⟩
    · exact fun entry member => every entry (part entry member)
    · intro entry member
      have term : (entry.word, entry.frequency) ∈ terms.filter fun term => 0 < term.2 := by
        rw [shape]
        exact List.mem_map.mpr ⟨entry, part entry member, rfl⟩
      simpa using List.mem_filter.mp term
    · intro term member positive
      have inside : term ∈ terms.filter fun term => 0 < term.2 :=
        List.mem_filter.mpr ⟨member, by simpa using positive⟩
      rw [shape] at inside
      obtain ⟨entry, laidOut, rfl⟩ := List.mem_map.mp inside
      exact exists_keepFirst (permuted.mem_iff.mpr laidOut)

theorem exists_ofFrequencies (terms : List (Nat × Nat)) (numTopics : Nat) {loadFactor : Nat}
    (positive : loadFactor ≠ 0) :
    ∃ vocab, ofFrequencies terms numTopics loadFactor = .ok vocab := by
  have laid : ∀ terms : List (Nat × Nat), ∃ entries, terms.mapM (layOut? numTopics loadFactor) =
      some entries := by
    intro terms
    induction terms with
    | nil => exact ⟨[], rfl⟩
    | cons term terms ih =>
        obtain ⟨entries, rest⟩ := ih
        obtain ⟨entry, here⟩ : ∃ entry, layOut? numTopics loadFactor term = some entry := by
          rw [layOut?, RowKind.forFrequency?, if_neg positive]
          split
          · exact ⟨_, rfl⟩
          · exact ⟨_, rfl⟩
        exact ⟨entry :: entries, by rw [List.mapM_cons, here, rest]; rfl⟩
  obtain ⟨entries, every⟩ := laid (terms.filter fun term => 0 < term.2)
  rw [ofFrequencies, every]
  exact ⟨_, rfl⟩

theorem ofFrequencies_lone :
    ofFrequencies [(7, 2)] 2 2 = .ok ⟨2, #[⟨7, 2, .dense, true⟩], #[⟨0, 7, 7, 0, 1⟩]⟩ := by
  simp [ofFrequencies, layOut?, RowKind.forFrequency?, keepFirst]
  rfl

theorem layOut?_kind {numTopics loadFactor : Nat} {entry : WordMeta}
    (laid : layOut? numTopics loadFactor (entry.word, entry.frequency) = some entry) :
    entry.kind.Legal ∧ ∀ capacity, entry.kind = .sparse capacity →
      loadFactor * entry.frequency ≤ capacity := by
  have chosen : RowKind.forFrequency? entry.frequency numTopics loadFactor = some entry.kind := by
    rw [layOut?, Option.map_eq_some_iff] at laid
    obtain ⟨kind, chosen, same⟩ := laid
    rw [chosen, ← same]
  rw [RowKind.forFrequency?] at chosen
  split at chosen
  · cases chosen
  · split at chosen
    · rw [← Option.some.inj chosen]
      exact ⟨trivial, fun capacity same => by cases same⟩
    · rw [← Option.some.inj chosen]
      refine ⟨Nat.isPowerOfTwo_nextPowerOfTwo _, ?_⟩
      intro capacity same
      rw [← RowKind.sparse.inj same]
      exact Number.le_nextPowerOfTwo _

end Vocabulary

end LatentTopics
