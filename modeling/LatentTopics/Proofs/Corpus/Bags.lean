import Mathlib
import LatentTopics.Corpus.Bag

/-! Bags as maps. A bag that holds counts has its words in order, each with a positive count, and
there is no other bag that holds them; with an addition it holds the counts with the addition. -/
namespace LatentTopics.Bag

structure Holds (bag : Bag) (counts : Nat → Nat) : Prop where
  increasing : (bag.map Prod.fst).Pairwise (· < ·)
  entries : ∀ word count, (word, count) ∈ bag ↔ 0 < count ∧ count = counts word

/-- Words of 32 bits in order, with positive counts of 64 bits. -/
structure Legal (bag : Bag) : Prop where
  increasing : (bag.map Prod.fst).Pairwise (· < ·)
  positive : ∀ entry ∈ bag, 0 < entry.2
  fits : ∀ entry ∈ bag, entry.1 ≤ 4294967295 ∧ entry.2 ≤ 18446744073709551615

def total (entries : List (Nat × Nat)) (word : Nat) : Nat :=
  ((entries.filter fun entry => entry.1 = word).map Prod.snd).sum

variable {bag : Bag} {counts : Nat → Nat} {word count : Nat}

theorem total_cons (entry : Nat × Nat) (entries : List (Nat × Nat)) (word : Nat) :
    total (entry :: entries) word = (if entry.1 = word then entry.2 else 0) +
        total entries word := by
  rw [total, List.filter_cons]
  by_cases own : entry.1 = word
  · rw [if_pos (decide_eq_true own), if_pos own, List.map_cons, List.sum_cons, total]
  · rw [if_neg (by simpa using own), if_neg own, Nat.zero_add, total]

theorem total_perm {entries others : List (Nat × Nat)} (same : entries.Perm others) :
    total entries = total others := by
  funext word
  exact ((same.filter _).map Prod.snd).sum_eq

theorem holds_nil : Holds [] fun _ => 0 :=
  ⟨List.Pairwise.nil, fun word count =>
    iff_of_false List.not_mem_nil fun ⟨positive, zero⟩ => by omega⟩

theorem not_mem_of_increasing {rest : Bag} {other : Nat}
    (increasing : (((word, count) :: rest).map Prod.fst).Pairwise (· < ·)) (before : other ≤ word)
    (amount : Nat) : (other, amount) ∉ rest := by
  intro member
  have := (List.pairwise_cons.mp increasing).1 other (List.mem_map.mpr ⟨_, member, rfl⟩)
  omega

theorem holds_total (increasing : (bag.map Prod.fst).Pairwise (· < ·))
    (positive : ∀ entry ∈ bag, 0 < entry.2) :
    bag.Holds (total bag) := by
  refine ⟨increasing, ?_⟩
  induction bag with
  | nil => exact holds_nil.entries
  | cons entry rest ih =>
      obtain ⟨first, held⟩ := entry
      have here : 0 < held := positive (first, held) List.mem_cons_self
      intro word count
      have others : ∀ entry ∈ rest, 0 < entry.2 :=
        fun entry member => positive entry (List.mem_cons_of_mem _ member)
      have later := ih (List.pairwise_cons.mp increasing).2 others word
      rw [total_cons, List.mem_cons, Prod.mk.injEq]
      by_cases own : first = word
      · subst own
        have absent := not_mem_of_increasing increasing (Nat.le_refl first)
        -- No other entry is one of the first word, so the others come to nothing for it.
        have none : total rest first = 0 := by
          by_contra some
          exact absent _ ((later _).mpr ⟨Nat.pos_of_ne_zero some, rfl⟩)
        rw [if_pos rfl, none, Nat.add_zero]
        constructor
        · rintro (⟨-, rfl⟩ | member)
          · exact ⟨here, rfl⟩
          · exact absurd member (absent count)
        · rintro ⟨-, rfl⟩
          exact .inl ⟨rfl, rfl⟩
      · rw [if_neg own, Nat.zero_add, later]
        exact or_iff_right fun same => own same.1.symm

theorem Holds.unique {other : Bag} (holds : bag.Holds counts) (held : other.Holds counts) :
    bag = other := by
  have strict : ∀ {bag : Bag}, bag.Holds counts → bag.Pairwise fun first second =>
      first.1 < second.1 := fun holds =>
    List.pairwise_map.mp holds.increasing
  have distinct : ∀ {bag : Bag}, bag.Holds counts → bag.Nodup := fun holds =>
    List.Nodup.of_map Prod.fst (holds.increasing.imp Nat.ne_of_lt)
  have same : bag.Perm other := by
    rw [List.perm_ext_iff_of_nodup (distinct holds) (distinct held)]
    rintro ⟨word, count⟩
    rw [holds.entries, held.entries]
  exact same.eq_of_pairwise (fun _ _ _ _ before after => absurd before (Nat.lt_asymm after))
    (strict holds) (strict held)

section Changes

variable {change : Nat → Nat}

theorem mem_alter_of_ne {other amount : Nat} (different : other ≠ word) :
    (other, amount) ∈ bag.alter word change ↔ (other, amount) ∈ bag := by
  have elsewhere : ∀ count, (other, amount) ≠ (word, count) :=
    fun count same => different (Prod.mk.inj same).1
  induction bag with
  | nil =>
      exact iff_of_false (fun member => elsewhere _ (List.mem_singleton.mp member)) List.not_mem_nil
  | cons entry rest ih =>
      obtain ⟨first, held⟩ := entry
      rw [alter]
      split
      · rw [List.mem_cons, or_iff_right (elsewhere _)]
      · split
        · next same =>
          subst same
          rw [List.mem_cons, List.mem_cons, or_iff_right (elsewhere _), or_iff_right (elsewhere _)]
        · rw [List.mem_cons, List.mem_cons]
          exact or_congr_right ih

theorem zero_of_not_mem (held : ∀ amount, (word, amount) ∈ bag ↔ 0 < amount ∧ amount = count)
    (absent : ∀ amount, (word, amount) ∉ bag) : count = 0 := by
  by_contra positive
  exact absent count ((held count).mpr ⟨Nat.pos_of_ne_zero positive, rfl⟩)

theorem mem_alter_self (increasing : (bag.map Prod.fst).Pairwise (· < ·))
    (held : ∀ amount, (word, amount) ∈ bag ↔ 0 < amount ∧ amount = count) {amount : Nat} :
    (word, amount) ∈ bag.alter word change ↔ amount = change count := by
  induction bag with
  | nil =>
      rw [alter, List.mem_singleton, Prod.mk.injEq, zero_of_not_mem held fun _ => List.not_mem_nil]
      exact and_iff_right rfl
  | cons entry rest ih =>
      obtain ⟨first, found⟩ := entry
      rw [alter]
      split
      -- The word comes before all others, so it is new and its count was zero.
      · next before =>
        have absent : ∀ amount, (word, amount) ∉ (first, found) :: rest := fun amount member => by
          rcases List.mem_cons.mp member with same | later
          · exact Nat.ne_of_lt before (Prod.mk.inj same).1
          · exact not_mem_of_increasing increasing (Nat.le_of_lt before) amount later
        rw [zero_of_not_mem held absent, List.mem_cons, or_iff_left (absent amount), Prod.mk.injEq]
        exact and_iff_right rfl
      · split
        · next same =>
          subst same
          have absent := not_mem_of_increasing increasing (Nat.le_refl word)
          obtain ⟨-, rfl⟩ := (held found).mp List.mem_cons_self
          rw [List.mem_cons, or_iff_left (absent amount), Prod.mk.injEq]
          exact and_iff_right rfl
        -- Past an entry of another word the hypothesis on the count is one on the rest.
        · next different =>
          have elsewhere : ∀ amount, (word, amount) ≠ (first, found) :=
            fun _ same => different (Prod.mk.inj same).1
          have tail : ∀ amount, (word, amount) ∈ rest ↔ 0 < amount ∧ amount = count :=
            fun amount => by
            rw [← held, List.mem_cons, or_iff_right (elsewhere amount)]
          rw [List.mem_cons, or_iff_right (elsewhere amount)]
          exact ih (List.pairwise_cons.mp increasing).2 tail

theorem mem_map_alter {other : Nat} (member : other ∈ (bag.alter word change).map Prod.fst) :
    other = word ∨ other ∈ bag.map Prod.fst := by
  by_cases same : other = word
  · exact .inl same
  · obtain ⟨⟨_, amount⟩, inside, rfl⟩ := List.mem_map.mp member
    exact .inr (List.mem_map.mpr ⟨_, (mem_alter_of_ne same).mp inside, rfl⟩)

theorem increasing_alter (increasing : (bag.map Prod.fst).Pairwise (· < ·)) :
    ((bag.alter word change).map Prod.fst).Pairwise (· < ·) := by
  induction bag with
  | nil => exact List.pairwise_singleton _ _
  | cons entry rest ih =>
      obtain ⟨first, held⟩ := entry
      obtain ⟨after, ordered⟩ := List.pairwise_cons.mp increasing
      rw [alter]
      split
      · next before =>
        refine List.pairwise_cons.mpr ⟨fun other member => ?_, increasing⟩
        rcases List.mem_cons.mp member with rfl | later
        · exact before
        · exact Nat.lt_trans before (after other later)
      · split
        · exact increasing
        · refine List.pairwise_cons.mpr ⟨fun other member => ?_, ih ordered⟩
          rcases mem_map_alter member with rfl | later
          · show first < other
            omega
          · exact after other later

end Changes

theorem Holds.add (holds : bag.Holds counts) (positive : 0 < count) :
    (bag.add word count).Holds (Function.update counts word (counts word + count)) := by
  refine ⟨increasing_alter holds.increasing, fun other amount => ?_⟩
  by_cases same : other = word
  · subst same
    rw [Bag.add, mem_alter_self holds.increasing (holds.entries other), Function.update_self]
    omega
  · rw [Bag.add, mem_alter_of_ne same, holds.entries, Function.update_of_ne same]

theorem Holds.add_or_keep (holds : bag.Holds counts) (word count : Nat) :
    Holds (if count = 0 then bag else bag.add word count) fun other =>
        counts other + if word = other then count else 0 := by
  split
  · next zero =>
    subst zero
    simpa only [ite_self, Nat.add_zero] using holds
  · next positive =>
    have added : (bag.add word count).Holds _ := holds.add (Nat.pos_of_ne_zero positive)
    convert added using 1
    funext other
    by_cases same : word = other
    · subst same
      rw [if_pos rfl, Function.update_self]
    · rw [if_neg same, Function.update_of_ne (Ne.symm same), Nat.add_zero]

end LatentTopics.Bag
