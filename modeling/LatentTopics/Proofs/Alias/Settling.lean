import Mathlib
import LatentTopics.Alias.Quantize

/-! Shares that are brought to the total. What is missing goes to the positive entries in rounds, so
that all of them get the same number of units and the first ones one unit more; what is too much is
taken from positive entries and from no other. -/
namespace LatentTopics.Alias.Share

theorem massSum_cons (share : Share) (shares : List Share) :
    massSum (share :: shares) = share.mass + massSum shares :=
  rfl

def rank (index : Nat) (shares : List Share) : Nat :=
  (shares.take index).countP positive

/-- What an entry gains when so many units are handed out in rounds. -/
def gain (missing index : Nat) (shares : List Share) : Nat :=
  missing / shares.countP positive +
    if rank index shares < missing % shares.countP positive then 1 else 0

section Hand

variable {each extra index : Nat} {shares : List Share} {share : Share}

theorem getElem?_hand (here : shares[index]? = some share) :
    (hand each extra shares)[index]? = some (if share.positive then
        { share with mass := share.mass + (each + if rank index shares < extra then 1 else 0) }
      else share) := by
  induction shares generalizing extra index with
  | nil => cases here
  | cons first shares ih =>
      cases index with
      | zero =>
          obtain rfl := Option.some.inj here
          rw [hand, rank, List.take_zero, List.countP_nil]
          by_cases positive : first.positive <;> by_cases some : 0 < extra <;> simp [positive, some]
      | succ index =>
          have later : shares[index]? = some share := here
          rw [hand]
          by_cases positive : first.positive
          · have before : rank (index + 1) (first :: shares) = rank index shares + 1 := by
              rw [rank, List.take_succ_cons, List.countP_cons_of_pos positive, rank]
            rw [if_pos positive, List.getElem?_cons_succ, ih later, before]
            simp only [Nat.lt_sub_iff_add_lt]
          · have before : rank (index + 1) (first :: shares) = rank index shares := by
              rw [rank, List.take_succ_cons, List.countP_cons_of_neg positive, rank]
            rw [if_neg positive, List.getElem?_cons_succ, ih later, before]

/-- All that is handed out arrives, and no more of the extra
units than there are positive entries. -/
theorem massSum_hand (each extra : Nat) (shares : List Share) :
    massSum (hand each extra shares) =
      massSum shares + (each * shares.countP positive + min extra (shares.countP positive)) := by
  induction shares generalizing extra with
  | nil => simp [hand, massSum]
  | cons first shares ih =>
      rw [hand]
      by_cases positive : first.positive
      · rw [if_pos positive, massSum_cons, massSum_cons, ih, List.countP_cons_of_pos positive,
          Nat.mul_succ]
        dsimp only
        split <;> omega
      · rw [if_neg positive, massSum_cons, massSum_cons, ih, List.countP_cons_of_neg positive,
          Nat.add_assoc]

theorem massSum_cover (missing : Nat) (some : 0 < shares.countP positive) :
    massSum (cover missing shares) = massSum shares + missing := by
  have less := Nat.mod_lt missing some
  have division := Nat.div_add_mod' missing (shares.countP positive)
  rw [cover, massSum_hand, Nat.min_eq_left less.le, division]

end Hand

section Relieve

def spare (shares : List Share) : Nat :=
  massSum (shares.filter positive)

theorem spare_cons_of_pos {share : Share} (positive : share.positive) (shares : List Share) :
    spare (share :: shares) = share.mass + spare shares := by
  rw [spare, List.filter_cons_of_pos positive, massSum_cons, spare]

theorem spare_cons_of_neg {share : Share} (not : ¬ share.positive) (shares : List Share) :
    spare (share :: shares) = spare shares := by
  rw [spare, List.filter_cons_of_neg not, spare]

def Lowered (before after : List Share) : Prop :=
  List.Forall₂ (fun old new => new.positive = old.positive ∧ new.mass ≤ old.mass ∧
    (old.positive = false → new.mass = old.mass)) before after

variable {shares : List Share} {each units : Nat}

theorem Lowered.refl (shares : List Share) : Lowered shares shares :=
  List.forall₂_same.mpr fun _ _ => ⟨rfl, le_rfl, fun _ => rfl⟩

theorem Lowered.trans {first second third : List Share} (before : Lowered first second)
    (after : Lowered second third) : Lowered first third := by
  induction before generalizing third with
  | nil => exact after
  | cons head _ ih =>
      obtain ⟨same, less, kept⟩ := head
      cases after with
      | cons next rest =>
          obtain ⟨same', less', kept'⟩ := next
          refine .cons ⟨same'.trans same, less'.trans less, ?_⟩ (ih rest)
          intro zero
          rw [kept' (same.trans zero), kept zero]

theorem Lowered.getElem? {before after : List Share} (lowered : Lowered before after) {index : Nat}
    {share : Share} (here : before[index]? = some share) :
    ∃ left, after[index]? = some left ∧ left.mass ≤ share.mass := by
  induction lowered generalizing index with
  | nil => cases here
  | @cons old new before after head _ ih =>
      cases index with
      | zero =>
          obtain rfl := Option.some.inj here
          exact ⟨new, rfl, head.2.1⟩
      | succ index => exact ih here

theorem Lowered.massSum_add {before after : List Share} (lowered : Lowered before after) :
    massSum after + spare before = massSum before + spare after := by
  induction lowered with
  | nil => rfl
  | @cons old new before after head _ ih =>
      obtain ⟨same, _, kept⟩ := head
      rw [massSum_cons, massSum_cons]
      by_cases positive : old.positive
      · rw [spare_cons_of_pos positive, spare_cons_of_pos (same.trans positive)]
        omega
      · rw [spare_cons_of_neg positive, spare_cons_of_neg (same ▸ positive),
          kept (Bool.eq_false_iff.mpr positive)]
        omega

theorem reduce_lowered (each : Nat) (shares : List Share) :
    Lowered shares (reduce each shares) := by
  rw [reduce, Lowered, List.forall₂_map_right_iff, List.forall₂_same]
  intro share _
  by_cases live : share.live
  · rw [if_pos live]
    refine ⟨rfl, Nat.sub_le _ _, fun zero => ?_⟩
    rw [Share.live, zero] at live
    cases live
  · rw [if_neg live]
    exact ⟨rfl, le_rfl, fun _ => rfl⟩

theorem reduceFirst_lowered (units : Nat) (shares : List Share) :
    Lowered shares (reduceFirst units shares) := by
  induction shares generalizing units with
  | nil => exact .nil
  | cons share shares ih =>
      rw [reduceFirst]
      split
      · next taken =>
        refine .cons ⟨rfl, Nat.sub_le _ _, fun zero => ?_⟩ (ih _)
        rw [live, zero] at taken
        cases taken
      · exact .cons ⟨rfl, le_rfl, fun _ => rfl⟩ (ih _)

theorem spare_reduce (some : 0 < each) (shares : List Share) :
    spare (reduce each shares) + shares.countP live ≤ spare shares ∧
      spare shares ≤ spare (reduce each shares) + each * shares.countP live := by
  induction shares with
  | nil => exact ⟨le_rfl, Nat.le_add_right _ _⟩
  | cons share shares ih =>
      obtain ⟨least, most⟩ := ih
      rw [reduce] at least most
      rw [reduce, List.map_cons]
      by_cases alive : share.live
      · obtain ⟨positive, units⟩ : share.positive = true ∧ 0 < share.mass := by
          simpa [live] using alive
        have kept : (Share.mk (share.mass - each) share.positive).positive := positive
        rw [if_pos alive, List.countP_cons_of_pos alive, spare_cons_of_pos kept,
          spare_cons_of_pos positive, Nat.mul_succ]
        dsimp only
        omega
      · rw [if_neg alive, List.countP_cons_of_neg alive]
        by_cases positive : share.positive
        · rw [spare_cons_of_pos positive, spare_cons_of_pos positive]
          omega
        · rw [spare_cons_of_neg positive, spare_cons_of_neg positive]
          exact ⟨least, most⟩

theorem spare_reduceFirst {units : Nat} {shares : List Share} (few : units ≤ shares.countP live) :
    spare (reduceFirst units shares) + units = spare shares := by
  induction shares generalizing units with
  | nil =>
      obtain rfl := Nat.le_zero.mp few
      rfl
  | cons share shares ih =>
      rw [reduceFirst]
      by_cases alive : share.live
      · obtain ⟨positive, least⟩ : share.positive = true ∧ 0 < share.mass := by
          simpa [live] using alive
        rw [List.countP_cons_of_pos alive] at few
        by_cases left : 0 < units
        · have rest := @ih (units - 1) (by omega)
          have kept : (Share.mk (share.mass - 1) share.positive).positive := positive
          rw [if_pos (by simp [alive, left]), spare_cons_of_pos kept, spare_cons_of_pos positive]
          dsimp only
          omega
        · have rest := @ih units (by omega)
          rw [if_neg (by simp [left]), spare_cons_of_pos positive, spare_cons_of_pos positive]
          omega
      · rw [List.countP_cons_of_neg alive] at few
        rw [if_neg (by simp [alive])]
        by_cases positive : share.positive
        · rw [spare_cons_of_pos positive, spare_cons_of_pos positive, Nat.add_assoc, ih few]
        · rw [spare_cons_of_neg positive, spare_cons_of_neg positive, ih few]

theorem spare_eq_zero {shares : List Share} (none : shares.countP live = 0) : spare shares = 0 := by
  induction shares with
  | nil => rfl
  | cons share shares ih =>
      rw [List.countP_cons, Nat.add_eq_zero_iff] at none
      have dead : share.positive = true → share.mass = 0 := by simpa [live] using none.2
      by_cases positive : share.positive
      · rw [spare_cons_of_pos positive, dead positive, ih none.1]
      · rw [spare_cons_of_neg positive, ih none.1]

/-- In every turn something is taken, so that as many turns as there are units suffice. -/
theorem relieve_spec (turns : Nat) {excess : Nat} (shares : List Share)
    (enough : excess ≤ spare shares) (long : excess ≤ turns) :
    Lowered shares (relieve turns excess shares) ∧ massSum (relieve turns excess shares) + excess =
        massSum shares := by
  induction turns generalizing excess shares with
  | zero =>
      obtain rfl := Nat.le_zero.mp long
      exact ⟨.refl shares, rfl⟩
  | succ turns ih =>
      rw [relieve]
      by_cases none : shares.countP live = 0
      · rw [if_pos none]
        rw [spare_eq_zero none] at enough
        obtain rfl := Nat.le_zero.mp enough
        exact ⟨.refl shares, rfl⟩
      rw [if_neg none]
      by_cases few : excess < shares.countP live
      · rw [if_pos few]
        have lowered := reduceFirst_lowered excess shares
        have sums := lowered.massSum_add
        have taken := spare_reduceFirst few.le
        exact ⟨lowered, by omega⟩
      -- A whole round is taken, of as many units from each entry as the excess allows.
      · rw [if_neg few]
        have rounds : 0 < excess / shares.countP live :=
          Nat.div_pos (Nat.le_of_not_lt few) (Nat.pos_of_ne_zero none)
        have lowered := reduce_lowered (excess / shares.countP live) shares
        have sums := lowered.massSum_add
        obtain ⟨least, most⟩ := spare_reduce rounds shares
        have within : excess / shares.countP live * shares.countP live ≤ excess :=
          Nat.div_mul_le_self _ _
        dsimp only
        obtain ⟨rest, total⟩ :=
          @ih (excess - (massSum shares - massSum (reduce (excess / shares.countP live) shares)))
          (reduce (excess / shares.countP live) shares) (by omega) (by omega)
        exact ⟨lowered.trans rest, by omega⟩

theorem spare_eq_massSum {shares : List Share}
    (rest : ∀ share ∈ shares, share.positive = false → share.mass = 0) :
    spare shares = massSum shares := by
  induction shares with
  | nil => rfl
  | cons share shares ih =>
      have others := ih fun other member => rest other (List.mem_cons_of_mem _ member)
      rw [massSum_cons]
      by_cases positive : share.positive
      · rw [spare_cons_of_pos positive, others]
      · rw [spare_cons_of_neg positive, others,
          rest share List.mem_cons_self (Bool.eq_false_iff.mpr positive), Nat.zero_add]

end Relieve

structure Settled (before after : List Share) : Prop where
  total : massSum after = totalMass
  gains : massSum before ≤ totalMass →
    ∀ (index : Nat) (share : Share), before[index]? = some share →
    after[index]? = some (if share.positive then
      { share with mass := share.mass + gain (totalMass - massSum before) index before } else share)
  losses : totalMass < massSum before → Lowered before after

theorem settle_spec {shares : List Share} (some : 0 < shares.countP positive)
    (rest : ∀ share ∈ shares, share.positive = false → share.mass = 0) :
    Settled shares (settle shares) := by
  rw [settle]
  by_cases short : massSum shares ≤ totalMass
  · rw [if_pos short]
    refine ⟨?_, fun _ index share here => getElem?_hand here, fun long =>
      absurd short (not_le.mpr long)⟩
    rw [massSum_cover _ some]
    omega
  · rw [if_neg short]
    have all := spare_eq_massSum rest
    obtain ⟨lowered, total⟩ := relieve_spec (massSum shares - totalMass) shares
      (show massSum shares - totalMass ≤ spare shares by omega) le_rfl
    exact ⟨by omega, fun short' => absurd short' short, fun _ => lowered⟩

end LatentTopics.Alias.Share
