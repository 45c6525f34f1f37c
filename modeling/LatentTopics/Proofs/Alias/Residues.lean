import Mathlib
import LatentTopics.Alias.Quantize
import LatentTopics.Proofs.Alias.Masses

/-! The residue loop. A round over all entries gives a unit to each that may take one or takes a
unit from each that has one, so that whole rounds can be counted; in the last one the first entries
are served. The loop ends, and with the shares that settling by division gives. -/
namespace LatentTopics.Alias

namespace Share

/-- A round from an entry on, and what is left of the residue behind it. -/
def pass : Int → List Share → List Share × Int
  | residue, [] => ([], residue)
  | residue, share :: shares =>
      if residue = 0 then (share :: shares, residue)
      else
        let (share, residue) := share.serve residue
        let (shares, residue) := pass residue shares
        (share :: shares, residue)

variable {share : Share} {shares : List Share}

theorem pass_done (shares : List Share) : pass 0 shares = (shares, 0) := by
  cases shares with
  | nil => rfl
  | cons share shares => rw [pass, if_pos rfl]

theorem pass_cons {residue : Int} (busy : residue ≠ 0) (share : Share) (shares : List Share) :
    pass residue (share :: shares) =
      ((share.serve residue).1 :: (pass (share.serve residue).2 shares).1,
        (pass (share.serve residue).2 shares).2) := by
  rw [pass, if_neg busy]

section Missing

theorem serve_idle (idle : ¬ share.positive) (residue : Int) :
    share.serve residue = (share, residue) :=
  if_neg idle

theorem serve_missing (positive : share.positive) (units : Nat) :
    share.serve ((units + 1 : Nat) : Int) = ({ share with mass := share.mass + 1 },
        (units : Int)) := by
  have one : ((units + 1 : Nat) : Int) - 1 = units := by omega
  rw [serve, if_pos positive, if_pos (by omega), one]

theorem hand_cons_of_pos (positive : share.positive) (each extra : Nat) (shares : List Share) :
    hand each extra (share :: shares) =
      { share with mass := share.mass + if 0 < extra then each + 1 else each } :: hand each
        (extra - 1) shares := by
  rw [hand, if_pos positive]

theorem hand_cons_of_neg (idle : ¬ share.positive) (each extra : Nat) (shares : List Share) :
    hand each extra (share :: shares) = share :: hand each extra shares := by
  rw [hand, if_neg idle]

theorem hand_zero (shares : List Share) : hand 0 0 shares = shares := by
  induction shares with
  | nil => rfl
  | cons share shares ih =>
      by_cases positive : share.positive
      · rw [hand_cons_of_pos positive, Nat.zero_sub, ih]
        rfl
      · rw [hand_cons_of_neg positive, ih]

theorem pass_missing (units : Nat) (shares : List Share) :
    pass units shares = (hand 0 units shares, ((units - shares.countP positive : Nat) : Int)) := by
  induction shares generalizing units with
  | nil => rfl
  | cons share shares ih =>
      cases units with
      | zero => rw [hand_zero, Nat.zero_sub, Int.natCast_zero, pass_done]
      | succ units =>
          rw [pass_cons (by omega)]
          by_cases positive : share.positive
          · rw [serve_missing positive, hand_cons_of_pos positive, Nat.add_sub_cancel,
              if_pos (Nat.succ_pos units), List.countP_cons_of_pos positive,
              Nat.add_sub_add_right, ih]
          · rw [serve_idle positive, hand_cons_of_neg positive,
              List.countP_cons_of_neg positive, ih]

theorem hand_all {units : Nat} (many : shares.countP positive ≤ units) :
    hand 0 units shares = hand 1 0 shares := by
  induction shares generalizing units with
  | nil => rfl
  | cons share shares ih =>
      by_cases own : share.positive
      · rw [List.countP_cons_of_pos own] at many
        rw [hand_cons_of_pos own, hand_cons_of_pos own, if_pos (by omega : 0 < units),
          ih (by omega : _ ≤ units - 1)]
        rfl
      · rw [List.countP_cons_of_neg own] at many
        rw [hand_cons_of_neg own, hand_cons_of_neg own, ih many]

theorem hand_hand (each extra : Nat) (shares : List Share) :
    hand each extra (hand 1 0 shares) = hand (each + 1) extra shares := by
  induction shares generalizing extra with
  | nil => rfl
  | cons share shares ih =>
      by_cases own : share.positive
      · have kept : (Share.mk (share.mass + if 0 < 0 then 1 + 1 else 1) share.positive).positive :=
          own
        have amount : share.mass + 1 + (if 0 < extra then each + 1 else each) =
            share.mass + if 0 < extra then each + 1 + 1 else each + 1 := by
          split <;> omega
        rw [hand_cons_of_pos own, hand_cons_of_pos own, hand_cons_of_pos kept, Nat.zero_sub,
          ih, ← amount]
        rfl
      · rw [hand_cons_of_neg own, hand_cons_of_neg own, hand_cons_of_neg own, ih]

theorem countP_hand (each extra : Nat) (shares : List Share) :
    (hand each extra shares).countP positive = shares.countP positive := by
  induction shares generalizing extra with
  | nil => rfl
  | cons share shares ih =>
      by_cases own : share.positive
      · have kept :
            (Share.mk (share.mass + if 0 < extra then each + 1 else each)
            share.positive).positive := own
        rw [hand_cons_of_pos own, List.countP_cons_of_pos kept, List.countP_cons_of_pos own, ih]
      · rw [hand_cons_of_neg own, List.countP_cons_of_neg own, List.countP_cons_of_neg own, ih]

end Missing

section Excess

theorem live_iff : share.live ↔ share.positive ∧ 0 < share.mass := by
  rw [live, Bool.and_eq_true, decide_eq_true_eq]

theorem serve_live (alive : share.live) (units : Nat) :
    share.serve (-((units + 1 : Nat) : Int)) = ({ share with mass := share.mass - 1 },
        -(units : Int)) := by
  obtain ⟨positive, some⟩ := live_iff.mp alive
  have one : -((units + 1 : Nat) : Int) + 1 = -units := by omega
  rw [serve, if_pos positive, if_neg (by omega), if_pos some, one]

theorem serve_dead (dead : ¬ share.live) {residue : Int} (excess : residue ≤ 0) :
    share.serve residue = (share, residue) := by
  by_cases positive : share.positive
  · have none : ¬ 0 < share.mass := fun some => dead (live_iff.mpr ⟨positive, some⟩)
    rw [serve, if_pos positive, if_neg (by omega), if_neg none]
  · exact serve_idle positive residue

theorem reduceFirst_cons_of_live (alive : share.live) (units : Nat) (shares : List Share) :
    reduceFirst (units + 1) (share :: shares) = { share with mass := share.mass - 1 } ::
        reduceFirst units shares := by
  rw [reduceFirst, alive, if_pos (by simp), Nat.add_sub_cancel]

theorem reduceFirst_cons_of_dead (dead : ¬ share.live) (units : Nat) (shares : List Share) :
    reduceFirst units (share :: shares) = share :: reduceFirst units shares := by
  rw [reduceFirst, if_neg (by simp [dead])]

theorem reduceFirst_zero (shares : List Share) : reduceFirst 0 shares = shares := by
  induction shares with
  | nil => rfl
  | cons share shares ih => rw [reduceFirst, if_neg (by simp), ih]

theorem pass_excess (units : Nat) (shares : List Share) :
    pass (-units) shares = (reduceFirst units shares,
        -((units - shares.countP live : Nat) : Int)) := by
  induction shares generalizing units with
  | nil => rfl
  | cons share shares ih =>
      cases units with
      | zero => rw [reduceFirst_zero, Nat.zero_sub, Int.natCast_zero, Int.neg_zero, pass_done]
      | succ units =>
          rw [pass_cons (by omega)]
          by_cases alive : share.live
          · rw [serve_live alive, reduceFirst_cons_of_live alive, List.countP_cons_of_pos alive,
              Nat.add_sub_add_right, ih]
          · rw [serve_dead alive (by omega), reduceFirst_cons_of_dead alive,
              List.countP_cons_of_neg alive, ih]

theorem reduce_cons_of_live (alive : share.live) (each : Nat) (shares : List Share) :
    reduce each (share :: shares) = { share with mass := share.mass - each } ::
        reduce each shares := by
  rw [reduce, List.map_cons, if_pos alive, reduce]

theorem reduce_cons_of_dead (dead : ¬ share.live) (each : Nat) (shares : List Share) :
    reduce each (share :: shares) = share :: reduce each shares := by
  rw [reduce, List.map_cons, if_neg dead, reduce]

theorem reduce_zero (shares : List Share) : reduce 0 shares = shares := by
  rw [reduce]
  exact (List.map_congr_left fun share _ => ite_self _).trans (List.map_id _)

theorem reduceFirst_all {units : Nat} (many : shares.countP live ≤ units) :
    reduceFirst units shares = reduce 1 shares := by
  induction shares generalizing units with
  | nil => rfl
  | cons share shares ih =>
      by_cases alive : share.live
      · rw [List.countP_cons_of_pos alive] at many
        obtain ⟨units, rfl⟩ : ∃ fewer, units = fewer + 1 := ⟨units - 1, by omega⟩
        rw [reduceFirst_cons_of_live alive, reduce_cons_of_live alive, ih (by omega)]
      · rw [List.countP_cons_of_neg alive] at many
        rw [reduceFirst_cons_of_dead alive, reduce_cons_of_dead alive, ih many]

theorem reduce_reduce (each : Nat) (shares : List Share) :
    reduce 1 (reduce each shares) = reduce (each + 1) shares := by
  induction shares with
  | nil => rfl
  | cons share shares ih =>
      by_cases alive : share.live
      · rw [reduce_cons_of_live alive, reduce_cons_of_live alive]
        obtain ⟨positive, some⟩ := live_iff.mp alive
        by_cases left : each < share.mass
        · have still : (Share.mk (share.mass - each) share.positive).live :=
            live_iff.mpr ⟨positive, Nat.sub_pos_of_lt left⟩
          rw [reduce_cons_of_live still, ih, Nat.sub_sub]
        · have none : ¬ (Share.mk (share.mass - each) share.positive).live := fun still =>
            left (Nat.lt_of_sub_pos (live_iff.mp still).2)
          rw [reduce_cons_of_dead none, ih, Nat.sub_eq_zero_of_le (by omega),
            Nat.sub_eq_zero_of_le (by omega)]
      · rw [reduce_cons_of_dead alive, reduce_cons_of_dead alive, reduce_cons_of_dead alive, ih]

theorem massSum_reduce (shares : List Share) :
    massSum (reduce 1 shares) + shares.countP live = massSum shares := by
  induction shares with
  | nil => rfl
  | cons share shares ih =>
      by_cases alive : share.live
      · have some := (live_iff.mp alive).2
        rw [reduce_cons_of_live alive, massSum_cons, massSum_cons, List.countP_cons_of_pos alive]
        dsimp only
        omega
      · rw [reduce_cons_of_dead alive, massSum_cons, massSum_cons, List.countP_cons_of_neg alive,
          Nat.add_assoc, ih]

theorem countP_reduce (each : Nat) (shares : List Share) :
    (reduce each shares).countP live ≤ shares.countP live := by
  rw [reduce, List.countP_map]
  apply List.countP_mono_left
  intro share _ still
  by_contra dead
  rw [Function.comp_apply, if_neg dead] at still
  exact dead still

theorem massSum_reduce_within (each : Nat) (shares : List Share) :
    massSum (reduce each shares) ≤ massSum shares ∧
      massSum shares ≤ massSum (reduce each shares) + each * shares.countP live := by
  induction each with
  | zero =>
      rw [reduce_zero]
      exact ⟨le_rfl, Nat.le_add_right _ _⟩
  | succ each ih =>
      obtain ⟨less, most⟩ := ih
      have lives := countP_reduce each shares
      have taken := massSum_reduce (reduce each shares)
      rw [reduce_reduce] at taken
      rw [Nat.succ_mul]
      omega

end Excess

end Share

namespace Rounds

open Share

variable {shares after : List Share} {rounds next : Rounds} {turns more : Nat} {residue : Int}

theorem run?_done (done : rounds.residue = 0) (turns : Nat) : rounds.run? turns = some rounds := by
  cases turns with
  | zero => rfl
  | succ turns => rw [run?, if_pos done]

theorem run?_add (ran : rounds.run? turns = some next) (more : Nat) :
    rounds.run? (turns + more) = next.run? more := by
  induction turns generalizing rounds with
  | zero =>
      obtain rfl := Option.some.inj ran
      rw [Nat.zero_add]
  | succ turns ih =>
      rw [run?] at ran
      split at ran
      · next done =>
        obtain rfl := Option.some.inj ran
        rw [run?_done done, run?_done done]
      · next busy =>
        split at ran
        · cases ran
        · next taken =>
          rw [Nat.succ_add, run?, if_neg busy, taken]
          exact ih ran

theorem turn?_append (front shares : List Share) (share : Share) (residue : Int) :
    turn? ⟨front ++ share :: shares, residue, front.length % (front ++ share :: shares).length⟩ =
      some ⟨front ++ (share.serve residue).1 :: shares, (share.serve residue).2,
        (front.length + 1) % (front ++ share :: shares).length⟩ := by
  have inside : front.length < (front ++ share :: shares).length := by
    rw [List.length_append, List.length_cons]
    omega
  rw [Nat.mod_eq_of_lt inside, turn?, List.getElem?_append_right le_rfl, Nat.sub_self,
    List.getElem?_cons_zero]
  dsimp only
  rw [List.set_append_right _ _ le_rfl, Nat.sub_self, List.set_cons_zero]

/-- The turns from an entry on are a pass over the entries
behind it; then it is the turn of the first one. -/
theorem run?_pass (front shares : List Share) (residue : Int) :
    ∃ index, run? shares.length ⟨front ++ shares, residue,
        front.length % (front ++ shares).length⟩ =
      some ⟨front ++ (pass residue shares).1, (pass residue shares).2, index⟩ ∧
      ((pass residue shares).2 ≠ 0 → index = 0) := by
  induction shares generalizing front residue with
  | nil =>
      refine ⟨_, rfl, fun _ => ?_⟩
      rw [List.append_nil, Nat.mod_self]
  | cons share shares ih =>
      by_cases done : residue = 0
      · subst done
        rw [pass_done]
        exact ⟨_, run?_done rfl _, fun busy => absurd rfl busy⟩
      · obtain ⟨index, ran, wrapped⟩ :=
          ih (front ++ [(share.serve residue).1]) (share.serve residue).2
        rw [pass_cons done]
        refine ⟨index, ?_, wrapped⟩
        simp only [List.append_assoc, List.singleton_append, List.length_append, List.length_cons,
          List.length_nil, Nat.zero_add] at ran
        rw [List.length_cons, run?, if_neg done, turn?_append]
        simp only [List.length_append, List.length_cons]
        exact ran

theorem run?_round (shares : List Share) (residue : Int) :
    ∃ index, run? shares.length ⟨shares, residue, 0⟩ = some ⟨(pass residue shares).1,
        (pass residue shares).2, index⟩ ∧
      ((pass residue shares).2 ≠ 0 → index = 0) := by
  have round := run?_pass [] shares residue
  rwa [List.length_nil, Nat.zero_mod] at round

/-- The loop ends with these entries. -/
def Ends (rounds : Rounds) (after : List Share) : Prop :=
  ∃ turns index, rounds.run? turns = some ⟨after, 0, index⟩

theorem ends_of_done (shares : List Share) (index : Nat) : Ends ⟨shares, 0, index⟩ shares :=
  ⟨0, index, rfl⟩

theorem Ends.later (ends : next.Ends after) (ran : rounds.run? turns = some next) :
    rounds.Ends after := by
  obtain ⟨more, index, ended⟩ := ends
  exact ⟨turns + more, index, (run?_add ran more).trans ended⟩

theorem Ends.eq_of_done {index : Nat} (ends : Ends ⟨shares, 0, index⟩ after) : shares = after := by
  obtain ⟨turns, index, ran⟩ := ends
  rw [run?_done rfl] at ran
  exact congrArg Rounds.shares (Option.some.inj ran)

theorem ends_of_pass {left : Int} {last : List Share} (passed : pass residue shares = (after, left))
    (ends : Ends ⟨after, left, 0⟩ last) : Ends ⟨shares, residue, 0⟩ last := by
  obtain ⟨index, ran, wrapped⟩ := run?_round shares residue
  rw [passed] at ran wrapped
  by_cases done : left = 0
  · subst done
    exact ends.eq_of_done ▸ (ends_of_done after index).later ran
  · rw [wrapped done] at ran
    exact ends.later ran

theorem ends_cover (missing : Nat) (shares : List Share) (some : 0 < shares.countP positive) :
    Ends ⟨shares, missing, 0⟩ (cover missing shares) := by
  induction missing using Nat.strong_induction_on generalizing shares with
  | _ missing ih =>
      have passed := pass_missing missing shares
      by_cases few : missing < shares.countP positive
      · rw [Nat.sub_eq_zero_of_le few.le] at passed
        rw [cover, Nat.div_eq_of_lt few, Nat.mod_eq_of_lt few]
        exact ends_of_pass passed (ends_of_done _ 0)
      -- A whole round, and the rest from the first entry on.
      · have many := Nat.le_of_not_lt few
        have rest : cover missing shares = cover (missing - shares.countP positive)
            (hand 1 0 shares) := by
          rw [cover, cover, countP_hand, hand_hand, ← Nat.mod_eq_sub_mod many,
            ← Nat.div_eq_sub_div some many]
        rw [hand_all many] at passed
        rw [rest]
        exact ends_of_pass passed (ih _ (by omega) _ (by rwa [countP_hand]))

theorem ends_of_reduce {excess each : Nat} (many : each * shares.countP live ≤ excess)
    {last : List Share} (ends : Ends ⟨reduce each shares,
      -((excess - (massSum shares - massSum (reduce each shares)) : Nat) : Int), 0⟩ last) :
    Ends ⟨shares, -excess, 0⟩ last := by
  induction each with
  | zero => rwa [reduce_zero, Nat.sub_self, Nat.sub_zero] at ends
  | succ each ih =>
      rw [Nat.succ_mul] at many
      obtain ⟨less, most⟩ := massSum_reduce_within each shares
      have lives := countP_reduce each shares
      have taken := massSum_reduce (reduce each shares)
      rw [reduce_reduce] at taken
      apply ih (by omega)
      have passed := pass_excess (excess - (massSum shares - massSum (reduce each shares)))
        (reduce each shares)
      rw [reduceFirst_all (by omega), reduce_reduce, Nat.sub_sub] at passed
      apply ends_of_pass passed
      rwa [show massSum shares - massSum (reduce each shares) + (reduce each shares).countP live =
        massSum shares - massSum (reduce (each + 1) shares) by omega]

theorem ends_relieve (turns : Nat) {excess : Nat} (shares : List Share)
    (enough : excess ≤ spare shares) (long : excess ≤ turns) :
    Ends ⟨shares, -excess, 0⟩ (relieve turns excess shares) := by
  induction turns generalizing excess shares with
  | zero =>
      obtain rfl := Nat.le_zero.mp long
      exact ends_of_done shares 0
  | succ turns ih =>
      rw [relieve]
      by_cases none : shares.countP live = 0
      · rw [if_pos none]
        rw [spare_eq_zero none] at enough
        obtain rfl := Nat.le_zero.mp enough
        exact ends_of_done shares 0
      rw [if_neg none]
      by_cases few : excess < shares.countP live
      · have passed := pass_excess excess shares
        rw [Nat.sub_eq_zero_of_le few.le] at passed
        rw [if_pos few]
        exact ends_of_pass passed (ends_of_done _ 0)
      · rw [if_neg few]
        have rounds : 0 < excess / shares.countP live :=
          Nat.div_pos (Nat.le_of_not_lt few) (Nat.pos_of_ne_zero none)
        have sums := (reduce_lowered (excess / shares.countP live) shares).massSum_add
        have least := (spare_reduce rounds shares).1
        exact ends_of_reduce (Nat.div_mul_le_self _ _) (ih _ (by omega) (by omega))

theorem ends_settle (some : 0 < shares.countP positive)
    (rest : ∀ share ∈ shares, share.positive = false → share.mass = 0) :
    Ends (start shares) (settle shares) := by
  rw [start, settle]
  by_cases short : massSum shares ≤ totalMass
  · rw [if_pos short, ← Int.natCast_sub short]
    exact ends_cover _ shares some
  · have all := spare_eq_massSum rest
    rw [if_neg short, show (totalMass : Int) - massSum shares =
      -((massSum shares - totalMass : Nat) : Int) by omega]
    exact ends_relieve _ shares (by omega) le_rfl

section Invariants

theorem serve_kept (share : Share) (residue : Int) :
    (share.serve residue).1.positive = share.positive ∧
      ((share.serve residue).1.mass : Int) + (share.serve residue).2 = share.mass + residue := by
  rw [Share.serve]
  split
  · split
    · refine ⟨rfl, ?_⟩
      dsimp only
      omega
    · split
      · refine ⟨rfl, ?_⟩
        dsimp only
        omega
      · exact ⟨rfl, rfl⟩
  · exact ⟨rfl, rfl⟩

theorem massSum_set {index : Nat} {share : Share} (here : shares[index]? = some share)
    (changed : Share) :
    massSum (shares.set index changed) + share.mass = massSum shares + changed.mass := by
  induction shares generalizing index with
  | nil => cases here
  | cons first shares ih =>
      cases index with
      | zero =>
          obtain rfl := Option.some.inj here
          rw [List.set_cons_zero, massSum_cons, massSum_cons]
          omega
      | succ index =>
          have rest := ih (List.getElem?_cons_succ ▸ here)
          rw [List.set_cons_succ, massSum_cons, massSum_cons]
          omega

/-- Masses and residue together stay the same, and no entry changes whether it may take a unit. -/
structure Kept (rounds next : Rounds) : Prop where
  flags : next.shares.map positive = rounds.shares.map positive
  balance : (massSum next.shares : Int) + next.residue = massSum rounds.shares + rounds.residue

theorem turn?_kept (taken : rounds.turn? = some next) : Kept rounds next := by
  obtain ⟨shares, residue, index⟩ := rounds
  rw [turn?] at taken
  split at taken
  · cases taken
  · next share here =>
    dsimp only at taken
    obtain rfl := Option.some.inj taken
    obtain ⟨flag, balance⟩ := serve_kept share residue
    refine ⟨?_, ?_⟩
    · have flags : (shares.map positive)[index]? = some share.positive := by
        rw [List.getElem?_map, here, Option.map_some]
      obtain ⟨inside, same⟩ := List.getElem?_eq_some_iff.mp flags
      rw [List.map_set, flag, ← same, List.set_getElem_self]
    · have sums := massSum_set here (share.serve residue).1
      dsimp only
      omega

theorem run?_kept (ran : rounds.run? turns = some next) : Kept rounds next := by
  induction turns generalizing rounds with
  | zero =>
      obtain rfl := Option.some.inj ran
      exact ⟨rfl, rfl⟩
  | succ turns ih =>
      rw [run?] at ran
      split at ran
      · obtain rfl := Option.some.inj ran
        exact ⟨rfl, rfl⟩
      · split at ran
        · cases ran
        · next taken =>
          have first := turn?_kept taken
          have rest := ih ran
          exact ⟨rest.flags.trans first.flags, rest.balance.trans first.balance⟩

end Invariants

end Rounds

/-- Entries as a cut leaves them: none has more than the total, those that are not positive have
nothing, and some are positive. -/
structure Truncated (shares : List Share) : Prop where
  some : 0 < shares.countP Share.positive
  within : ∀ share ∈ shares, share.mass ≤ totalMass
  idle : ∀ share ∈ shares, share.positive = false → share.mass = 0

/-- What the residue loop makes of entries: it ends, in every turn it keeps what a turn has to keep,
and afterwards the total is exact, what was missing is spread evenly, what was too much is gone, and
entries that are not positive have nothing. -/
structure Spreads (before after : List Share) : Prop where
  ends : (Rounds.start before).Ends after
  kept : ∀ turns next, (Rounds.start before).run? turns = some next →
    Rounds.Kept (Rounds.start before) next
  settled : Share.Settled before after
  idle : ∀ (index : Nat) (share : Share), before[index]? = some share → share.positive = false →
    (after.map Share.mass)[index]? = some 0

theorem Truncated.spreads {shares : List Share} (cut : Truncated shares) :
    Spreads shares (Share.settle shares) := by
  have settled := Share.settle_spec cut.some cut.idle
  refine ⟨Rounds.ends_settle cut.some cut.idle, fun _ _ => Rounds.run?_kept, settled, ?_⟩
  intro index share here idle
  have empty := cut.idle share (List.mem_of_getElem? here) idle
  rw [List.getElem?_map]
  by_cases short : Share.massSum shares ≤ totalMass
  · rw [settled.gains short index share here, if_neg (Bool.eq_false_iff.mp idle),
      Option.map_some, empty]
  · obtain ⟨left, there, less⟩ := (settled.losses (Nat.lt_of_not_le short)).getElem? here
    rw [empty] at less
    rw [there, Option.map_some, Nat.le_zero.mp less]

theorem truncated_shares {weights : List Float} (nonempty : weights ≠ []) :
    Truncated (shares weights) := by
  refine ⟨countP_shares_pos nonempty, ?_, fun _ => mass_of_not_positive⟩
  intro share member
  rw [shares] at member
  dsimp only at member
  split at member <;> obtain ⟨weight, _, rfl⟩ :=
    List.mem_map.mp member <;> exact Nat.min_le_right _ _

/-- The residue loop ends with an exact total for any entries that a cut may leave. Those of weights
are such entries, and their masses are what it ends with. -/
theorem residue_spreads :
    (∀ shares, Truncated shares → Spreads shares (Share.settle shares)) ∧
      ∀ weights : List Float, weights ≠ [] →
        Truncated (shares weights) ∧ ∃ after, Spreads (shares weights) after ∧
        quantize weights = after.map Share.mass := by
  refine ⟨fun shares cut => cut.spreads, ?_⟩
  intro weights nonempty
  have cut := truncated_shares nonempty
  exact ⟨cut, _, cut.spreads, rfl⟩

/-- Thirteen units too much, of which the third entry has only three to give. -/
theorem residue_spreads_poor :
    let before : List Share := [⟨2147483647, true⟩, ⟨0, false⟩, ⟨3, true⟩, ⟨10, true⟩]
    Truncated before ∧ Spreads before [⟨2147483642, true⟩, ⟨0, false⟩, ⟨0, true⟩, ⟨5, true⟩] ∧
      ([1.0] : List Float) ≠ [] ∧ Truncated (shares [1.0]) := by
  intro before
  have cut : Truncated before := ⟨by decide, by decide, by decide⟩
  have spread := residue_spreads.1 before cut
  rw [show Share.settle before = [⟨2147483642, true⟩, ⟨0, false⟩, ⟨0, true⟩,
    ⟨5, true⟩] by decide +kernel] at spread
  exact ⟨cut, spread, by decide, (residue_spreads.2 [1.0] (by decide)).1⟩

end LatentTopics.Alias
