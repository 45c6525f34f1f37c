import Mathlib
import LatentTopics.Proofs.Row.Contents
import LatentTopics.Proofs.Row.Rebuilds

/-! Rows of one arena do not interfere. A row that shares buffers and scratch with others goes
through the same contents, and gives the same answers, as a row of its kind that is alone in an
arena and sees only what is done to it. -/
namespace LatentTopics.ScratchArena

def size (state : ScratchArena) : Nat :=
  state.arena.size

def content? (state : ScratchArena) (index : Nat) : Option Content :=
  state.arena.content? index

inductive Act where
  | push (kind : RowKind)
  | add (row topic : Nat) (delta : Int)
  | clear
  deriving DecidableEq, Repr

namespace Act

def Legal : Act → Prop
  | .push kind => kind.Legal
  | .add _ _ delta => Number.Int32Range delta
  | .clear => True

def run : Act → Update ScratchArena Unit
  | .push kind, state => .ok () (state.push kind)
  | .add row topic delta, state => ScratchArena.add row topic delta state
  | .clear, state => .ok () state.clear

def kind? : Act → Option RowKind
  | .push kind => some kind
  | _ => none

def sizeAfter (size : Nat) (act : Act) : Nat :=
  size + act.kind?.toList.length

/-- What one of `size` rows sees of it. An addition to the
row is to the row of number zero, for it sees no other. -/
def shared (index size : Nat) : Act → Option Act
  | .push _ => none
  | .add row topic delta => if row = index ∧ index < size then some (.add 0 topic delta) else none
  | .clear => if index < size then some .clear else none

def answered (index : Nat) (state : ScratchArena) : Act → List (Option Fault)
  | .add row topic delta =>
      if row = index ∧
        index < state.size then [Update.refusal (ScratchArena.add row topic delta) state] else []
  | _ => []

end Act

def runAll (acts : List Act) (state : ScratchArena) : ScratchArena :=
  acts.foldl (fun state act => Update.left act.run state) state

def pushed (acts : List Act) : List RowKind :=
  acts.filterMap Act.kind?

/-- What one row sees when there are `size` rows at first: from the time on when there is the row,
the additions to it and the clearings. -/
def share (index : Nat) : Nat → List Act → List Act
  | _, [] => []
  | size, act :: acts => (act.shared index size).toList ++ share index (act.sizeAfter size) acts

def answers (index : Nat) : List Act → ScratchArena → List (Option Fault)
  | [], _ => []
  | act :: acts, state => act.answered index state ++ answers index acts (Update.left act.run state)

variable {index row topic : Nat} {delta : Int} {state whole alone : ScratchArena}

theorem add_content (valid : state.arena.Valid) {content : Content}
    (here : state.content? index = some content) (topic : Nat) (range : Number.Int32Range delta) :
    Update.Agree (fun after => Arena.Rewrites index state.arena after.arena) (add index topic delta)
      (Content.add topic delta) state content := by
  have plain := add_agrees valid index topic delta
  have rewrites := valid.add_content here topic range
  constructor
  · exact plain.refusal.trans rewrites.refusal
  · rw [plain.left]
    exact rewrites.left

theorem add_missing (missing : state.content? row = none) (topic : Nat) (delta : Int) :
    Update.left (add row topic delta) state = state := by
  have nowhere : state.arena.layouts[row]? = none := Option.map_eq_none_iff.mp missing
  rw [Update.left, add, nowhere]

theorem Act.run_keeps {act : Act} (legal : act.Legal) (valid : state.arena.Valid) :
    (Update.left act.run state).arena.Valid ∧
      (Update.left act.run state).size = act.sizeAfter state.size ∧
      (Update.left act.run state).arena.numTopics = state.arena.numTopics := by
  cases act with
  | push kind =>
      exact ⟨valid.push legal, Arena.size_push kind state.arena,
        Arena.push_numTopics kind state.arena⟩
  | clear => exact ⟨valid.clear, Arena.size_clear state.arena, rfl⟩
  | add row topic delta =>
      have same : Update.left (Act.add row topic delta).run state =
          Update.left (ScratchArena.add row topic delta) state := rfl
      rw [same]
      cases here : state.content? row with
      | none =>
          rw [add_missing here]
          exact ⟨valid, rfl, rfl⟩
      | some content =>
          have rewrites := (add_content valid here topic legal).left
          exact ⟨rewrites.valid, rewrites.size, rewrites.numTopics⟩

/-- One row among others, and one of the same content that is alone. -/
structure Mirrors (index : Nat) (whole alone : ScratchArena) : Prop where
  valid : whole.arena.Valid
  valid' : alone.arena.Valid
  same : ∃ content, whole.content? index = some content ∧ alone.content? 0 = some content

namespace Mirrors

theorem index_lt (mirrors : Mirrors index whole alone) : index < whole.size := by
  obtain ⟨content, here, _⟩ := mirrors.same
  exact Arena.content?_isSome.mp (Option.isSome_of_eq_some here)

theorem alone_lt (mirrors : Mirrors index whole alone) : 0 < alone.size := by
  obtain ⟨content, _, there⟩ := mirrors.same
  exact Arena.content?_isSome.mp (Option.isSome_of_eq_some there)

theorem push (mirrors : Mirrors index whole alone) {kind : RowKind} (legal : kind.Legal) :
    Mirrors index (whole.push kind) alone := by
  obtain ⟨content, here, there⟩ := mirrors.same
  refine ⟨mirrors.valid.push legal, mirrors.valid', content, ?_, there⟩
  have old : index ≠ whole.arena.size := Nat.ne_of_lt mirrors.index_lt
  exact (mirrors.valid.content?_push kind index).trans ((if_neg old).trans here)

theorem clear (mirrors : Mirrors index whole alone) : Mirrors index whole.clear alone.clear := by
  obtain ⟨content, here, there⟩ := mirrors.same
  refine ⟨mirrors.valid.clear, mirrors.valid'.clear, content.cleared, ?_, ?_⟩
  · exact (mirrors.valid.content?_clear index).trans (congrArg (Option.map Content.cleared) here)
  · exact (mirrors.valid'.content?_clear 0).trans (congrArg (Option.map Content.cleared) there)

theorem add_own (mirrors : Mirrors index whole alone) (topic : Nat)
    (range : Number.Int32Range delta) :
    Update.Agree (Mirrors index) (add index topic delta) (add 0 topic delta) whole alone := by
  obtain ⟨content, here, there⟩ := mirrors.same
  have among := add_content mirrors.valid here topic range
  have single := add_content mirrors.valid' there topic range
  constructor
  · exact among.refusal.trans single.refusal.symm
  · exact ⟨among.left.valid, single.left.valid, _, among.left.own, single.left.own⟩

theorem add_other (mirrors : Mirrors index whole alone) (other : row ≠ index) (topic : Nat)
    (range : Number.Int32Range delta) :
    Mirrors index (Update.left (add row topic delta) whole) alone := by
  cases here : whole.content? row with
  | none =>
      rw [add_missing here]
      exact mirrors
  | some content =>
      have rewrites := (add_content mirrors.valid here topic range).left
      obtain ⟨content', own, there⟩ := mirrors.same
      exact ⟨rewrites.valid, mirrors.valid', content',
        (rewrites.others index other.symm).trans own, there⟩

end Mirrors

structure Follows (index : Nat) (acts : List Act) (whole : ScratchArena) (own : List Act)
    (alone : ScratchArena) : Prop where
  mirrors : Mirrors index (runAll acts whole) (runAll own alone)
  answers : answers index acts whole = answers 0 own alone

theorem answers_append (index : Nat) (front rest : List Act) (state : ScratchArena) :
    answers index (front ++ rest) state = answers index front state ++ answers index rest
        (runAll front state) := by
  induction front generalizing state with
  | nil => rfl
  | cons act front ih =>
      rw [List.cons_append, answers, answers, ih, List.append_assoc]
      rfl

theorem Follows.append {front rest own own' : List Act}
    (first : Follows index front whole own alone)
    (second : Follows index rest (runAll front whole) own' (runAll own alone)) :
    Follows index (front ++ rest) whole (own ++ own') alone := by
  constructor
  · rw [runAll, runAll, List.foldl_append, List.foldl_append]
    exact second.mirrors
  · rw [answers_append, answers_append, first.answers, second.answers]

theorem Mirrors.follows_act (mirrors : Mirrors index whole alone) {act : Act} (legal : act.Legal) :
    Follows index [act] whole (act.shared index whole.size).toList alone := by
  have present := mirrors.index_lt
  have present' := mirrors.alone_lt
  cases act with
  | push kind => exact ⟨mirrors.push legal, rfl⟩
  | clear =>
      rw [Act.shared, if_pos present]
      exact ⟨mirrors.clear, rfl⟩
  | add row topic delta =>
      by_cases own : row = index
      · subst own
        have agree := mirrors.add_own topic legal
        rw [Act.shared, if_pos ⟨rfl, present⟩]
        refine ⟨agree.left, ?_⟩
        simp only [Option.toList_some, answers, Act.answered, true_and, if_pos present,
          if_pos present', agree.refusal]
      · rw [Act.shared, if_neg (fun both => own both.1)]
        refine ⟨mirrors.add_other own topic legal, ?_⟩
        simp only [Option.toList_none, answers, Act.answered]
        rw [if_neg (fun both => own both.1), List.append_nil]

theorem Mirrors.follows (mirrors : Mirrors index whole alone) {acts : List Act}
    (legal : ∀ act ∈ acts, act.Legal) :
    Follows index acts whole (share index whole.size acts) alone := by
  induction acts generalizing whole alone with
  | nil => exact ⟨mirrors, rfl⟩
  | cons act acts ih =>
      obtain ⟨legalHere, legalLater⟩ := List.forall_mem_cons.mp legal
      have step := mirrors.follows_act legalHere
      have later := ih step.mirrors legalLater
      have size : (runAll [act] whole).size = act.sizeAfter whole.size :=
        (Act.run_keeps legalHere mirrors.valid).2.1
      rw [size] at later
      exact step.append later

theorem Act.shared_absent {size : Nat} (absent : size ≤ index) (act : Act) :
    act.shared index size = none := by
  cases act with
  | push kind => rfl
  | clear => rw [shared, if_neg (Nat.not_lt.mpr absent)]
  | add row topic delta => rw [shared, if_neg (fun both => Nat.not_lt.mpr absent both.2)]

theorem Act.answered_absent (absent : state.size ≤ index) (act : Act) :
    act.answered index state = [] := by
  cases act with
  | push kind => rfl
  | clear => rfl
  | add row topic delta => rw [answered, if_neg (fun both => Nat.not_lt.mpr absent both.2)]

theorem mirrors_of_fresh (valid : whole.arena.Valid) {numTopics : Nat} {kind : RowKind}
    (legal : kind.Legal) (here : whole.content? index = some (Content.fresh numTopics kind)) :
    Mirrors index whole (ofKinds numTopics [kind]) := by
  have only : ∀ other ∈ [kind], other.Legal := by simpa using legal
  exact ⟨valid, (Arena.ofKinds_spec numTopics [kind] only).1, Content.fresh numTopics kind, here,
    (Arena.ofKinds_contents numTopics [kind] only).2 0⟩

theorem mirrors_push (valid : whole.arena.Valid) {kind : RowKind} (legal : kind.Legal) :
    Mirrors whole.size (whole.push kind) (ofKinds whole.arena.numTopics [kind]) :=
  mirrors_of_fresh (valid.push legal) legal
    ((valid.content?_push kind whole.size).trans (if_pos rfl))

theorem follows_pushed {acts : List Act} (valid : whole.arena.Valid)
    (legal : ∀ act ∈ acts, act.Legal) (absent : whole.size ≤ index) {kind : RowKind}
    (here : (pushed acts)[index - whole.size]? = some kind) :
    Follows index acts whole (share index whole.size acts)
        (ofKinds whole.arena.numTopics [kind]) := by
  induction acts generalizing whole with
  | nil => cases here
  | cons act acts ih =>
      obtain ⟨legalHere, legalLater⟩ := List.forall_mem_cons.mp legal
      obtain ⟨valid', size, topics⟩ := Act.run_keeps legalHere valid
      -- The row is not there yet, so that the step is not for it.
      suffices later : Follows index acts (Update.left act.run whole)
          (share index (Update.left act.run whole).size acts)
          (ofKinds whole.arena.numTopics [kind]) by
        refine ⟨?_, ?_⟩
        · rw [share, Act.shared_absent absent, ← size]
          exact later.mirrors
        · rw [answers, Act.answered_absent absent, share, Act.shared_absent absent, ← size]
          exact later.answers
      rw [Act.sizeAfter] at size
      cases pushes : act.kind? with
      | none =>
          have later : (pushed acts)[index - whole.size]? = some kind := by
            rwa [pushed, List.filterMap_cons_none pushes] at here
          simp only [pushes, Option.toList_none, List.length_nil, Nat.add_zero] at size
          rw [← topics]
          exact ih valid' legalLater (size ▸ absent) (size ▸ later)
      | some first =>
          rw [pushed, List.filterMap_cons_some pushes] at here
          simp only [pushes, Option.toList_some, List.length_singleton] at size
          by_cases new : index = whole.size
          · subst new
            rw [Nat.sub_self, List.getElem?_cons_zero] at here
            obtain rfl := Option.some.inj here
            cases act with
            | push kind =>
                obtain rfl := Option.some.inj pushes
                exact (mirrors_push valid legalHere).follows legalLater
            | add row topic delta => cases pushes
            | clear => cases pushes
          · have shift : index - whole.size = index - (whole.size + 1) + 1 := by omega
            rw [shift, List.getElem?_cons_succ, ← size] at here
            rw [← topics]
            exact ih valid' legalLater (by omega) here

/-- Whatever is done to an arena, each of its rows holds what a row of
its kind holds to which only its own additions and the clearings were
made, and each of its additions answers what it answers there. -/
theorem rows_independent (numTopics : Nat) (kinds : List RowKind) (acts : List Act)
    (legalKinds : ∀ kind ∈ kinds, kind.Legal) (legalActs : ∀ act ∈ acts, act.Legal) {index : Nat}
    {kind : RowKind} (here : (kinds ++ pushed acts)[index]? = some kind) :
    ∃ content,
      (runAll acts (ofKinds numTopics kinds)).content? index = some content ∧
        (runAll (share index kinds.length acts) (ofKinds numTopics [kind])).content? 0 =
          some content ∧
        answers index acts (ofKinds numTopics kinds) =
          answers 0 (share index kinds.length acts) (ofKinds numTopics [kind]) := by
  obtain ⟨valid, topics, _⟩ := Arena.ofKinds_spec numTopics kinds legalKinds
  obtain ⟨size, contents⟩ := Arena.ofKinds_contents numTopics kinds legalKinds
  have start : (ofKinds numTopics kinds).size = kinds.length := size
  have follows : Follows index acts (ofKinds numTopics kinds) (share index kinds.length acts)
      (ofKinds numTopics [kind]) := by
    rw [← start]
    by_cases old : index < kinds.length
    · rw [List.getElem?_append_left old] at here
      have fresh : (ofKinds numTopics kinds).content? index = some (Content.fresh numTopics kind) :=
        (contents index).trans (congrArg (Option.map (Content.fresh numTopics)) here)
      exact (mirrors_of_fresh valid (legalKinds kind (List.mem_of_getElem? here))
        fresh).follows legalActs
    · rw [List.getElem?_append_right (Nat.not_lt.mp old), ← start] at here
      have same : (ofKinds numTopics kinds).arena.numTopics = numTopics := topics
      have absent : (ofKinds numTopics kinds).size ≤ index := start ▸ Nat.not_lt.mp old
      have later := follows_pushed valid legalActs absent here
      rwa [same] at later
  obtain ⟨content, whole, alone⟩ := follows.mirrors.same
  exact ⟨content, whole, alone, follows.answers⟩

/-- Two rows of which one is pushed later on. Both are
rebuilt, each through the scratch that the other one left. -/
theorem rows_independent_rebuilt :
    let kinds : List RowKind := [.sparse 4, .dense]
    let acts : List Act := [.add 0 3 1, .push (.sparse 4), .clear, .add 0 2 5, .add 0 3 1,
      .add 2 3 7, .add 2 1 1, .add 1 1 2, .add 0 3 (-1), .add 2 1 (-1), .add 0 2 (-5),
      .add 2 0 (-1)]
    (runAll acts (ofKinds 4 kinds)).content? 2 =
      some (.sparse ⟨#[.occupied 3 7, .empty, .empty, .empty], 0⟩) ∧
      share 2 2 acts = [.clear, .add 0 3 7, .add 0 1 1, .add 0 1 (-1), .add 0 0 (-1)] ∧
      answers 2 acts (ofKinds 4 kinds) = [none, none, none, some (.negativeCount 0 (-1))] ∧
      ∃ content, (runAll acts (ofKinds 4 kinds)).content? 2 = some content ∧
        (runAll (share 2 2 acts) (ofKinds 4 [.sparse 4])).content? 0 = some content ∧
        answers 2 acts (ofKinds 4 kinds) = answers 0 (share 2 2 acts) (ofKinds 4 [.sparse 4]) := by
  intro kinds acts
  have power : Nat.isPowerOfTwo 4 := ⟨2, rfl⟩
  have legalKinds : ∀ kind ∈ kinds, kind.Legal := by
    simp [kinds, RowKind.Legal, power]
  have legalActs : ∀ act ∈ acts, act.Legal := by
    simp [acts, Act.Legal, RowKind.Legal, Number.Int32Range, power]
  refine ⟨by decide +kernel, by decide +kernel, by decide +kernel, ?_⟩
  exact rows_independent 4 kinds acts legalKinds legalActs rfl

end LatentTopics.ScratchArena
