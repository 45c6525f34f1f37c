import Mathlib
import LatentTopics.Proofs.Counts.Checked
import LatentTopics.Proofs.Counts.Shares
import LatentTopics.Proofs.Sampler.Sweeps

/-! The two views serve a sampler: the counts in place, and
an overlay over counts that nobody changes. -/
namespace LatentTopics

/-- Counts in place that were those of other tokens once,
which differ in the words of the slice alone. -/
structure InPlace.Holds (slice : Slice) (summary : Summary) (limit : Nat → Nat)
    (given tokens : Multiset Token) (view : InPlace) : Prop where
  counted : Counted view.slice view.summary limit tokens
  shape : slice.SameShape view.slice
  numTopics : view.summary.numTopics = summary.numTopics
  foreign : ∀ token : Token, token.word ∉ slice.words → tokens.count token = given.count token

structure Overlay.Holds (slice : Slice) (summary : Summary) (given tokens : Multiset Token)
    (view : Overlay) : Prop where
  follows : Overlay.Follows slice summary given tokens view
  turned : (⟨given, tokens, view.log⟩ : Share).Turned slice.words summary.numTopics

variable {slice : Slice} {summary : Summary} {limit : Nat → Nat} {given others : Multiset Token}

theorem Counted.build_legal {vocab : Vocabulary} {run : SliceMeta} {tokens : Multiset Token}
    (counted : Counted slice summary limit tokens)
    (shape : (Slice.ofVocabulary vocab run).SameShape slice) (beta betaSum : Float) :
    (AliasSlice.build vocab run slice summary beta betaSum).Legal summary.numTopics := by
  have words : slice.words.size = (vocab.sliceWords run).length := by
    rw [shape.words, Slice.ofVocabulary, List.size_toArray, List.length_map]
  have rows : slice.rows.length = slice.words.size := by
    rw [← List.length_map Prod.fst, Store.slice_rows_words counted.rows.valid, Array.length_toList]
  exact AliasSlice.build_legal vocab rfl words rows (fun row member pair inside =>
    (counted.rows_topics member inside).2)
    beta betaSum

theorem InPlace.start_holds (counted : Counted slice summary limit given) (recording : Bool) :
    Holds slice summary limit given given (start slice summary recording) :=
  ⟨counted, Slice.SameShape.refl slice, rfl, fun _ _ => rfl⟩

theorem InPlace.serves (slice : Slice) (summary : Summary) (limit : Nat → Nat)
    (given : Multiset Token) :
    Serves slice.words summary.numTopics (Holds slice summary limit given) := by
  rintro tokens ⟨own, sums, recording, events⟩ change ⟨counted, shape, size,
    foreign⟩ member source below
  dsimp only at counted shape size
  have memberOwn : change.word ∈ own.words := shape.words ▸ member
  obtain ⟨own', sums', committed, counted', shape', size'⟩ :=
    counted.commit memberOwn source (size.symm ▸ below) recording events
  refine ⟨_, committed, counted', shape.trans shape', size'.trans size, ?_⟩
  intro token missing
  rw [← foreign token missing]
  exact Tokens.count_move_foreign source fun same => missing (same ▸ member)

theorem Overlay.start_holds (slice : Slice) (summary : Summary) (given : Multiset Token) :
    Holds slice summary given given (start slice summary) :=
  ⟨start_follows slice summary given, DeltaLog.empty_turns given, fun _ _ => rfl, fun _ member =>
    Or.inl member, fun _ => rfl⟩

/-- The tokens of the other workers are counted beside the overlay's, as they were. -/
theorem Overlay.serves (tallies : slice.Tallies limit (given + others)) (summary : Summary) :
    Serves slice.words summary.numTopics (Holds slice summary given) := by
  rintro tokens view change ⟨follows, turned⟩ member source below
  obtain ⟨view', committed, follows', turned'⟩ := follows.turn turned tallies member source below
  exact ⟨view', committed, follows', turned'⟩

end LatentTopics
