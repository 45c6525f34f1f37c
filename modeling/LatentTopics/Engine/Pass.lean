import LatentTopics.Counts.View
import LatentTopics.Engine

/-! A pass over one slice. The word proposals are built from the counts at
its start. A single worker then changes the counts in place. Several workers
take consecutive runs of documents; each one sees the counts from the start
of the pass and its own changes, and their logs are merged in order. -/
namespace LatentTopics

structure Shift (M : Type) where
  sampler : Sampler
  docs : Array Document
  model : M

namespace Shift

variable {M : Type}

@[inline] def visitDoc (step : Update (Sampler.Bench M) Nat) (index : Nat) : Update (Shift M) Unit
  | ⟨sampler, docs, model⟩ =>
      if inside : index < docs.size then
        let (doc, docs) := docs.swapAt index default inside
        match step ⟨sampler, doc, model⟩ with
        | .ok _ ⟨sampler, doc, model⟩ => .ok () ⟨sampler, docs.setIfInBounds index doc, model⟩
        | .error fault ⟨sampler, doc, model⟩ =>
            .error fault ⟨sampler, docs.setIfInBounds index doc, model⟩
      else .ok () ⟨sampler, docs, model⟩

def visitDocs (step : Update (Sampler.Bench M) Nat) : Nat → Nat → Update (Shift M) Unit
  | 0, _, shift => .ok () shift
  | count + 1, index, shift =>
      match visitDoc step index shift with
      | .ok _ shift => visitDocs step count (index + 1) shift
      | .error fault shift => .error fault shift

end Shift

namespace Engine

def proposalsOf (engine : Engine) (entry : SliceMeta) (slice : Slice) : AliasSlice :=
  AliasSlice.build engine.vocab entry slice engine.store.summary engine.settings.beta
    engine.settings.betaSum

def sampleInPlace (entry : SliceMeta) (proposals : AliasSlice) (id : Nat) (sampler : Sampler) :
    Update Engine Unit
  | ⟨settings, vocab, ⟨slices, summary⟩, ⟨docs⟩, _, iteration⟩ =>
      if inside : id < slices.size then
        let (slice, slices) := slices.swapAt id default inside
        let shift : Shift InPlace := ⟨sampler, docs, InPlace.start slice summary false⟩
        match Shift.visitDocs (Sampler.sampleDoc entry proposals) docs.size 0 shift with
        | .ok _ ⟨sampler, docs, model⟩ =>
            .ok () ⟨settings, vocab, ⟨slices.setIfInBounds id model.slice, model.summary⟩, ⟨docs⟩,
              #[sampler], iteration⟩
        | .error fault ⟨sampler, docs, model⟩ =>
            .error fault ⟨settings, vocab,
              ⟨slices.setIfInBounds id model.slice, model.summary⟩, ⟨docs⟩, #[sampler], iteration⟩
      else .error (.breach .indexOutOfRange) ⟨settings, vocab, ⟨slices, summary⟩, ⟨docs⟩,
        #[sampler], iteration⟩

/-- How many documents a worker takes, so that the workers suffice. -/
def chunkSize (docs workers : Nat) : Nat :=
  max ((docs + workers - 1) / workers) 1

/-- Lets the workers from number `worker` on take their runs of documents, each on an overlay of its
own. Returns their logs in order. -/
def overlayPass (entry : SliceMeta) (proposals : AliasSlice) (slice : Slice) (summary : Summary)
    (chunk : Nat) :
    Nat → Nat → List DeltaLog → Update (Array Sampler × Array Document) (List DeltaLog)
  | 0, _, logs, state => .ok logs.reverse state
  | count + 1, worker, logs, (samplers, docs) =>
      match samplers[worker]? with
      | none => .error (.breach .indexOutOfRange) (samplers, docs)
      | some sampler =>
          let shift : Shift Overlay := ⟨sampler, docs, Overlay.start slice summary⟩
          match Shift.visitDocs (Sampler.sampleDoc entry proposals) chunk
            (worker * chunk) shift with
          | .error fault ⟨sampler, docs, _⟩ =>
              .error fault (samplers.setIfInBounds worker sampler, docs)
          | .ok _ ⟨sampler, docs, model⟩ =>
              overlayPass entry proposals slice summary chunk count (worker + 1) (model.log :: logs)
                (samplers.setIfInBounds worker sampler, docs)

def mergeLogs : List DeltaLog → Update (Slice × Summary) Unit
  | [], state => .ok () state
  | log :: logs, state =>
      match DeltaLog.mergeInto log state with
      | .ok _ state => mergeLogs logs state
      | .error fault state => .error fault state

def sampleByOverlays (entry : SliceMeta) (proposals : AliasSlice) (id : Nat) : Update Engine Unit
  | ⟨settings, vocab, ⟨slices, summary⟩, ⟨docs⟩, samplers, iteration⟩ =>
      let slice := slices.getD id default
      let chunk := chunkSize docs.size samplers.size
      match overlayPass entry proposals slice summary chunk samplers.size 0 [] (samplers, docs) with
      | .error fault (samplers, docs) =>
          .error fault ⟨settings, vocab, ⟨slices, summary⟩, ⟨docs⟩, samplers, iteration⟩
      | .ok logs (samplers, docs) =>
          match mergeLogs logs (slice, summary) with
          | .ok _ (slice, summary) =>
              .ok () ⟨settings, vocab, ⟨slices.setIfInBounds id slice, summary⟩, ⟨docs⟩,
                samplers, iteration⟩
          | .error fault (slice, summary) =>
              .error fault ⟨settings, vocab, ⟨slices.setIfInBounds id slice, summary⟩, ⟨docs⟩,
                samplers, iteration⟩

def sampleSlice (id : Nat) : Update Engine Unit := fun engine =>
  match engine.vocab.slices[id]?, engine.store.slices[id]? with
  | some entry, some slice =>
      let proposals := engine.proposalsOf entry slice
      match engine.samplers.toList with
      | [sampler] => sampleInPlace entry proposals id sampler engine
      | _ => sampleByOverlays entry proposals id engine
  | _, _ => .error (.breach .indexOutOfRange) engine

end Engine

end LatentTopics
