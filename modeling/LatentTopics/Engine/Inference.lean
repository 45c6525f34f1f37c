import LatentTopics.Engine.Pass

/-! Inferring topics of other documents against the counts of a run, which
stay as they are. A word that the run does not know has proposals from the
smoothing table alone, and none if it comes after the last slice. -/
namespace LatentTopics.Engine

def inferSlice (id : Nat) : Update (Engine × Array Document) Unit
  | (engine, docs) =>
      match engine.vocab.slices[id]?, engine.store.slices[id]?, engine.samplers[0]? with
      | some entry, some slice, some sampler =>
          let proposals := engine.proposalsOf entry slice
          let shift : Shift Overlay := ⟨sampler, docs, Overlay.start slice engine.store.summary⟩
          match Shift.visitDocs (Sampler.inferDoc entry proposals) docs.size 0 shift with
          | .ok _ ⟨sampler, docs, _⟩ =>
              .ok () ({ engine with samplers := engine.samplers.setIfInBounds 0 sampler }, docs)
          | .error fault ⟨sampler, docs, _⟩ =>
              .error fault ({ engine with samplers := engine.samplers.setIfInBounds 0 sampler },
                docs)
      | _, _, _ => .error (.breach .indexOutOfRange) (engine, docs)

def inferSlices : Nat → Nat → Update (Engine × Array Document) Unit
  | 0, _, state => .ok () state
  | count + 1, id, state =>
      match inferSlice id state with
      | .ok _ state => inferSlices count (id + 1) state
      | .error fault state => .error fault state

def inferRounds (slices : Nat) : Nat → Update (Engine × Array Document) Unit
  | 0, state => .ok () state
  | count + 1, state =>
      match inferSlices slices 0 state with
      | .ok _ state => inferRounds slices count state
      | .error fault state => .error fault state

def infer (iterations : Nat) : Update (Engine × Block) Unit
  | (engine, block) =>
      match block.validate engine.settings.numVocabs engine.settings.numTopics with
      | .error fault => .error fault (engine, block)
      | .ok _ =>
          match inferRounds engine.vocab.slices.size iterations (engine, block.docs) with
          | .ok _ (engine, docs) => .ok () (engine, ⟨docs⟩)
          | .error fault (engine, docs) => .error fault (engine, ⟨docs⟩)

end LatentTopics.Engine
