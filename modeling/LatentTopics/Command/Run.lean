import LatentTopics.Command.Arguments
import LatentTopics.Corpus.BagLine
import LatentTopics.Corpus.Block.Binary
import LatentTopics.Corpus.Bag
import LatentTopics.Corpus.Synthetic
import LatentTopics.Engine.Training
import LatentTopics.Fault.Message
import LatentTopics.Json.Value
import LatentTopics.Report

/-! A run of the command line: read the settings and the corpus, train, print the topics and write
the files that were asked for. What was printed or written before a fault stays. -/
namespace LatentTopics.Command

variable {m : Type → Type} [Monad m] [MonadFiles m]

inductive Stop where
  | misuse
  | fault (cause : Fault)
  deriving Repr, Inhabited

structure Outcome where
  code : Nat
  output : String
  fault : Option Fault
  deriving Repr, Inhabited

def topWordLimit : Nat := 10

def versionText : String := "LightLDA 0.1\n"

def helpText : String :=
  versionText ++
  "Latent Dirichlet allocation with a Metropolis-Hastings sampler\n\n" ++
  "Usage: lightlda [OPTIONS] [INPUT] [VOCAB]\n\n" ++
  "  --topics NUMBER  --alpha FLOAT  --beta FLOAT  --mh-step NUMBER  --iterations NUMBER\n" ++
  "  --workers NUMBER  --load-factor NUMBER  --model-capacity CELLS  --alias-capacity CELLS\n" ++
  "  --ll-interval NUMBER  --dump-interval NUMBER  --seed NUMBER  --config JSON-FILE\n" ++
  "  --output PREFIX  --model MODEL-FILE  --save-block FILE  --block  --test-dataset\n"

def lift {α : Type} (action : m (Except Fault α)) : ExceptT Stop m α :=
  ExceptT.mk do
    let result ← action
    return result.mapError Stop.fault

def pureStep {α : Type} (result : Except Fault α) : ExceptT Stop m α :=
  ExceptT.mk (pure (result.mapError Stop.fault))

def readSettings (arguments : Arguments) : ExceptT Stop m Settings := do
  let base ← match arguments.value? .config with
    | some path => do
        let bytes ← lift (MonadFiles.load path)
        pureStep (Settings.read bytes)
    | none => pure {}
  match applyOptions arguments base with
  | none => throw .misuse
  | some settings =>
      pureStep settings.validate
      return settings

/-- Initial topics are drawn from another generator than those of the samplers. -/
def corpusGenerator (seed : Nat) : Xorshift :=
  Xorshift.ofSeed (UInt64.ofNat seed + 0x9E3779B9).toUInt32

structure Corpus where
  block : Block
  settings : Settings
  label : Nat → String

def testShape : Synthetic.Shape :=
  ⟨1000, (400.0 : Float).log, 0.3⟩

def testVocabulary : Nat := 10000

/-- A generated corpus. Words that it does not use are left out, the others keep their names. -/
def testCorpus (settings : Settings) (rng : Xorshift) : Except Fault Corpus := do
  let alpha := List.replicate settings.numTopics 0.1
  let beta := List.replicate testVocabulary 0.1
  let (bags, rng) ← Synthetic.corpus testShape alpha beta rng
  let (bags, numVocabs, original) := Compaction.compactWords bags
  let (block, _) ← Block.ofBags bags settings.numTopics rng
  return ⟨block, { settings with numVocabs := numVocabs }, fun word =>
    toString (original.getD word 0)⟩

/-- The name of a word is its line in a vocabulary file, or
its number when there is no such line. -/
def labelOf (words : Array String) (word : Nat) : String :=
  words.getD word (toString word)

def fileCorpus (arguments : Arguments) (settings : Settings) (rng : Xorshift) (input : String) :
    ExceptT Stop m Corpus := do
  let words ← match arguments.vocabulary? with
    | some path => do
        let bytes ← lift (MonadFiles.load path)
        pureStep (BagLine.parseVocabulary bytes)
    | none => pure []
  let label := labelOf words.toArray
  let bytes ← lift (MonadFiles.load input)
  if arguments.has .block then
    let block ← pureStep (Block.decode bytes)
    return ⟨block, settings, label⟩
  else
    let bags ← pureStep (BagLine.parseFile bytes)
    let (block, _) ← pureStep (Block.ofBags bags settings.numTopics rng)
    return ⟨block, settings, label⟩

/-- Without a corpus there is nothing to do once the settings are checked. -/
def readCorpus (arguments : Arguments) (settings : Settings) (rng : Xorshift) :
    ExceptT Stop m (Option Corpus) :=
  if arguments.has .testDataset then some <$> pureStep (testCorpus settings rng)
  else
    match arguments.input? with
    | some input => some <$> fileCorpus arguments settings rng input
    | none => pure none

def trainCorpus (arguments : Arguments) (seed : Nat) (corpus : Corpus) : ExceptT Stop m Engine := do
  let engine ← pureStep (Engine.start corpus.settings seed corpus.block)
  let (reports, engine) ← ExceptT.lift (engine.train (arguments.value? .output))
  let _ ← pureStep reports
  return engine

def topicsOf (engine : Engine) (label : Nat → String) : String :=
  let settings := engine.settings
  Report.topicText settings.beta settings.betaSum label engine.store.summary
    (Report.topWords settings.numTopics topWordLimit engine.store)

def saveWordTopics (arguments : Arguments) (engine : Engine) : ExceptT Stop m Unit :=
  match arguments.value? .output with
  | some name => lift (engine.saveWordTopics (name ++ ".word_topic"))
  | none => pure ()

def saveModel (arguments : Arguments) (engine : Engine) : ExceptT Stop m Unit :=
  match arguments.value? .model with
  | some path => lift (MonadFiles.save path (Report.modelSummary engine topWordLimit).pretty)
  | none => pure ()

def saveBlock (arguments : Arguments) (engine : Engine) : ExceptT Stop m Unit :=
  match arguments.value? .saveBlock with
  | some path => lift (MonadFiles.saveBlock path engine.block)
  | none => pure ()

def Outcome.ofStop (output : String) : Stop → Outcome
  | .misuse => ⟨1, output, none⟩
  | .fault cause => ⟨1, output, some cause⟩

def conclude (arguments : Arguments) (engine : Engine) (label : Nat → String) : m Outcome := do
  let output := topicsOf engine label
  let files : ExceptT Stop m Unit := do
    saveWordTopics arguments engine
    saveModel arguments engine
    saveBlock arguments engine
  match ← files.run with
  | .ok _ => return ⟨0, output, none⟩
  | .error stop => return Outcome.ofStop output stop

def prepare (arguments : Arguments) (freshSeed : Nat) :
    ExceptT Stop m (Option (Engine × (Nat → String))) := do
  let settings ← readSettings arguments
  let seed := settings.seed.getD freshSeed
  match ← readCorpus arguments settings (corpusGenerator seed) with
  | none => return none
  | some corpus =>
      let engine ← trainCorpus arguments seed corpus
      return some (engine, corpus.label)

/-- Runs the program on its arguments. Settings without a seed use the fresh one. -/
def run (arguments : List String) (freshSeed : Nat) : m Outcome :=
  match request arguments with
  | .version => pure ⟨0, versionText, none⟩
  | .help => pure ⟨0, helpText, none⟩
  | .misuse => pure ⟨1, "", none⟩
  | .run arguments => do
      match ← (prepare arguments freshSeed).run with
      | .error stop => return Outcome.ofStop "" stop
      | .ok none => return ⟨0, "", none⟩
      | .ok (some (engine, label)) => conclude arguments engine label

end LatentTopics.Command
