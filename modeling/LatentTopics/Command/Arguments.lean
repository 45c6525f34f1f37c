import LatentTopics.Decimal.Read
import LatentTopics.Settings

/-! The command line. Options that take a value have it as the next argument or after an equals
sign; flags take none. Options, flags and the two file names may come in any order, and after `--`
everything is a file name. An option is given at most once and its value does not begin with a dash
unless an equals sign joins it. -/
namespace LatentTopics.Command

inductive Name where
  | topics
  | alpha
  | beta
  | mhStep
  | iterations
  | workers
  | loadFactor
  | modelCapacity
  | aliasCapacity
  | likelihoodInterval
  | dumpInterval
  | seed
  | config
  | output
  | model
  | saveBlock
  | block
  | testDataset
  deriving DecidableEq, Repr, Inhabited

def Name.ofText? (text : String) : Option Name :=
  match text with
  | "topics" => some .topics
  | "alpha" => some .alpha
  | "beta" => some .beta
  | "mh-step" => some .mhStep
  | "iterations" => some .iterations
  | "workers" => some .workers
  | "load-factor" => some .loadFactor
  | "model-capacity" => some .modelCapacity
  | "alias-capacity" => some .aliasCapacity
  | "ll-interval" => some .likelihoodInterval
  | "dump-interval" => some .dumpInterval
  | "seed" => some .seed
  | "config" => some .config
  | "output" => some .output
  | "model" => some .model
  | "save-block" => some .saveBlock
  | "block" => some .block
  | "test-dataset" => some .testDataset
  | _ => none

def Name.isFlag : Name → Bool
  | .block => true
  | .testDataset => true
  | _ => false

/-- What was given, the last first. An option without a value has none. -/
structure Arguments where
  given : List (Name × Option String)
  files : List String
  deriving DecidableEq, Repr, Inhabited

namespace Arguments

def empty : Arguments := ⟨[], []⟩

def value? (arguments : Arguments) (name : Name) : Option String :=
  (arguments.given.find? fun entry => entry.1 = name).bind Prod.snd

def has (arguments : Arguments) (name : Name) : Bool :=
  arguments.given.any fun entry => entry.1 = name

def give (name : Name) (value : Option String) (arguments : Arguments) : Arguments :=
  { arguments with given := (name, value) :: arguments.given }

def addFile (file : String) (arguments : Arguments) : Arguments :=
  { arguments with files := file :: arguments.files }

def input? (arguments : Arguments) : Option String :=
  arguments.files.getLast?

def vocabulary? (arguments : Arguments) : Option String :=
  match arguments.files with
  | [vocabulary, _] => some vocabulary
  | _ => none

end Arguments

inductive Request where
  | run (arguments : Arguments)
  | version
  | help
  | misuse
  deriving DecidableEq, Repr, Inhabited

def isComplete (arguments : Arguments) : Bool :=
  (arguments.given.map Prod.fst).Nodup &&
    arguments.given.all fun entry => entry.1.isFlag || entry.2.isSome

def finish (arguments : Arguments) : Request :=
  if arguments.given.isEmpty && arguments.files.isEmpty then .misuse
  else if isComplete arguments then .run arguments
  else .misuse

/-- Begins an option or is the mark after which none begins; a dash alone is a value. -/
def isDashed (argument : List Char) : Bool :=
  match argument with
  | '-' :: _ :: _ => true
  | _ => false

def longOption (argument : List Char) : String × Option String :=
  let body := argument.dropWhile (· = '-')
  let name := body.takeWhile (· ≠ '=')
  match body.drop name.length with
  | [] => (String.ofList name, none)
  | joined => (String.ofList name, some (String.ofList (joined.dropWhile (· = '='))))

def filesOnly : List String → Arguments → Request
  | [], arguments => finish arguments
  | file :: rest, arguments =>
      if 2 ≤ arguments.files.length then .misuse else filesOnly rest (arguments.addFile file)

/-- Reads arguments from the left. `waiting` is an option whose value
may come next. An unknown option, a third file name and a request for
version or help decide at once, the other rules at the end. -/
def scan : Option Name → List String → Arguments → Request
  | none, [], arguments => finish arguments
  | some name, [], arguments => finish (arguments.give name none)
  | waiting, argument :: rest, arguments =>
      let chars := argument.toList
      if isDashed chars then
        let arguments := match waiting with
          | some name => arguments.give name none
          | none => arguments
        match chars with
        | ['-', '-'] => filesOnly rest arguments
        | '-' :: '-' :: _ =>
            match longOption chars with
            | ("version", _) => .version
            | ("help", _) => .help
            | (text, joined) =>
                match Name.ofText? text, joined with
                | none, _ => .misuse
                | some name, some value =>
                    if name.isFlag then scan none rest (arguments.give name none)
                    else scan none rest (arguments.give name (some value))
                | some name, none =>
                    if name.isFlag then scan none rest (arguments.give name none)
                    else scan (some name) rest arguments
        | '-' :: 'V' :: _ => .version
        | '-' :: 'h' :: _ => .help
        | _ => .misuse
      else
        match waiting with
        | some name => scan none rest (arguments.give name (some argument))
        | none =>
            if 2 ≤ arguments.files.length then .misuse else scan none rest
              (arguments.addFile argument)

def request (arguments : List String) : Request :=
  scan none arguments Arguments.empty

/-! The settings that options give. They are read in a fixed order over the settings of a file. -/

def natValue? (text : String) : Option Nat :=
  (Decimal.natural64 text.toList).toOption

def floatValue? (text : String) : Option Float :=
  Decimal.float? text.toList

def setNat (arguments : Arguments) (name : Name) (set : Nat → Settings → Settings)
    (settings : Settings) : Option Settings :=
  match arguments.value? name with
  | none => some settings
  | some text => (natValue? text).map fun number => set number settings

def setFloat (arguments : Arguments) (name : Name) (set : Float → Settings → Settings)
    (settings : Settings) : Option Settings :=
  match arguments.value? name with
  | none => some settings
  | some text => (floatValue? text).map fun number => set number settings

def applyOptions (arguments : Arguments) (settings : Settings) : Option Settings := do
  let settings ← setNat arguments .topics (fun n s => { s with numTopics := n }) settings
  let settings ← setFloat arguments .alpha (fun x s => { s with alpha := x }) settings
  let settings ← setFloat arguments .beta (fun x s => { s with beta := x }) settings
  let settings ← setNat arguments .mhStep (fun n s => { s with mhStep := n }) settings
  let settings ← setNat arguments .iterations (fun n s => { s with numIterations := n }) settings
  let settings ← setNat arguments .workers (fun n s => { s with numWorkers := n }) settings
  let settings ← setNat arguments .loadFactor (fun n s => { s with loadFactor := n }) settings
  let settings ← setNat arguments .modelCapacity (fun n s =>
      { s with modelMaxCapacity := n }) settings
  let settings ← setNat arguments .aliasCapacity (fun n s =>
      { s with aliasMaxCapacity := n }) settings
  let settings ← setNat arguments .likelihoodInterval
    (fun n s => { s with likelihoodInterval := some n }) settings
  let settings ← setNat arguments .dumpInterval (fun n s =>
      { s with dumpInterval := some n }) settings
  setNat arguments .seed (fun n s => { s with seed := some n }) settings

end LatentTopics.Command
