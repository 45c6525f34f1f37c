import LatentTopics.Json.Literal
import LatentTopics.Json.Number
import LatentTopics.Json.Reader
import LatentTopics.Settings

/-! Settings as JSON. An object names the fields it sets, in any order and each
at most once; fields of other names are passed over. An array gives the fields
in their order and may stop early. What is not given keeps its default. -/
namespace LatentTopics.Settings

open Json (Value Literal)

def natField (value : Value) : Option Nat :=
  match value with
  | .number numeral => numeral.natural?
  | _ => none

def floatField (value : Value) : Option Float :=
  match value with
  | .number numeral => numeral.float?
  | _ => none

def optionalField (value : Value) : Option (Option Nat) :=
  match value with
  | .null => some none
  | .number numeral => numeral.natural?.map some
  | _ => none

def fieldNames : List String :=
  ["num_topics", "num_vocabs", "alpha", "beta", "mh_step", "num_iterations", "load_factor",
    "num_worker_threads", "model_max_capacity", "alias_max_capacity", "doc_counter_capacity",
    "compute_ll_interval", "dump_model_interval", "seed"]

/-- Sets a field to a value of its kind; other names have no effect. -/
def setField (settings : Settings) (name : String) (value : Value) : Option Settings :=
  match name with
  | "num_topics" => (natField value).map fun n => { settings with numTopics := n }
  | "num_vocabs" => (natField value).map fun n => { settings with numVocabs := n }
  | "alpha" => (floatField value).map fun x => { settings with alpha := x }
  | "beta" => (floatField value).map fun x => { settings with beta := x }
  | "mh_step" => (natField value).map fun n => { settings with mhStep := n }
  | "num_iterations" => (natField value).map fun n => { settings with numIterations := n }
  | "load_factor" => (natField value).map fun n => { settings with loadFactor := n }
  | "num_worker_threads" => (natField value).map fun n => { settings with numWorkers := n }
  | "model_max_capacity" => (natField value).map fun n => { settings with modelMaxCapacity := n }
  | "alias_max_capacity" => (natField value).map fun n => { settings with aliasMaxCapacity := n }
  | "doc_counter_capacity" => (natField value).map fun n => { settings with counterCapacity := n }
  | "compute_ll_interval" =>
      (optionalField value).map fun n => { settings with likelihoodInterval := n }
  | "dump_model_interval" => (optionalField value).map fun n => { settings with dumpInterval := n }
  | "seed" => (optionalField value).map fun n => { settings with seed := n }
  | _ => some settings

def setFields : List (Literal × Value) → List String → Settings → Option Settings
  | [], _, settings => some settings
  | (key, value) :: fields, seen, settings =>
      match key.decode? with
      | none => none
      | some name =>
          if fieldNames.contains name then
            if seen.contains name then none
            else (setField settings name value).bind fun settings =>
              setFields fields (name :: seen) settings
          else setFields fields seen settings

def setInOrder : List String → List Value → Settings → Option Settings
  | _, [], settings => some settings
  | [], _ :: _, _ => none
  | name :: names, value :: values, settings =>
      (setField settings name value).bind fun settings => setInOrder names values settings

def ofJson? : Value → Option Settings
  | .object fields => setFields fields [] {}
  | .array items => setInOrder fieldNames items {}
  | _ => none

def read (bytes : List UInt8) : Except Fault Settings :=
  match (Json.read? bytes).bind ofJson? with
  | some settings => .ok settings
  | none => .error .malformedJson

def key (name : String) (value : Value) : Literal × Value :=
  (Json.Literal.ofString name, value)

def optionalValue : Option Nat → Value
  | none => .null
  | some number => .ofNat number

def toJson (settings : Settings) : Value :=
  .object
    [key "num_topics" (.ofNat settings.numTopics),
     key "num_vocabs" (.ofNat settings.numVocabs),
     key "alpha" (.ofFloat settings.alpha),
     key "beta" (.ofFloat settings.beta),
     key "mh_step" (.ofNat settings.mhStep),
     key "num_iterations" (.ofNat settings.numIterations),
     key "load_factor" (.ofNat settings.loadFactor),
     key "num_worker_threads" (.ofNat settings.numWorkers),
     key "model_max_capacity" (.ofNat settings.modelMaxCapacity),
     key "alias_max_capacity" (.ofNat settings.aliasMaxCapacity),
     key "doc_counter_capacity" (.ofNat settings.counterCapacity),
     key "compute_ll_interval" (optionalValue settings.likelihoodInterval),
     key "dump_model_interval" (optionalValue settings.dumpInterval),
     key "seed" (optionalValue settings.seed)]

end LatentTopics.Settings
