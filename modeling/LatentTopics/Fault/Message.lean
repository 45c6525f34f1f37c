import LatentTopics.Fault
import LatentTopics.Decimal.Layout
import LatentTopics.Text.Quoted

/-! The wording of faults. -/
namespace LatentTopics

def Site.message : Site → String
  | .rowSum word => s!"row sum of word {word}"
  | .summaryCount topic => s!"summary count of topic {topic}"

def SettingFault.message : SettingFault → String
  | .noTopics => "num_topics must be positive"
  | .tooManyTopics numTopics => s!"num_topics {numTopics} does not fit in 31 bits"
  | .priorNotPositive alpha beta =>
      "alpha and beta must be positive, got alpha = " ++ Decimal.positional alpha ++
        ", beta = " ++ Decimal.positional beta
  | .noRounds => "mh_step must be at least 1"
  | .smallLoadFactor loadFactor => s!"load_factor must be at least 2, got {loadFactor}"
  | .noWorkers => "num_worker_threads must be positive"
  | .counterCapacity capacity => s!"doc_counter_capacity must be a power of two, got {capacity}"
  | .zeroInterval => "intervals must be positive"
  | .emptyCorpus => "the corpus has no tokens"
  | .emptyVocabulary => "word likelihood needs a non-empty vocabulary"

def NumeralFault.message : NumeralFault → String
  | .empty => "cannot parse integer from empty string"
  | .invalidDigit => "invalid digit found in string"
  | .tooLarge => "number too large to fit in target type"

def FieldFault.message : FieldFault → String
  | .notAPair field => "expected word:count, found " ++ Text.quote field
  | .badWord text why => "bad word id " ++ Text.quote text ++ ": " ++ why.message
  | .badCount text why => "bad count " ++ Text.quote text ++ ": " ++ why.message

def BlockFault.message : BlockFault → String
  | .negativeDocumentCount count => s!"negative document count: {count}"
  | .negativeTokenCount count => s!"negative token count: {count}"
  | .unexpectedEnd => "unexpected end of block"
  | .negativeId document word topic =>
      s!"negative id in document {document}: word = {word}, topic = {topic}"
  | .unsorted document token before after =>
      s!"document {document} is not sorted by word id at token {token}: {before} > {after}"
  | .trailingBytes => "trailing bytes after last document"
  | .longLength length => s!"length {length} does not fit in an i32"

def Breach.message : Breach → String
  | .indexOutOfRange => "index out of range"
  | .divisionByZero => "division by zero"
  | .emptyRange => "no value to draw from"
  | .invalidShape => "distribution parameter out of range"
  | .subtraction => "subtraction below zero"
  | .endlessRejection => "no draw was accepted"
  | .oversize => "more tokens than memory can hold"

def Fault.message : Fault → String
  | .tableFull topic capacity =>
      s!"hash table is full: topic {topic} does not fit into capacity {capacity}"
  | .negativeCount topic count => s!"negative count {count} for topic {topic}"
  | .countMismatch site expected actual => s!"{site.message}: expected {expected}, found {actual}"
  | .wordOutOfRange word numWords => s!"word id {word} is outside the vocabulary of size {numWords}"
  | .unknownWord word slice => s!"word {word} has no row in model slice {slice}"
  | .topicOutOfRange topic numTopics => s!"topic id {topic} is outside [0, {numTopics})"
  | .settings cause => "configuration error: " ++ cause.message
  | .line number cause => s!"parse error at line {number}: " ++ cause.message
  | .block cause => "malformed data block: " ++ cause.message
  | .unreachableFile => "io error"
  | .malformedJson => "serde error"
  | .breach cause => "broken contract: " ++ cause.message

end LatentTopics
