import LatentTopics.Corpus.Block
import LatentTopics.Counts.Store
import LatentTopics.Decimal.Layout
import LatentTopics.Engine
import LatentTopics.Number
import LatentTopics.Settings.Json

/-! What a run tells of its outcome: mixtures of documents,
words of topics, counts of words, and all of it as JSON. -/
namespace LatentTopics.Report

/-! The topic mixture of each document, smoothed by the prior:
`(n_dk + α) / (N_d + αK)`. Every token adds its part by itself. -/

def mixture (numTopics : Nat) (alpha alphaSum : Float) (doc : Document) : Array Float :=
  let weight := floatOfNat doc.size + alphaSum
  doc.tokens.foldl (fun shares token => shares.modify token.topic (· + 1.0 / weight))
    (Array.replicate numTopics (alpha / weight))

def mixtures (numTopics : Nat) (alpha alphaSum : Float) (block : Block) : List (Array Float) :=
  block.docs.toList.map (mixture numTopics alpha alphaSum)

/-! The words of each topic, most frequent first, as lists and as printed text. -/

/-- Larger counts first, then smaller words. -/
def rankOrder (a b : Nat × Int) : Bool :=
  if a.2 ≠ b.2 then b.2 < a.2 else a.1 ≤ b.1

def addPairs (word : Nat) (pairs : List (Nat × Int)) (topics : Array (List (Nat × Int))) :
    Array (List (Nat × Int)) :=
  pairs.foldl (fun topics (topic, count) => topics.modify topic ((word, count) :: ·)) topics

def wordsByTopic (numTopics : Nat) (store : Store) : Array (List (Nat × Int)) :=
  (store.slices.toList.flatMap Slice.rows).foldl
    (fun topics (word, row) => addPairs word row.pairs topics) (Array.replicate numTopics [])

def topWords (numTopics limit : Nat) (store : Store) : List (List (Nat × Int)) :=
  (wordsByTopic numTopics store).toList.map fun words => (words.mergeSort rankOrder).take limit

def probabilityText (beta betaSum : Float) (count total : Int) : String :=
  Decimal.fixed 6 ((floatOfInt count + beta) / (floatOfInt total + betaSum))

def topicLine (beta betaSum : Float) (label : Nat → String) (topic : Nat) (total : Int)
    (words : List (Nat × Int)) : String :=
  words.foldl (fun line (word, count) =>
      line ++ " " ++ probabilityText beta betaSum count total ++ "*" ++ label word)
    s!"Topic {topic}:" ++ "\n"

def topicText (beta betaSum : Float) (label : Nat → String) (summary : Summary)
    (topics : List (List (Nat × Int))) : String :=
  (topics.mapIdx fun topic words =>
    topicLine beta betaSum label topic (summary.get topic) words).foldl (· ++ ·) ""

/-! The counts of a store as text: a line for every word that has any, `word topic:count
topic:count`, words and topics in increasing order. -/

def pairOrder (a b : Nat × Int) : Bool :=
  if a.1 ≠ b.1 then a.1 < b.1 else a.2 ≤ b.2

def wordLine (word : Nat) (pairs : List (Nat × Int)) : String :=
  pairs.foldl (fun line (topic, count) => line ++ s!" {topic}:{count}") (toString word) ++ "\n"

def wordTopics (store : Store) : List (Nat × List (Nat × Int)) :=
  (store.slices.toList.flatMap Slice.rows).filterMap fun (word, row) =>
    match row.pairs with
    | [] => none
    | pairs => some (word, pairs.mergeSort pairOrder)

def wordTopicText (store : Store) : String :=
  (wordTopics store).foldl (fun text (word, pairs) => text ++ wordLine word pairs) ""

/-! What a finished run looks like, as JSON: settings, sizes, topic
totals, document mixtures and the top words of each topic. Vectors and
matrices are written with their dimensions and their items in rows. -/

open Json (Value)
open Settings (key)

def arrayOf (dimensions : List Nat) (items : List Value) : Value :=
  .object
    [key "v" (.ofNat 1),
     key "dim" (.array (dimensions.map Value.ofNat)),
     key "data" (.array items)]

def topWordJson (entry : Nat × Int) : Value :=
  .array [.ofNat entry.1, .ofInt entry.2]

def modelSummary (engine : Engine) (limit : Nat) : Value :=
  let settings := engine.settings
  let summary := engine.store.summary
  let mixtures := mixtures settings.numTopics settings.alpha settings.alphaSum engine.block
  let topics := topWords settings.numTopics limit engine.store
  .object
    [key "config" settings.toJson,
     key "num_docs" (.ofNat engine.block.docs.size),
     key "num_tokens" (.ofNat engine.block.numTokens),
     key "summary" (.object
       [key "counts" (arrayOf [summary.numTopics] (summary.counts.toList.map Value.ofInt))]),
     key "theta" (arrayOf [engine.block.docs.size, settings.numTopics]
       (mixtures.flatMap fun shares => shares.toList.map Value.ofFloat)),
     key "topics" (.array (topics.map fun words => .array (words.map topWordJson)))]

end LatentTopics.Report
