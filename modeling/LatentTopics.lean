import LatentTopics.Main
import LatentTopics.Engine.Inference
import LatentTopics.Proofs.Table.Maps
import LatentTopics.Proofs.Row.Agreement
import LatentTopics.Proofs.Counts.Addresses
import LatentTopics.Proofs.Counts.Agreement
import LatentTopics.Proofs.Counts.Workers
import LatentTopics.Proofs.Corpus.RoundTrip
import LatentTopics.Proofs.Sampler.Tours
import LatentTopics.Proofs.Engine.Evaluations
import LatentTopics.Proofs.Alias.Reads
import LatentTopics.Proofs.Alias.Schedules
import LatentTopics.Proofs.Engine.Inference
import LatentTopics.Proofs.Counts.Verdicts
import LatentTopics.Proofs.Counts.Halts
import LatentTopics.Proofs.Engine.Budgets
import LatentTopics.Proofs.Corpus.CounterStates
import LatentTopics.Proofs.Counts.Overflows
import LatentTopics.Proofs.Alias.Reaching
import LatentTopics.Proofs.Corpus.BagLines
import LatentTopics.Proofs.Corpus.Compactions
import LatentTopics.Proofs.Report.Outputs
import LatentTopics.Proofs.Engine.Likelihoods
import LatentTopics.Proofs.Alias.Residues
import LatentTopics.Proofs.Corpus.Histograms
import LatentTopics.Proofs.Row.Independence
import LatentTopics.Proofs.Random.Cycles
