import BranchPrediction.Main
import BranchPrediction.Proofs.Corrector.Mistakes
import BranchPrediction.Proofs.Evaluation.Tallies
import BranchPrediction.Proofs.History.Chunks
import BranchPrediction.Proofs.History.Unbounded
import BranchPrediction.Proofs.Learning.Aging
import BranchPrediction.Proofs.Learning.Mistakes
import BranchPrediction.Proofs.Loops.AtRest
import BranchPrediction.Proofs.Loops.Holders
import BranchPrediction.Proofs.Pipeline.Confidence
import BranchPrediction.Proofs.Pipeline.Folds
import BranchPrediction.Proofs.Pipeline.Isolation
import BranchPrediction.Proofs.Pipeline.Provenance
import BranchPrediction.Proofs.Pipeline.Refusals
import BranchPrediction.Proofs.Pipeline.Replay
import BranchPrediction.Proofs.Pipeline.Reset
import BranchPrediction.Proofs.Pipeline.Selection
import BranchPrediction.Proofs.Pipeline.Serial
import BranchPrediction.Proofs.Pipeline.Slots
import BranchPrediction.Proofs.Pipeline.SquashOrder
import BranchPrediction.Proofs.Pipeline.TakesEffect
import BranchPrediction.Proofs.Pipeline.TargetAllocations
import BranchPrediction.Proofs.Pipeline.TargetMistakes
import BranchPrediction.Proofs.Random.Draws
import BranchPrediction.Proofs.Safety.Arithmetic
import BranchPrediction.Proofs.Safety.Runs
import BranchPrediction.Snapshot.Pipeline
