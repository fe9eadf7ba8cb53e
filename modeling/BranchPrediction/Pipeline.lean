import BranchPrediction.Error
import BranchPrediction.Branch
import BranchPrediction.History.Speculative
import BranchPrediction.Random.Xorshift

/-!
# Predictors in a speculative pipeline

The pipeline predicts a branch, then the branch contributes its bits to global history at once.
Later the branch either commits, which trains the tables, or is squashed, which undoes its
contribution.  Squashes arrive youngest first.  A per-branch record carries everything that the
later steps need.

A step that fails still answers the predictor and the record it leaves behind: the results below
hold both beside the error.
-/

namespace BranchPrediction

/-- Whether a record holds a prediction yet. -/
inductive RecordState where
  /-- The branch was never looked up; its prediction is computed when the record is first used. -/
  | provisional
  | finalized
  deriving DecidableEq, Repr, Inhabited

/-- What a branch did to shared speculative state, and what it takes to undo it. -/
structure Contribution where
  checkpoint : Checkpoint
  /-- The random state before the branch made its draws. -/
  random : Xorshift
  deriving DecidableEq, Repr

/-- What an update of a record leaves behind. -/
structure UpdateResult (P R : Type) where
  predictor : P
  record : R
  error? : Option PredictorError := none

/-- What the end of a record leaves behind. -/
structure ReleaseResult (P : Type) where
  predictor : P
  error? : Option PredictorError := none

/-- A predictor driven by a speculative pipeline, with records `R` and predictions `Q`. -/
class SpeculativePredictor (P : Type) (R Q : outParam Type) where
  name : String
  /-- The branch as the pipeline takes it after a wrong prediction, if the prediction is wrong and
  the pipeline follows it. -/
  misread? : Q → Branch → Option Branch
  /-- Look up a branch.  The tables do not change. -/
  predict : P → UInt64 → Bool → Q × R
  /-- Make a record for a branch without looking it up. -/
  placeholder : P → UInt64 → Bool → R
  /-- Insert the history of the branch; an earlier contribution is undone first. -/
  update : P → R → Branch → UpdateResult P R
  /-- The branch resolved otherwise than predicted: rewind to before it and insert its history as
  resolved. -/
  repair : P → R → Branch → UpdateResult P R
  /-- Train on a resolved branch and retire its contribution. -/
  commit : P → R → Branch → ReleaseResult P
  /-- Undo everything that the branch did to speculative state. -/
  squash : P → R → ReleaseResult P
  /-- Forget everything. -/
  reset : P → P

end BranchPrediction
