import BranchPrediction.Corrector
import BranchPrediction.LoopPredictor

/-!
# Configurations of TAGE-SC-L
-/

namespace BranchPrediction

namespace TageScl

/-- The configuration of a direction predictor with an optional loop predictor and an optional
corrector. -/
structure Config where
  base : Bimodal.Config := {}
  ladder : Ladder.Config := .standard
  loops? : Option LoopPredictor.Config := some {}
  corrector? : Option Corrector.Config := some {}
  /-- Only taken branches insert history. -/
  takenOnlyHistory : Bool := false
  /-- The seed of the draws that a branch makes.  Without one the draws may start from any seed;
  here zero stands for it. -/
  seed? : Option UInt64 := none
  deriving DecidableEq, Repr, Inhabited

namespace Config

/-- The longest history that any component reads. -/
def longestHistory (c : Config) : Nat :=
  max c.ladder.longestHistory
    (match c.corrector? with
      | some corrector => corrector.longestHistory
      | none => 0)

/-- Check the components in turn, then the history buffer against the longest history of all. -/
def validate (c : Config) : Except ConfigError Unit := do
  c.base.validate
  c.ladder.validate
  if let some loops := c.loops? then loops.validate
  if let some corrector := c.corrector? then corrector.validate
  c.ladder.checkHistoryBuffer c.longestHistory

/-- There is room for the tables and the history register. -/
def hasRoom (c : Config) : Bool :=
  c.ladder.hasRoom && c.loops?.all (·.hasRoom)

/-- The configuration with a seed where it has none. -/
def seedOr (c : Config) (seed : UInt64) : Config :=
  { c with seed? := some (c.seed?.getD seed) }

end Config

end TageScl

end BranchPrediction
