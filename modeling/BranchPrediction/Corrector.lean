import BranchPrediction.History.Fold
import BranchPrediction.History.Path
import BranchPrediction.Ladder.Config
import BranchPrediction.Tage

/-!
# The statistical corrector

Small tables of signed weights, indexed by the address together with the direction prediction,
slices of global history, and path history.  The sum of the selected weights may override a
prediction that the direction predictor is not confident in.  The threshold below which a correct
sum still trains adapts to how often the sum is wrong.
-/

namespace BranchPrediction

namespace Corrector

structure Config where
  biasLogSize : Nat := 10
  historyLengths : List Nat := [4, 10, 16, 27]
  historyLogSize : Nat := 9
  pathLogSize : Nat := 9
  weightBits : Nat := 6
  /-- The training threshold to start from. -/
  threshold : Int := 24
  /-- The width of the counter that adapts the threshold. -/
  thresholdBits : Nat := 6
  /-- The least sum, up to sign, that overrides a prediction of low confidence. -/
  lowMargin : Int := 0
  /-- The least sum, up to sign, that overrides a prediction of medium confidence. -/
  mediumMargin : Int := 48
  deriving DecidableEq, Repr, Inhabited

namespace Config

/-- The longest history that a table reads. -/
def longestHistory (c : Config) : Nat :=
  c.historyLengths.foldl max 0

/-- Reject tables that are empty or too large, and counters that do not exist. -/
def validate (c : Config) : Except ConfigError Unit := do
  checkIncreasing c.historyLengths
  checkLogSize .biasTable c.biasLogSize
  checkLogSize .historyTable c.historyLogSize
  checkLogSize .pathTable c.pathLogSize
  checkWidth .correctorWeight c.weightBits Counter.Range.maxBits
  checkWidth .thresholdCounter c.thresholdBits Counter.Range.maxBits
  if c.threshold < 1 then throw .nonPositiveThreshold

end Config

structure Lookup where
  biasIndex : Nat := 0
  historyIndices : Array Nat := #[]
  pathIndex : Nat := 0
  sum : Int := 0
  /-- The direction that the sign of the sum stands for. -/
  outcome : Direction := .notTaken
  prediction : Direction := .notTaken
  overridden : Bool := false
  deriving DecidableEq, Repr, Inhabited

end Corrector

structure Corrector where
  config : Corrector.Config
  bias : Array Counter
  history : Array (Array Counter)
  path : Array Counter
  folds : Array FoldedHistory
  threshold : Int
  thresholdCounter : Counter

namespace Corrector

/-- The corrector that has learned nothing. -/
def blank (config : Config) : Corrector :=
  let weight := Counter.zero (.signed config.weightBits)
  { config
    bias := Array.replicate (1 <<< config.biasLogSize) weight
    history := Array.replicate config.historyLengths.length
      (Array.replicate (1 <<< config.historyLogSize) weight)
    path := Array.replicate (1 <<< config.pathLogSize) weight
    folds := (config.historyLengths.map (FoldedHistory.zero config.historyLogSize)).toArray
    threshold := config.threshold
    thresholdCounter := .zero (.signed config.thresholdBits) }

/-- The least sum, up to sign, that overrides a prediction of this confidence.  No sum overrides
a prediction of high confidence. -/
def margin (c : Corrector) : Confidence → Int
  | .low => c.config.lowMargin
  | .medium => c.config.mediumMargin
  | .high => 0x7fffffff

/-- What a weight adds to the sum: an odd number, so that no weight is neutral. -/
def contribution (weight? : Option Counter) : Int :=
  match weight? with
  | some weight => 2 * weight.value + 1
  | none => 0

/-- The history tables with the index of each. -/
def historyWeights (c : Corrector) (indices : Array Nat) : List (Option Counter) :=
  (c.history.zip indices).toList.map fun (table, i) => table[i]?

/-- The sum of the weights at the given indices. -/
def sumAt (c : Corrector) (biasIndex : Nat) (historyIndices : Array Nat) (pathIndex : Nat) : Int :=
  contribution c.bias[biasIndex]?
    + ((c.historyWeights historyIndices).map contribution).foldr (· + ·) 0
    + contribution c.path[pathIndex]?

/-- The index of the bias weight: address, predicted direction and confidence. -/
def biasIndexOf (c : Corrector) (pc : UInt64) (outcome : Direction) (confidence : Confidence) :
    Nat :=
  let key := ((pc >>> 2) <<< 3) ||| (outcome.isTaken.toUInt64 <<< 2)
    ||| UInt64.ofNat confidence.rank
  (key &&& lowMask c.config.biasLogSize).toNat

/-- Decide whether to override `primary`, given the direction and the confidence of the
direction predictor. -/
def predict (c : Corrector) (pc : UInt64) (outcome : Direction) (confidence : Confidence)
    (primary : Direction) (path : PathHistory) : Lookup :=
  let word := pc >>> 2
  let biasIndex := c.biasIndexOf pc outcome confidence
  let historyIndices := c.folds.map fun f =>
    ((word ^^^ f.value) &&& lowMask c.config.historyLogSize).toNat
  let pathIndex := ((word ^^^ path.value) &&& lowMask c.config.pathLogSize).toNat
  let sum := c.sumAt biasIndex historyIndices pathIndex
  let direction := Direction.ofBool (0 ≤ sum)
  let overridden : Bool := direction ≠ primary && c.margin confidence ≤ (sum.natAbs : Int)
  { biasIndex, historyIndices, pathIndex, sum, outcome := direction, overridden
    prediction := if overridden then direction else primary }

/-- Train one weight in each history table. -/
def trainHistory (outcome : Direction) (indices : Array Nat) (history : Array (Array Counter)) :
    Array (Array Counter) :=
  indices.toList.zipIdx.foldl
    (fun history (i, table) => history.modify table (·.modify i (·.train outcome))) history

/-- Train the weights that a lookup selected. -/
def trainWeights (c : Corrector) (lookup : Lookup) (outcome : Direction) : Corrector :=
  match c with
  | ⟨config, bias, history, path, folds, threshold, thresholdCounter⟩ =>
    ⟨config, bias.modify lookup.biasIndex (·.train outcome),
      trainHistory outcome lookup.historyIndices history,
      path.modify lookup.pathIndex (·.train outcome), folds, threshold, thresholdCounter⟩

/-- A wrong sum raises the threshold each time its counter fills up. -/
def raiseThreshold (c : Corrector) : Corrector :=
  match c with
  | ⟨config, bias, history, path, folds, threshold, thresholdCounter⟩ =>
    let counter := thresholdCounter.increment
    if counter.value = counter.range.max then
      ⟨config, bias, history, path, folds, threshold + 1, counter.reset⟩
    else ⟨config, bias, history, path, folds, threshold, counter⟩

/-- A correct but small sum lowers the threshold each time its counter runs out, down to 1. -/
def lowerThreshold (c : Corrector) : Corrector :=
  match c with
  | ⟨config, bias, history, path, folds, threshold, thresholdCounter⟩ =>
    let counter := thresholdCounter.decrement
    if counter.value = counter.range.min then
      ⟨config, bias, history, path, folds, max (threshold - 1) 1, counter.reset⟩
    else ⟨config, bias, history, path, folds, threshold, counter⟩

/-- Learn from a resolved branch.  Weights train when the sum was wrong or below the threshold. -/
def commit (c : Corrector) (lookup : Lookup) (outcome : Direction) : Corrector :=
  let correct : Bool := lookup.outcome = outcome
  let small : Bool := (lookup.sum.natAbs : Int) < c.threshold
  let c := if !correct || small then c.trainWeights lookup outcome else c
  if !correct then c.raiseThreshold
  else if small then c.lowerThreshold
  else c

/-- The lookup selects weights that exist, one for each table. -/
def fits (c : Corrector) (lookup : Lookup) : Bool :=
  lookup.biasIndex < c.bias.size && lookup.pathIndex < c.path.size
    && lookup.historyIndices.size = c.history.size
    && (c.history.zip lookup.historyIndices).all fun (table, i) => i < table.size

def reset (c : Corrector) : Corrector :=
  blank c.config

instance : HistoryView Corrector where
  pushed r c :=
    match c with
    | ⟨config, bias, history, path, folds, threshold, thresholdCounter⟩ =>
      ⟨config, bias, history, path, HistoryView.pushed r folds, threshold, thresholdCounter⟩
  popping r c :=
    match c with
    | ⟨config, bias, history, path, folds, threshold, thresholdCounter⟩ =>
      ⟨config, bias, history, path, HistoryView.popping r folds, threshold, thresholdCounter⟩

end Corrector

end BranchPrediction
