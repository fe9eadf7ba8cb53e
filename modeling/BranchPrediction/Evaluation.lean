import BranchPrediction.Ittage.Basic
import BranchPrediction.PredictorUnit
import BranchPrediction.TageScl.Basic
import BranchPrediction.Workload

/-!
# Evaluation on a synthetic workload

Both predictors run over the same branches.  A mispredicted branch sends the front end down a
wrong path, which is squashed before the branch is repaired and committed.  The report gives the
statistics of the predictors and the shares of correct predictions, as lines of text.
-/

namespace BranchPrediction

namespace Evaluation

/-- What to evaluate. -/
structure Options where
  branches : Nat := 200000
  /-- The number of wrong-path branches after each misprediction. -/
  detour : Nat := 4
  /-- The seed of the workload, and of a predictor that has none. -/
  seed : UInt64 := 1
  /-- The direction predictor, or the reason why there is none. -/
  tageScl : Except ConfigError TageScl.Config := .ok {}
  /-- The target predictor, or the reason why there is none. -/
  ittage : Except ConfigError Ittage.Config := .ok {}

/-- Counts over one run. -/
structure Tally where
  /-- Branches that the pipeline followed down a wrong path. -/
  misread : Nat := 0
  /-- Branches of the target tables that had no prediction. -/
  unpredicted : Nat := 0
  /-- Wrong-path branches squashed. -/
  squashed : Nat := 0
  deriving DecidableEq, Repr, Inhabited

def Tally.add {Q : Type} (t : Tally) (report : PredictorUnit.BranchReport Q)
    (unpredicted : Bool) : Tally where
  misread := t.misread + report.mispredicted.toNat
  unpredicted := t.unpredicted + unpredicted.toNat
  squashed := t.squashed + report.squashed

/-- Drive one predictor through the branches. -/
def simulate {P R Q : Type} [SpeculativePredictor P R Q] (u : PredictorUnit P) (w : Workload)
    (branches : List Branch) (detour : Nat) (isUnpredicted : Branch → Q → Bool) :
    PredictorUnit P × Workload × Except PredictorError Tally :=
  u.runBranches 0 (fun _ w => w.wrongPath detour)
    (fun b report tally => tally.add report (isUnpredicted b report.prediction)) branches w {}

structure Run where
  direction : TageScl
  directionTally : Tally
  target : Ittage
  targetTally : Tally

/-- Run the direction predictor, then the target predictor, over the same branches. -/
def run (tageScl : TageScl.Config) (ittage : Ittage.Config) (w : Workload)
    (branches : List Branch) (detour : Nat) : Except PredictorError Run := do
  let u ← PredictorUnit.build 1 fun _ => tageScl.build
  let (u, w, tally) := simulate u w branches detour fun _ _ => false
  let directionTally ← tally
  let direction ← u.thread 0
  let u ← PredictorUnit.build 1 fun _ => ittage.build
  let (u, _, tally) := simulate u w branches detour fun b q =>
    b.kind.usesTargetTables && q.isNone
  let targetTally ← tally
  let target ← u.thread 0
  return { direction, directionTally, target, targetTally }

/-! ## The report -/

/-- A line of a record that is written over several lines. -/
def fieldLine (name : String) (value : Nat) : String :=
  s!"    {name}: {value},"

def listLines (name : String) (values : List Nat) : List String :=
  if values.isEmpty then [s!"    {name}: [],"]
  else [s!"    {name}: ["] ++ values.map (fun v => s!"        {v},") ++ ["    ],"]

/-- The lines of a record. -/
def recordLines (name : String) (fields : List String) : List String :=
  ["[*] " ++ name ++ " \x7b"] ++ fields ++ ["\x7d"]

def ladderLines (s : LadderStats) : List String :=
  recordLines "TAGEStats" <|
    [fieldLine "alcs" s.allocations, fieldLine "failed_alcs" s.failedAllocations,
     fieldLine "resets" s.agings, fieldLine "clk" s.commits,
     fieldLine "target_replacements" s.targetReplacements]
    ++ listLines "provider_correct" s.correct.toList
    ++ listLines "provider_wrong" s.wrong.toList
    ++ listLines "comp_miss" s.misses.toList

def tageSclLines (s : TageScl.Stats) : List String :=
  recordLines "TAGESCLStats"
    [fieldLine "commits" s.commits, fieldLine "mispredicts" s.mispredicts,
     fieldLine "loop_overrides" s.loopOverrides, fieldLine "sc_overrides" s.correctorOverrides,
     fieldLine "repairs" s.repairs]

/-- A share in percent with two decimal places.  Quotient and product are rounded to binary
floating point in turn. -/
def percentage (part whole : Nat) : String :=
  let (num, den) := nearestBinary64 part (max whole 1)
  let (num, den) := nearestBinary64 (num * 100) den
  fixedPoint 2 num den

/-- A number of bits in units of 1024 bytes, with two decimal places. -/
def kibibytes (bits : Nat) : String :=
  let (num, den) := nearestBinary64 bits 1
  fixedPoint 2 num (den * 8192)

def conditionalLine (total misses : Nat) : String :=
  let hits := total - misses
  s!"[*] Conditional: {hits}/{total} ({percentage hits total}% correct) ({misses} misses)"

def indirectLine (total misses unpredicted : Nat) : String :=
  let hits := total - misses
  s!"[*] Indirect:    {hits}/{total} ({percentage hits total}% correct) " ++
    s!"({misses} misses, {unpredicted} without a prediction)"

def resultLines (branches : List Branch) (r : Run) : List String :=
  ladderLines r.direction.tage.ladder.stats
    ++ tageSclLines r.direction.stats
    ++ ladderLines r.target.ladder.stats
    ++ [conditionalLine (branches.countP (·.kind.isConditional)) r.directionTally.misread,
        indirectLine (branches.countP (·.kind.usesTargetTables))
          (r.targetTally.misread + r.targetTally.unpredicted) r.targetTally.unpredicted,
        s!"[*] Squashed {r.directionTally.squashed + r.targetTally.squashed} wrong-path branches"]

def workloadLine (branches : Nat) : String :=
  s!"[*] Generated {branches} branches"

def storageLines (c : TageScl.Config) : List String :=
  let bits := c.base.storageBits + c.ladder.storageBits
  [s!"[*] TAGE entries (in total): {c.ladder.totalEntries}",
   s!"[*] TAGE storage bits: {bits}b, {kibibytes bits}KiB"]

def failureMessage : PredictorError → String
  | .config cause => cause.message
  | .protocol cause => cause.message
  | .precondition _ => "precondition not met"

/-- An evaluation: what is known before the run, and the run's results or the failure. -/
structure Report where
  before : List String
  results : Except PredictorError (List String)

/-- Generate the workload, run both predictors over it and report. -/
def report (o : Options) : Report :=
  let (branches, w) := (Workload.ofSeed o.seed).branches o.branches
  let generated := workloadLine branches.length
  match o.tageScl, o.ittage with
  | .error cause, _ => ⟨[generated], .error (.config cause)⟩
  | _, .error cause => ⟨[generated], .error (.config cause)⟩
  | .ok tageScl, .ok ittage =>
    ⟨generated :: storageLines tageScl,
      (run (tageScl.seedOr o.seed) (ittage.seedOr o.seed) w branches o.detour).map
        (resultLines branches)⟩

end Evaluation

end BranchPrediction
