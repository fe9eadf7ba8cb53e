import BranchPrediction.Pipeline
import BranchPrediction.TageScl.Config

/-!
# TAGE-SC-L

TAGE with a loop predictor and a statistical corrector layered over it, in a speculative pipeline.
The loop predictor replaces the prediction of TAGE where it is confident and has proven itself;
the corrector may then override the result.

A branch takes the random draws that it may need at commit when it updates history, so that
undoing the update also undoes the draws.  Operations check first (`appendError?`,
`rollbackError?`) and then act (`apply`, `undo`), so that a refused operation leaves no trace.
-/

namespace BranchPrediction

namespace TageScl

/-- The random draws that a branch may need when it commits. -/
structure Draws where
  /-- Start an allocation one table further out. -/
  allocationSkip : Bool := false
  /-- The branch may be given a loop entry if it was mispredicted. -/
  loopAllocation : Bool := false
  /-- The first way considered for a loop entry. -/
  loopWay : Nat := 0
  deriving DecidableEq, Repr, Inhabited

structure Record where
  pc : UInt64 := 0
  isConditional : Bool := false
  state : RecordState := .provisional
  tage : Tage.Prediction := {}
  loop : LoopPredictor.Lookup := {}
  corrector : Corrector.Lookup := {}
  /-- The prediction before the corrector. -/
  primary : Direction := .notTaken
  prediction : Direction := .notTaken
  /-- Present while the branch's contribution to history is applied. -/
  contribution? : Option Contribution := none
  draws : Draws := {}
  /-- The speculative iteration count of the loop predictor was advanced. -/
  loopAdvanced : Bool := false
  deriving DecidableEq, Repr, Inhabited

structure Stats where
  commits : Nat := 0
  mispredicts : Nat := 0
  /-- Commits at which the loop predictor had replaced the prediction of TAGE. -/
  loopOverrides : Nat := 0
  /-- Commits at which the corrector had replaced the prediction. -/
  correctorOverrides : Nat := 0
  repairs : Nat := 0
  deriving DecidableEq, Repr, Inhabited

end TageScl

/-- TAGE with a loop predictor and a statistical corrector. -/
structure TageScl where
  config : TageScl.Config
  tage : Tage
  loops? : Option LoopPredictor
  corrector? : Option Corrector
  history : SpeculativeHistory
  random : Xorshift
  stats : TageScl.Stats

namespace TageScl

/-- The predictor of a valid configuration, if there is room for it. -/
def Config.build (c : Config) : Except PredictorError TageScl := do
  (c.validate).mapError .config
  (Precondition.capacity.require c.hasRoom).mapError .precondition
  let history ← (SpeculativeHistory.create c.ladder.historyBufferBits c.ladder.pathBits
    c.longestHistory).mapError .precondition
  return {
    config := c
    tage := .blank c.base c.ladder
    loops? := c.loops?.map .blank
    corrector? := c.corrector?.map .blank
    history
    random := .ofSeed (c.seed?.getD 0)
    stats := {} }

/-- What the loop predictor says of a branch, and the prediction that results. -/
def lookupLoop (p : TageScl) (pc : UInt64) (outcome : Direction) :
    LoopPredictor.Lookup × Direction :=
  match p.loops? with
  | none => ({}, outcome)
  | some loops =>
    let lookup := loops.lookup pc
    (lookup, if lookup.isValid && loops.isBeneficial pc then lookup.prediction else outcome)

/-- What the corrector makes of a prediction. -/
def lookupCorrector (p : TageScl) (pc : UInt64) (tage : Tage.Prediction) (primary : Direction) :
    Corrector.Lookup :=
  match p.corrector? with
  | none => { prediction := primary }
  | some corrector => corrector.predict pc tage.outcome tage.confidence primary p.history.path

def lookup (p : TageScl) (pc : UInt64) (isConditional : Bool) : Record :=
  let tage := p.tage.predict pc p.history.path isConditional
  let (loop, primary) := p.lookupLoop pc tage.outcome
  let corrector := p.lookupCorrector pc tage primary
  { pc, isConditional, tage, loop, corrector, primary
    state := .finalized
    prediction := corrector.prediction }

def predict (p : TageScl) (pc : UInt64) (isConditional : Bool) : Direction × Record :=
  let r := p.lookup pc isConditional
  (r.prediction, r)

def placeholder (_p : TageScl) (pc : UInt64) (isConditional : Bool) : Record :=
  { pc, isConditional }

def finalize (p : TageScl) (r : Record) (pc : UInt64) : Record :=
  match r.state with
  | .provisional => p.lookup pc r.isConditional
  | .finalized => r

/-- The record fits the tables of the predictor. -/
def accepts (p : TageScl) (r : Record) : Bool :=
  r.state = .provisional
    || (p.tage.fits r.tage && p.loops?.all (·.fits r.loop)
      && p.corrector?.all (·.fits r.corrector))

/-- Draw what a branch may need at commit. -/
def Config.draw (c : Config) (random : Xorshift) : Draws × Xorshift :=
  let (allocationSkip, random) :=
    if c.ladder.allocationSkip then RandomSource.ratio 1 4 random else (false, random)
  match c.loops? with
  | none => ({ allocationSkip }, random)
  | some loops =>
    let (loopAllocation, random) := RandomSource.ratio 1 4 random
    let (way, random) := RandomSource.below (UInt64.ofNat loops.ways) random
    ({ allocationSkip, loopAllocation, loopWay := way.toNat }, random)

/-- The bits that a branch inserts into history, and their number. -/
def Config.historyBits (c : Config) (b : Branch) : UInt64 × Nat :=
  if !c.takenOnlyHistory then (b.taken.isTaken.toUInt64, 1)
  else
    match b.taken with
    | .taken => (((b.pc >>> 2) ^^^ (b.target >>> 2)) &&& 1, 1)
    | .notTaken => (0, 0)

/-- The reason, if any, not to insert the history of a branch. -/
def appendError? (p : TageScl) (b : Branch) : Option PredictorError :=
  p.history.appendError? (p.config.historyBits b).2

/-- The reason, if any, not to undo the contribution of a record. -/
def rollbackError? (p : TageScl) (r : Record) : Option PredictorError :=
  match r.contribution? with
  | none => none
  | some c => (p.history.disorder? c.checkpoint).map .protocol

def apply (p : TageScl) (r : Record) (b : Branch) : TageScl × Record :=
  match p with
  | ⟨config, tage, loops?, corrector?, history, random, stats⟩ =>
    let (draws, drawn) := config.draw random
    let (bits, count) := config.historyBits b
    let (checkpoint, history, tage, corrector?) :=
      history.append bits count b.pc (tage, corrector?)
    let advances := b.kind.isConditional && loops?.isSome
    let loops? := if advances then loops?.map (·.speculate r.loop b.taken) else loops?
    (⟨config, tage, loops?, corrector?, history, drawn, stats⟩,
      { r with
        draws
        contribution? := some ⟨checkpoint, random⟩
        loopAdvanced := r.loopAdvanced || advances })

def undo (p : TageScl) (r : Record) : TageScl × Record :=
  match r.contribution? with
  | none => (p, r)
  | some c =>
    match p with
    | ⟨config, tage, loops?, corrector?, history, _, stats⟩ =>
      let (history, tage, corrector?) := history.rollback c.checkpoint (tage, corrector?)
      let loops? := if r.loopAdvanced then loops?.map (·.restore r.loop) else loops?
      (⟨config, tage, loops?, corrector?, history, c.random, stats⟩,
        { r with contribution? := none, loopAdvanced := false })

def update (p : TageScl) (r : Record) (b : Branch) : UpdateResult TageScl Record :=
  if !p.accepts r then ⟨p, r, some (.precondition .foreignRecord)⟩
  else
    let r := p.finalize r b.pc
    match p.rollbackError? r with
    | some error => ⟨p, r, some error⟩
    | none =>
      let (p, r) := p.undo r
      match p.appendError? b with
      | some error => ⟨p, r, some error⟩
      | none =>
        let (p, r) := p.apply r b
        ⟨p, r, none⟩

def modifyStats (p : TageScl) (f : Stats → Stats) : TageScl :=
  match p with
  | ⟨config, tage, loops?, corrector?, history, random, stats⟩ =>
    ⟨config, tage, loops?, corrector?, history, random, f stats⟩

/-- Insert the history of a branch as resolved. -/
def repair (p : TageScl) (r : Record) (b : Branch) : UpdateResult TageScl Record :=
  (p.modifyStats fun s => { s with repairs := s.repairs + 1 }).update r b

def Stats.record (s : Stats) (r : Record) (outcome : Direction) : Stats where
  commits := s.commits + 1
  mispredicts := s.mispredicts + (r.prediction ≠ outcome : Bool).toNat
  loopOverrides := s.loopOverrides + (r.primary ≠ r.tage.outcome : Bool).toNat
  correctorOverrides := s.correctorOverrides + r.corrector.overridden.toNat
  repairs := s.repairs

/-- Train the loop predictor, and the trust in it where it disagreed with the prediction. -/
def trainLoops (r : Record) (pc : UInt64) (outcome : Direction) (loops : LoopPredictor) :
    LoopPredictor :=
  let loops :=
    if r.loop.isValid && r.loop.prediction ≠ r.prediction then
      loops.trainTrust pc (r.loop.prediction = outcome)
    else loops
  loops.commit r.loop outcome r.tage.outcome (r.prediction ≠ outcome) r.draws.loopAllocation
    r.draws.loopWay

/-- Learn from a resolved conditional branch. -/
def train (p : TageScl) (r : Record) (pc : UInt64) (outcome : Direction) : TageScl :=
  match p with
  | ⟨config, tage, loops?, corrector?, history, random, stats⟩ =>
    ⟨config, tage.commit r.tage outcome r.prediction r.draws.allocationSkip,
      loops?.map (trainLoops r pc outcome), corrector?.map (·.commit r.corrector outcome),
      history, random, stats.record r outcome⟩

/-- The bits of a record's contribution are no longer speculative. -/
def retire (p : TageScl) (r : Record) : TageScl :=
  match r.contribution? with
  | none => p
  | some c =>
    match p with
    | ⟨config, tage, loops?, corrector?, history, random, stats⟩ =>
      ⟨config, tage, loops?, corrector?, history.retire c.checkpoint, random, stats⟩

/-- Train on a resolved branch that has inserted its history, and retire it. -/
def conclude (p : TageScl) (r : Record) (b : Branch) : TageScl :=
  (if b.kind.isConditional then p.train r b.pc b.taken else p).retire r

/-- Commit a resolved branch.  One that has not inserted its history does so first. -/
def commit (p : TageScl) (r : Record) (b : Branch) : ReleaseResult TageScl :=
  if !p.accepts r then ⟨p, some (.precondition .foreignRecord)⟩
  else
    let r := p.finalize r b.pc
    if r.contribution?.isSome then ⟨p.conclude r b, none⟩
    else
      match p.appendError? b with
      | some error => ⟨p, some error⟩
      | none =>
        let (p, r) := p.apply r b
        ⟨p.conclude r b, none⟩

def squash (p : TageScl) (r : Record) : ReleaseResult TageScl :=
  if !p.accepts r then ⟨p, some (.precondition .foreignRecord)⟩
  else
    match p.rollbackError? r with
    | some error => ⟨p, some error⟩
    | none => ⟨(p.undo r).1, none⟩

/-- Forget everything and start the draws again from the seed. -/
def reset (p : TageScl) : TageScl :=
  match p with
  | ⟨config, tage, loops?, corrector?, history, _, _⟩ =>
    ⟨config, tage.reset, loops?.map LoopPredictor.reset, corrector?.map Corrector.reset,
      history.clear, .ofSeed (config.seed?.getD 0), {}⟩

/-- The branch as a pipeline takes it that follows a wrong prediction. -/
def misread? (prediction : Direction) (b : Branch) : Option Branch :=
  if b.kind.isConditional && prediction ≠ b.taken then some { b with taken := prediction }
  else none

instance : SpeculativePredictor TageScl Record Direction where
  name := "TAGE-SC-L"
  misread? := misread?
  predict := predict
  placeholder := placeholder
  update := update
  repair := repair
  commit := commit
  squash := squash
  reset := reset

end TageScl

end BranchPrediction
