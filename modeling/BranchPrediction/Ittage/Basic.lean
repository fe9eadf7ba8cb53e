import BranchPrediction.Ittage.Config
import BranchPrediction.Ladder.Basic
import BranchPrediction.Pipeline

/-!
# ITTAGE

The indirect target predictor: the ladder of tagged tables with a target address in every entry,
in a speculative pipeline.  When no table answers there is no prediction, and the pipeline is left
to its own means.

Operations check first (`appendError?`, `rollbackError?`) and then act (`apply`, `undo`), so that
a refused operation leaves no trace.
-/

namespace BranchPrediction

namespace Ittage

/-- Everything a target prediction depends on, kept until the branch commits. -/
structure Lookup where
  slots : Array Slot := #[]
  hit? : Option Nat := none
  alt? : Option Nat := none
  source : ProviderSource := .fallback
  longestTarget? : Option UInt64 := none
  altTarget? : Option UInt64 := none
  /-- The entry of the longest match was fresh. -/
  pseudoNew : Bool := false
  target? : Option UInt64 := none
  /-- The bit of the branch that keys the use-alt-on-new counters. -/
  conditional : Bool := false
  deriving DecidableEq, Repr, Inhabited

structure Record where
  pc : UInt64 := 0
  isConditional : Bool := false
  state : RecordState := .provisional
  lookup : Lookup := {}
  /-- Present while the branch's contribution to history is applied. -/
  contribution? : Option Contribution := none
  /-- Start an allocation one table further out. -/
  allocationSkip : Bool := false
  deriving DecidableEq, Repr, Inhabited

end Ittage

/-- The indirect target predictor. -/
structure Ittage where
  config : Ittage.Config
  ladder : Ladder Target
  history : SpeculativeHistory
  random : Xorshift

namespace Ittage

/-- The predictor of a valid configuration, if there is room for it. -/
def Config.build (c : Config) : Except PredictorError Ittage := do
  (c.validate).mapError .config
  (Precondition.capacity.require c.ladder.hasRoom).mapError .precondition
  let history ← (SpeculativeHistory.create c.ladder.historyBufferBits c.ladder.pathBits
    c.ladder.longestHistory).mapError .precondition
  return {
    config := c
    ladder := .blank c.ladder
    history
    random := .ofSeed (c.seed?.getD 0) }

def targetOf (p : Ittage) (slots : Array Slot) (bank : Nat) : Option UInt64 :=
  (p.ladder.entry? slots bank).bind (·.payload.address?)

/-- Look up a branch in the tables. -/
def find (p : Ittage) (pc : UInt64) (isConditional : Bool) : Lookup :=
  let slots := p.ladder.slots pc p.history.path
  let (hit?, alt?) := p.ladder.findMatches slots
  let altTarget? := alt?.bind (p.targetOf slots)
  let miss : Lookup := { slots, hit?, alt?, altTarget?, conditional := isConditional }
  match hit? with
  | none => miss
  | some bank =>
    match p.ladder.entry? slots bank with
    | none => miss
    | some e =>
      let longestTarget? := e.payload.address?
      let found := { miss with longestTarget?, pseudoNew := e.isPseudoNew }
      if e.isPseudoNew && alt?.isSome && p.ladder.prefersAlt bank isConditional then
        { found with source := .altMatch, target? := altTarget? }
      else { found with source := .longestMatch, target? := longestTarget? }

def lookup (p : Ittage) (pc : UInt64) (isConditional : Bool) : Record :=
  { pc, isConditional, state := .finalized, lookup := p.find pc isConditional }

def predict (p : Ittage) (pc : UInt64) (isConditional : Bool) : Option UInt64 × Record :=
  let r := p.lookup pc isConditional
  (r.lookup.target?, r)

def placeholder (_p : Ittage) (pc : UInt64) (isConditional : Bool) : Record :=
  { pc, isConditional }

/-- Look up the branch of a record that has no prediction yet. -/
def finalize (p : Ittage) (r : Record) (pc : UInt64) : Record :=
  match r.state with
  | .provisional => p.lookup pc r.isConditional
  | .finalized => r

/-- The record fits the tables of the predictor. -/
def accepts (p : Ittage) (r : Record) : Bool :=
  r.state = .provisional
    || (p.ladder.fits r.lookup.slots && p.ladder.hasBank r.lookup.hit?
      && p.ladder.hasBank r.lookup.alt?)

/-- Draw what a branch may need at commit. -/
def Config.draw (c : Config) (random : Xorshift) : Bool × Xorshift :=
  if c.ladder.allocationSkip then RandomSource.ratio 1 4 random else (false, random)

/-- A hash of where a branch is and where it goes, cut to `count` bits. -/
def targetBits (b : Branch) (count : Nat) : UInt64 :=
  let hash := b.target ^^^ (b.target >>> 3) ^^^ b.pc
  if count < 64 then hash &&& lowMask count else hash

/-- The bits that a branch inserts into history, and their number.  A conditional branch inserts
its direction, jumps and calls a hash of their target, direct jumps and returns nothing. -/
def Config.historyBits (c : Config) (b : Branch) : UInt64 × Nat :=
  match b.kind with
  | .directBranch => (b.taken.isTaken.toUInt64, c.conditionalBits)
  | .indirectJump => (targetBits b c.indirectJumpBits, c.indirectJumpBits)
  | .directCall => (targetBits b c.directCallBits, c.directCallBits)
  | .indirectCall => (targetBits b c.indirectCallBits, c.indirectCallBits)
  | .directJump | .procedureReturn => (0, 0)

/-- The reason, if any, not to insert the history of a branch. -/
def appendError? (p : Ittage) (b : Branch) : Option PredictorError :=
  p.history.appendError? (p.config.historyBits b).2

/-- The reason, if any, not to undo the contribution of a record. -/
def rollbackError? (p : Ittage) (r : Record) : Option PredictorError :=
  match r.contribution? with
  | none => none
  | some c => (p.history.disorder? c.checkpoint).map .protocol

/-- Make the draw of a branch and insert its history. -/
def apply (p : Ittage) (r : Record) (b : Branch) : Ittage × Record :=
  match p with
  | ⟨config, ladder, history, random⟩ =>
    let (allocationSkip, drawn) := config.draw random
    let (bits, count) := config.historyBits b
    let (checkpoint, history, ladder) := history.append bits count b.pc ladder
    (⟨config, ladder, history, drawn⟩,
      { r with allocationSkip, contribution? := some ⟨checkpoint, random⟩ })

/-- Undo the contribution of a record, if it made one. -/
def undo (p : Ittage) (r : Record) : Ittage × Record :=
  match r.contribution? with
  | none => (p, r)
  | some c =>
    match p with
    | ⟨config, ladder, history, _⟩ =>
      let (history, ladder) := history.rollback c.checkpoint ladder
      (⟨config, ladder, history, c.random⟩, { r with contribution? := none })

/-- Insert the history of a branch, in place of an earlier contribution. -/
def update (p : Ittage) (r : Record) (b : Branch) : UpdateResult Ittage Record :=
  if !p.accepts r then ⟨p, r, some (.precondition .foreignRecord)⟩
  else
    let r := p.finalize r b.pc
    match p.rollbackError? r with
    | some error => ⟨p, r, some error⟩
    | none =>
      let (p, r) := p.undo r
      match p.appendError? b with
      | some error => ⟨p, r, some error⟩
      | none =>
        let (p, r) := p.apply r b
        ⟨p, r, none⟩

def modifyLadder (p : Ittage) (f : Ladder Target → Ladder Target) : Ittage :=
  match p with
  | ⟨config, ladder, history, random⟩ => ⟨config, f ladder, history, random⟩

/-- Learn whether to trust the alternate over a fresh entry, when the two disagreed and one of
them was right. -/
def trainUseAlt (l : Lookup) (target : UInt64) (ladder : Ladder Target) : Ladder Target :=
  match l.hit? with
  | none => ladder
  | some bank =>
    if l.pseudoNew && l.longestTarget? ≠ l.altTarget?
        && (l.longestTarget? = some target || l.altTarget? = some target) then
      ladder.trainUseAlt bank l.conditional (l.altTarget? = some target)
    else ladder

/-- Lose confidence in a target, and take another one when none is left. -/
def weaken (target : UInt64) (e : TaggedEntry Target) : TaggedEntry Target :=
  let e := e.stepConfidence false
  if e.confidence.value = 0 then { e with payload := ⟨some target⟩ } else e

/-- The entry of the longest match is about to lose its last confidence. -/
def replaces (l : Lookup) (bank : Nat) (ladder : Ladder Target) : Bool :=
  match ladder.entry? l.slots bank with
  | some e => (e.stepConfidence false).confidence.value = 0
  | none => false

def trainConfidence (l : Lookup) (bank : Nat) (target : UInt64) (ladder : Ladder Target) :
    Ladder Target :=
  if l.longestTarget? = some target then
    ladder.modifyEntry l.slots bank (·.stepConfidence true)
  else if replaces l bank ladder then
    (ladder.modifyEntry l.slots bank (weaken target)).modifyStats fun s =>
      { s with targetReplacements := s.targetReplacements + 1 }
  else ladder.modifyEntry l.slots bank (weaken target)

def trainLongest (l : Lookup) (target : UInt64) (ladder : Ladder Target) : Ladder Target :=
  match l.hit? with
  | none => ladder
  | some bank =>
    let ladder := trainConfidence l bank target ladder
    if l.longestTarget? ≠ l.altTarget? then
      ladder.trainUseful l.slots bank (l.longestTarget? = some target)
    else ladder

/-- Learn from a resolved indirect jump or call.  A missing prediction counts as a wrong one. -/
def train (p : Ittage) (r : Record) (target : UInt64) : Ittage :=
  let l := r.lookup
  let correct : Bool := l.target? = some target
  p.modifyLadder fun ladder =>
    let ladder := ladder.record l.source l.hit? correct
    let ladder := trainUseAlt l target ladder
    let ladder :=
      if correct then ladder
      else (ladder.allocate l.slots l.hit? r.allocationSkip ⟨some target⟩ 0).1
    (trainLongest l target ladder).tick

def retire (p : Ittage) (r : Record) : Ittage :=
  match r.contribution? with
  | none => p
  | some c =>
    match p with
    | ⟨config, ladder, history, random⟩ => ⟨config, ladder, history.retire c.checkpoint, random⟩

/-- Train on a resolved branch that has inserted its history, and retire it. -/
def conclude (p : Ittage) (r : Record) (b : Branch) : Ittage :=
  (if b.kind.usesTargetTables then p.train r b.target else p).retire r

/-- Commit a resolved branch.  One that has not inserted its history does so first. -/
def commit (p : Ittage) (r : Record) (b : Branch) : ReleaseResult Ittage :=
  if !p.accepts r then ⟨p, some (.precondition .foreignRecord)⟩
  else
    let r := p.finalize r b.pc
    if r.contribution?.isSome then ⟨p.conclude r b, none⟩
    else
      match p.appendError? b with
      | some error => ⟨p, some error⟩
      | none =>
        let (p, r) := p.apply r b
        ⟨p.conclude r b, none⟩

/-- Undo what a branch did to speculative state. -/
def squash (p : Ittage) (r : Record) : ReleaseResult Ittage :=
  if !p.accepts r then ⟨p, some (.precondition .foreignRecord)⟩
  else
    match p.rollbackError? r with
    | some error => ⟨p, some error⟩
    | none => ⟨(p.undo r).1, none⟩

/-- Forget everything and start the draws again from the seed. -/
def reset (p : Ittage) : Ittage :=
  match p with
  | ⟨config, ladder, history, _⟩ =>
    ⟨config, ladder.reset, history.clear, .ofSeed (config.seed?.getD 0)⟩

/-- The branch as a pipeline takes it that follows a wrong target.  Without a prediction there is
nothing to follow. -/
def misread? (prediction : Option UInt64) (b : Branch) : Option Branch :=
  match prediction with
  | some target =>
    if b.kind.usesTargetTables && target ≠ b.target then some { b with target } else none
  | none => none

instance : SpeculativePredictor Ittage Record (Option UInt64) where
  name := "ITTAGE"
  misread? := misread?
  predict := predict
  placeholder := placeholder
  update := update
  repair := update
  commit := commit
  squash := squash
  reset := reset

end Ittage

end BranchPrediction
