import BranchPrediction.Ittage.Basic
import BranchPrediction.Snapshot.Table
import BranchPrediction.TageScl.Basic

/-!
# Snapshots of predictors and records

The state of a whole predictor as JSON values, in short and in full, and the record of a branch in
flight.
-/

namespace BranchPrediction

namespace Snapshot

open Json (nat str option ofMembers)

def checkpointMembers (c : Checkpoint) : List (String × Json) :=
  [("ptr", nat c.start), ("nbits", nat c.count), ("overwritten", word c.overwritten),
   ("path", word c.path.value)]

def checkpoint (c : Checkpoint) : Json :=
  ofMembers (checkpointMembers c)

def contribution (c : Contribution) : Json :=
  ofMembers (checkpointMembers c.checkpoint ++ [("seed", word c.random.word)])

/-- The members of a speculative history, without its bits. -/
def historyMembers (h : SpeculativeHistory) : List (String × Json) :=
  [("ptr", nat h.register.start), ("in_flight", nat h.inFlight), ("path", word h.path.value)]

def history (h : SpeculativeHistory) : Json :=
  ofMembers (historyMembers h)

/-- The bits of a register, without leading zeros. -/
def significantBits (r : HistoryRegister) : Json :=
  str (String.ofList (r.text.toList.dropWhile (· = '0')))

/-- The name of the state of a record. -/
def recordState : RecordState → Json
  | .provisional => str "Provisional"
  | .finalized => str "Finalized"

/-- How a predictor in a pipeline is written: its predictions, its records, and its state in
short and in full. -/
class View (P : Type) (R Q : outParam Type) extends SpeculativePredictor P R Q where
  prediction : Q → Json
  record : R → Json
  state : P → Json
  full : P → Json
  /-- The letter for a prediction of a branch. -/
  letter : Q → Branch → Char

instance : View TageScl TageScl.Record Direction where
  prediction := direction
  record r := ofMembers [
    ("pc", word r.pc), ("cond", .bool r.isConditional), ("record", recordState r.state),
    ("tage", prediction r.tage), ("loop", loopLookup r.loop), ("sc", correctorLookup r.corrector),
    ("tage_or_loop", direction r.primary), ("prediction", direction r.prediction),
    ("spec", option contribution r.contribution?),
    ("draws", .array [.bool r.draws.allocationSkip, .bool r.draws.loopAllocation,
      nat r.draws.loopWay])]
  state p := ofMembers (historyMembers p.history ++ [
    ("rng", word p.random.word),
    ("stat", nats [p.stats.commits, p.stats.mispredicts, p.stats.loopOverrides,
      p.stats.correctorOverrides, p.stats.repairs])])
  full p := ofMembers [
    ("name", str (SpeculativePredictor.name TageScl)), ("ghr", significantBits p.history.register),
    ("tage", tage p.tage), ("tage_stat", stats p.tage.ladder.stats),
    ("loops", option loops p.loops?), ("sc", option corrector p.corrector?)]
  letter d _ := if d.isTaken then 't' else 'n'

instance : View Ittage Ittage.Record (Option UInt64) where
  prediction := option word
  record r := ofMembers [
    ("pc", word r.pc), ("cond", .bool r.isConditional), ("record", recordState r.state),
    ("slots", slots r.lookup.slots), ("hit", option nat r.lookup.hit?),
    ("alt", option nat r.lookup.alt?), ("source", source r.lookup.source),
    ("longest", option word r.lookup.longestTarget?),
    ("alt_target", option word r.lookup.altTarget?), ("pseudo_new", .bool r.lookup.pseudoNew),
    ("target", option word r.lookup.target?), ("class", .bool r.lookup.conditional),
    ("spec", option contribution r.contribution?), ("alloc_skip", .bool r.allocationSkip)]
  state p := ofMembers (historyMembers p.history ++ [
    ("rng", word p.random.word),
    ("stat", nats [p.ladder.stats.allocations, p.ladder.stats.failedAllocations,
      p.ladder.stats.targetReplacements, p.ladder.stats.commits])])
  full p := ofMembers [
    ("name", str (SpeculativePredictor.name Ittage)), ("ghr", significantBits p.history.register),
    ("tage", ladder p.ladder)]
  letter q b :=
    match q with
    | none => '.'
    | some target => if target = b.target then 'y' else 'x'

end Snapshot

end BranchPrediction
