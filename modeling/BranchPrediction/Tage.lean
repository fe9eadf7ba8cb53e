import BranchPrediction.Ladder.Basic

/-!
# TAGE

The direction predictor with tagged tables of geometric history lengths over a bimodal base table.
The longest matching table predicts, unless its entry is fresh and fresh entries have lately done
worse than the alternate; the alternate is the next longest match, or the base table.

A prediction records everything it depended on, and `Tage.commit` learns from that record.
-/

namespace BranchPrediction

namespace Tage

/-- The table that provides a prediction. -/
inductive Provider where
  | base
  | tagged (bank : Nat)
  deriving DecidableEq, Repr, Inhabited

/-- Everything a direction prediction depends on, kept until the branch commits. -/
structure Prediction where
  slots : Array Slot := #[]
  baseIndex : Nat := 0
  hit? : Option Nat := none
  alt? : Option Nat := none
  provider : Provider := .base
  source : ProviderSource := .fallback
  outcome : Direction := .notTaken
  /-- The direction of the longest match, or of the base table. -/
  longestOutcome : Direction := .notTaken
  /-- The direction of the alternate, or of the base table. -/
  altOutcome : Direction := .notTaken
  /-- The entry of the longest match was fresh. -/
  pseudoNew : Bool := false
  confidence : Confidence := .low
  /-- The bit of the branch that keys the use-alt-on-new counters. -/
  conditional : Bool := false
  deriving DecidableEq, Repr, Inhabited

end Tage

/-- The direction predictor. -/
structure Tage where
  base : Bimodal
  ladder : Ladder SignOnly

namespace Tage

def blank (base : Bimodal.Config) (ladder : Ladder.Config) : Tage :=
  ⟨.zero base, .blank ladder⟩

/-- The counter that answers when the longest match does not: that of the alternate, or of the
base table. -/
def altCounter (t : Tage) (slots : Array Slot) (alt? : Option Nat) (baseIndex : Nat) :
    Provider × Counter :=
  match alt? with
  | some bank =>
    match t.ladder.entry? slots bank with
    | some e => (.tagged bank, e.confidence)
    | none => (.base, t.base.counter baseIndex)
  | none => (.base, t.base.counter baseIndex)

def predict (t : Tage) (pc : UInt64) (path : PathHistory) (conditional : Bool) : Prediction :=
  let slots := t.ladder.slots pc path
  let (hit?, alt?) := t.ladder.findMatches slots
  let baseIndex := t.base.index pc
  let (provider, counter) := t.altCounter slots alt? baseIndex
  let alternate : Prediction :=
    { slots, baseIndex, hit?, alt?, provider, conditional
      source := .fallback
      outcome := counter.predict
      longestOutcome := counter.predict
      altOutcome := counter.predict
      confidence := .ofCounter counter }
  match hit? with
  | none => alternate
  | some bank =>
    match t.ladder.entry? slots bank with
    | none => alternate
    | some e =>
      let longest := { alternate with
        longestOutcome := e.confidence.predict
        pseudoNew := e.isPseudoNew }
      if e.isPseudoNew && t.ladder.prefersAlt bank conditional then
        { longest with source := .altMatch }
      else
        { longest with
          provider := .tagged bank
          source := .longestMatch
          outcome := e.confidence.predict
          confidence := .ofCounter e.confidence }

def modifyLadder (t : Tage) (f : Ladder SignOnly → Ladder SignOnly) : Tage :=
  match t with
  | ⟨base, ladder⟩ => ⟨base, f ladder⟩

/-- Train a counter of the base table. -/
def trainBase (t : Tage) (index : Nat) (outcome : Direction) : Tage :=
  match t with
  | ⟨base, ladder⟩ => ⟨base.train index outcome, ladder⟩

/-- Train the counter that would have answered without the longest match. -/
def trainFallback (t : Tage) (p : Prediction) (outcome : Direction) : Tage :=
  match p.alt? with
  | some bank => t.modifyLadder (·.modifyEntry p.slots bank (·.stepConfidence outcome.isTaken))
  | none => t.trainBase p.baseIndex outcome

/-- Learn whether to trust the alternate over a fresh entry, when the two disagreed. -/
def trainUseAlt (t : Tage) (p : Prediction) (outcome : Direction) : Tage :=
  match p.hit? with
  | some bank =>
    if p.pseudoNew && p.longestOutcome ≠ p.altOutcome then
      t.modifyLadder (·.trainUseAlt bank p.conditional (p.altOutcome = outcome))
    else t
  | none => t

/-- A new entry is due when both the prediction and the one finally acted on were wrong.  A fresh
entry that was right on its own is first given the chance to build confidence. -/
def allocates (p : Prediction) (outcome finalOutcome : Direction) : Bool :=
  p.outcome ≠ outcome && finalOutcome ≠ outcome
    && !(p.pseudoNew && p.longestOutcome = outcome)

/-- The counter of a new entry, weak in the direction of the outcome. -/
def initialConfidence : Direction → Int
  | .taken => 0
  | .notTaken => -1

/-- Try to allocate a new entry, if one is due. -/
def allocate (t : Tage) (p : Prediction) (outcome finalOutcome : Direction) (skip : Bool) : Tage :=
  if allocates p outcome finalOutcome then
    t.modifyLadder fun l =>
      (l.allocate p.slots p.hit? skip ⟨⟩ (initialConfidence outcome)).1
  else t

/-- Train the counters that the prediction read. -/
def trainCounters (t : Tage) (p : Prediction) (outcome : Direction) : Tage :=
  match p.hit? with
  | none => t.trainBase p.baseIndex outcome
  | some bank =>
    let useless : Bool := match t.ladder.entry? p.slots bank with
      | some e => e.useful.value = 0
      | none => false
    let t := t.modifyLadder (·.modifyEntry p.slots bank (·.stepConfidence outcome.isTaken))
    let t := if useless then t.trainFallback p outcome else t
    if p.longestOutcome ≠ p.altOutcome then
      t.modifyLadder (·.trainUseful p.slots bank (p.longestOutcome = outcome))
    else t

def commit (t : Tage) (p : Prediction) (outcome finalOutcome : Direction) (skip : Bool) : Tage :=
  let t := t.modifyLadder (·.record p.source p.hit? (p.outcome = outcome))
  let t := t.trainUseAlt p outcome
  let t := t.allocate p outcome finalOutcome skip
  let t := t.trainCounters p outcome
  t.modifyLadder Ladder.tick

/-- The prediction fits the tables: one slot for each, and matches among them. -/
def fits (t : Tage) (p : Prediction) : Bool :=
  t.ladder.fits p.slots && t.ladder.hasBank p.hit? && t.ladder.hasBank p.alt?

def reset (t : Tage) : Tage :=
  match t with
  | ⟨base, ladder⟩ => ⟨base.reset, ladder.reset⟩

instance : HistoryView Tage where
  pushed r t :=
    match t with
    | ⟨base, ladder⟩ => ⟨base, HistoryView.pushed r ladder⟩
  popping r t :=
    match t with
    | ⟨base, ladder⟩ => ⟨base, HistoryView.popping r ladder⟩

end Tage

end BranchPrediction
