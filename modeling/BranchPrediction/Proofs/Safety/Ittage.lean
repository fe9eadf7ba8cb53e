import BranchPrediction.Proofs.Pipeline.Reset
import BranchPrediction.Proofs.Safety.Build
import BranchPrediction.Proofs.Safety.Lookups
import BranchPrediction.Proofs.Safety.Session

/-!
# Checked steps of ITTAGE

The checked steps of ITTAGE access the ladder with checks, draw with checks, refuse to insert more
than a word, and see to it that an undo ends where the contribution started.  No check fails in a
predictor that was built for a valid configuration, on records whose lookups are in the range of
the configuration (`Ittage.guarded`).
-/

namespace BranchPrediction

namespace Ittage

open Ladder

/-! ## Checked steps -/

def checkedLookup (p : Ittage) (pc : UInt64) (isConditional : Bool) : Option Record := do
  let slots ← p.ladder.checkedSlots pc p.history.path
  let (hit?, alt?) ← p.ladder.checkedFindMatches slots
  let _ ← alt?.mapM (p.ladder.checkedEntry slots)
  let _ ← hit?.mapM
    (p.ladder.checkedLongest slots (fun e => e.isPseudoNew && alt?.isSome) isConditional)
  return p.lookup pc isConditional

def checkedFinalize (p : Ittage) (r : Record) (pc : UInt64) : Option Record :=
  match r.state with
  | .provisional => p.checkedLookup pc r.isConditional
  | .finalized => some r

/-- Make the draw of a branch, and answer the reason, if any, not to insert its history. -/
def checkedAppendError? (p : Ittage) (b : Branch) : Option (Option PredictorError) := do
  let _ ← p.config.ladder.checkedDraw p.random
  guard ((p.config.historyBits b).2 ≤ 64)
  return p.appendError? b

/-- Undo the contribution of a record, which must lead back to where it started. -/
def checkedUndo (p : Ittage) (r : Record) : Option (Ittage × Record) := do
  let (undone, r') := p.undo r
  guard (r.contribution?.all fun c => undone.history.register.start = c.checkpoint.start)
  return (undone, r')

def checkedTrainUseAlt (l : Lookup) (target : UInt64) (ladder : Ladder Target) :
    Option (Ladder Target) :=
  match l.hit? with
  | none => some ladder
  | some bank =>
    if l.pseudoNew && l.longestTarget? ≠ l.altTarget?
        && (l.longestTarget? = some target || l.altTarget? = some target) then
      ladder.checkedTrainUseAlt bank l.conditional (l.altTarget? = some target)
    else some ladder

def checkedAllocate (r : Record) (target : UInt64) (ladder : Ladder Target) :
    Option (Ladder Target) :=
  if r.lookup.target? = some target then some ladder
  else
    ladder.checkedAllocate r.lookup.slots r.lookup.hit? r.allocationSkip ⟨some target⟩ 0

/-- Train the usefulness of the longest match, if the alternate disagreed. -/
def checkedTrainUseful (l : Lookup) (bank : Nat) (target : UInt64) (ladder : Ladder Target) :
    Option (Ladder Target) :=
  if l.longestTarget? ≠ l.altTarget? then
    ladder.checkedModifyEntry l.slots bank (·.stepUseful (l.longestTarget? = some target))
  else some ladder

def checkedTrainLongest (l : Lookup) (target : UInt64) (ladder : Ladder Target) :
    Option (Ladder Target) :=
  match l.hit? with
  | none => some ladder
  | some bank => do
    let _ ← ladder.checkedEntry l.slots bank
    checkedTrainUseful l bank target (trainConfidence l bank target ladder)

def checkedLearn (r : Record) (target : UInt64) (ladder : Ladder Target) :
    Option (Ladder Target) := do
  let ladder := ladder.record r.lookup.source r.lookup.hit? (r.lookup.target? = some target)
  let ladder ← checkedTrainUseAlt r.lookup target ladder
  let ladder ← checkedAllocate r target ladder
  let ladder ← checkedTrainLongest r.lookup target ladder
  ladder.checkedTick

def checkedConclude (p : Ittage) (r : Record) (b : Branch) : Option Ittage :=
  if b.kind.usesTargetTables then
    (checkedLearn r b.target p.ladder).map fun ladder => (p.modifyLadder fun _ => ladder).retire r
  else some (p.retire r)

-- the register carries the bounds of its accesses, and a reset goes through whole arrays
instance : CheckedPredictor Ittage where
  checkedPredict p pc isConditional := do
    let r ← p.checkedLookup pc isConditional
    return (r.lookup.target?, r)
  checkedFinalize := checkedFinalize
  checkedUndo := checkedUndo
  checkedAppendError? := checkedAppendError?
  checkedApply p r b := some (p.apply r b)
  checkedConclude := checkedConclude
  checkedReset p := some p.reset

/-! ## No check fails -/

theorem checkedLookup_eq {p : Ittage} (hready : p.ladder.Ready) (pc : UInt64)
    (isConditional : Bool) :
    p.checkedLookup pc isConditional = some (p.lookup pc isConditional) := by
  have hslots := p.ladder.fits_slots pc p.history.path
  obtain ⟨hhit, halt⟩ := p.ladder.hasBank_findMatches (p.ladder.slots pc p.history.path)
  obtain ⟨altEntry, haltEntry⟩ := exists_mapM halt fun bank hbank =>
    (exists_entry hslots hbank).imp fun e he => he.elim fun _ h => h.1
  obtain ⟨longest, hlongest⟩ := hready.exists_longest hslots (fun e => e.isPseudoNew &&
    (p.ladder.findMatches (p.ladder.slots pc p.history.path)).2.isSome) isConditional hhit
  rw [checkedLookup, checkedSlots_eq]
  simp only [Option.bind_eq_bind, Option.bind_some, checkedFindMatches_eq hslots, haltEntry,
    hlongest]
  rfl

section Learning

variable {l : Lookup} {ladder : Ladder Target} (hslots : ladder.fits l.slots = true)
  (hhit : ladder.hasBank l.hit? = true)

include hhit

theorem checkedTrainUseAlt_eq (hready : ladder.Ready) (target : UInt64) :
    checkedTrainUseAlt l target ladder = some (trainUseAlt l target ladder) := by
  unfold checkedTrainUseAlt trainUseAlt
  cases hl : l.hit? with
  | none => rfl
  | some bank =>
      rw [hl] at hhit
      simp only
      split
      · exact hready.checkedTrainUseAlt_eq (of_decide_eq_true hhit) _ _
      · rfl

include hslots

theorem checkedTrainLongest_eq (target : UInt64) :
    checkedTrainLongest l target ladder = some (trainLongest l target ladder) := by
  unfold checkedTrainLongest trainLongest
  cases hl : l.hit? with
  | none => rfl
  | some bank =>
      rw [hl] at hhit
      obtain ⟨e, -, hentry, -⟩ := exists_entry hslots (of_decide_eq_true hhit)
      simp only [hentry, Option.bind_eq_bind, Option.bind_some]
      have hlearns : Learns l.slots (fun _ _ => True) ladder
          (trainConfidence l bank target ladder) :=
        learns_trainConfidence .refl (fun _ => trivial) trivial
      have hslots' := (hlearns.fits_eq l.slots).trans hslots
      have hbank : bank < (trainConfidence l bank target ladder).size :=
        hlearns.sizes_eq.2.1 ▸ of_decide_eq_true hhit
      unfold checkedTrainUseful
      split
      · exact checkedModifyEntry_eq hslots' hbank _
      · rfl

end Learning

theorem checkedAllocate_eq {r : Record} {ladder : Ladder Target}
    (hslots : ladder.fits r.lookup.slots = true) (target : UInt64) :
    checkedAllocate r target ladder = some (
      if r.lookup.target? = some target then ladder
      else (ladder.allocate r.lookup.slots r.lookup.hit? r.allocationSkip ⟨some target⟩ 0).1) := by
  unfold checkedAllocate
  split
  · rfl
  · exact Ladder.checkedAllocate_eq hslots _ _ _ _

theorem checkedLearn_eq {r : Record} {ladder : Ladder Target}
    (hslots : ladder.fits r.lookup.slots = true) (hhit : ladder.hasBank r.lookup.hit? = true)
    (hready : ladder.Ready) (target : UInt64) :
    checkedLearn r target ladder = some (learn r target ladder) := by
  set recorded := ladder.record r.lookup.source r.lookup.hit? (r.lookup.target? = some target)
    with hrecorded
  set trusting := trainUseAlt r.lookup target recorded with htrusting
  set allocated := if r.lookup.target? = some target then trusting
    else (trusting.allocate r.lookup.slots r.lookup.hit? r.allocationSkip ⟨some target⟩ 0).1
    with hallocated
  -- each step finds what learning has made of the ladder so far, which keeps the sizes
  have hrecord : Learns r.lookup.slots (fun _ _ => True) ladder recorded :=
    Learns.refl.record _ _ _
  have huseAlt : Learns r.lookup.slots (fun _ _ => True) ladder trusting :=
    learns_trainUseAlt hrecord target
  have hallocate : Learns r.lookup.slots (fun _ _ => True) ladder allocated := by
    rw [hallocated]
    split
    · exact huseAlt
    · exact huseAlt.allocate (fun _ _ => trivial) (fun _ _ => trivial) _ _
  have hlongest : Learns r.lookup.slots (fun _ _ => True) ladder
      (trainLongest r.lookup target allocated) :=
    learns_trainLongest hallocate (fun _ _ => trivial) (fun _ _ => trivial) fun _ _ => trivial
  have htrust := checkedTrainUseAlt_eq ((hrecord.hasBank_eq _).trans hhit)
    (hrecord.ready hready) target
  have hmade := checkedAllocate_eq ((huseAlt.fits_eq _).trans hslots) target
  have htrain := checkedTrainLongest_eq ((hallocate.fits_eq _).trans hslots)
    ((hallocate.hasBank_eq _).trans hhit) target
  rw [← htrusting] at htrust
  rw [← hallocated] at hmade
  simp only [checkedLearn, ← hrecorded, htrust, hmade, htrain, Option.bind_eq_bind,
    Option.bind_some, (hlongest.ready hready).checkedTick_eq]
  simp only [learn, decide_eq_true_eq, ← hrecorded, ← htrusting, ← hallocated]

theorem checkedConclude_eq {p : Ittage} {r : Record} (hslots : p.ladder.fits r.lookup.slots = true)
    (hhit : p.ladder.hasBank r.lookup.hit? = true) (hready : p.ladder.Ready) (b : Branch) :
    p.checkedConclude r b = some (p.conclude r b) := by
  rcases p with ⟨config, ladder, history, random⟩
  unfold checkedConclude conclude
  split
  · rw [checkedLearn_eq hslots hhit hready]
    rfl
  · rfl

/-! ## Predictors and records of a configuration -/

/-- The tables have the sizes of the configuration, and counters of the configured ranges. -/
structure Regular (c : Config) (p : Ittage) : Prop where
  config_eq : p.config = c
  ladder : p.ladder.Regular c.ladder
  register_size : p.history.register.size = c.ladder.historyBufferBits

/-- A lookup, if there was one, is in the range of the tables, and a contribution starts in the
register. -/
structure Record.InRange (c : Config) (r : Record) : Prop where
  selects : r.state = .finalized →
    c.ladder.Selects r.lookup.slots r.lookup.hit? r.lookup.alt?
  startsIn : StartsIn Ittage c.ladder.historyBufferBits r

theorem Record.InRange.of_lookup {c : Config} {r r' : Record} (h : r.InRange c)
    (hstate : r'.state = r.state) (hlookup : r'.lookup = r.lookup)
    (hstarts : StartsIn Ittage c.ladder.historyBufferBits r') : r'.InRange c := by
  refine ⟨?_, hstarts⟩
  rw [hstate, hlookup]
  exact h.selects

/-- The predictor is one that the built one may become. -/
def Descends (built p : Ittage) : Prop :=
  Forgets built p ∧ (HistoryKeeper.history p).dimensions = (HistoryKeeper.history built).dimensions

theorem kept_descends (built : Ittage) : Kept (Descends built) :=
  (kept_forgets built).and ((keepsHistory built.config).kept_dimensions _)

variable {c : Config} {built p : Ittage} (hbuild : c.build = .ok built)

include hbuild

theorem Descends.regular (h : Descends built p) : p.Regular c := by
  obtain ⟨⟨hconfig, hladder⟩, hdimensions⟩ := h
  obtain ⟨-, -, history, hcreate, rfl⟩ := exists_of_build hbuild
  obtain ⟨-, hsize, rfl⟩ := SpeculativeHistory.create_eq_ok hcreate
  refine ⟨hconfig, regular_of_reset (hladder.trans (reset_blank _)), ?_⟩
  exact (congrArg Prod.fst hdimensions).trans (HistoryRegister.size_zeros _ hsize)

theorem inRange_lookup (h : Descends built p) (pc : UInt64) (isConditional : Bool) :
    (p.lookup pc isConditional).InRange c := by
  obtain ⟨hvalid, -⟩ := build_eq_ok hbuild
  obtain ⟨hslots, hhit, halt⟩ := p.find_selection pc isConditional
  refine ⟨fun _ => ?_, fun _ hcheckpoint => by cases hcheckpoint⟩
  change c.ladder.Selects (p.find pc isConditional).slots (p.find pc isConditional).hit?
    (p.find pc isConditional).alt?
  rw [hslots, hhit, halt]
  exact (h.regular hbuild).ladder.selects (c.ladder_of_validate hvalid) pc p.history.path

theorem startsIn_apply (h : Descends built p) (r : Record) (b : Branch) :
    StartsIn Ittage c.ladder.historyBufferBits (apply p r b).2 := by
  have hstarts := (keepsHistory c).startsIn_applied (p := p) (r := r) b
  rwa [show (HistoryKeeper.history p).register.size = c.ladder.historyBufferBits from
    (h.regular hbuild).register_size] at hstarts

theorem keptRecords : KeptRecords (Descends built) (Record.InRange c) where
  kept := kept_descends built
  made {p} h predicted pc isConditional := by
    cases predicted with
    | true => exact inRange_lookup hbuild h pc isConditional
    | false =>
        refine ⟨fun hfinalized => ?_, fun _ hcheckpoint => ?_⟩
        · cases hfinalized
        · cases hcheckpoint
  finalized {p r} h hr pc := by
    change (p.finalize r pc).InRange c
    unfold finalize
    split
    · exact inRange_lookup hbuild h pc r.isConditional
    · exact hr
  applied {p r} h hr b :=
    hr.of_lookup (state_apply p r b) (lookup_apply p r b) (startsIn_apply hbuild h r b)
  undone {p r} h hr :=
    hr.of_lookup (state_undo p r) (lookup_undo p r) ((keepsHistory c).startsIn_undone _)

theorem accepts_of_inRange (h : Descends built p) {r : Record} (hr : r.InRange c) :
    p.accepts r = true := by
  unfold accepts
  cases hstate : r.state with
  | provisional => rfl
  | finalized =>
      obtain ⟨hslots, hhit, halt⟩ := (h.regular hbuild).ladder.fits (hr.selects hstate)
      rw [hslots, hhit, halt]
      rfl

theorem checkedUndo_eq (h : Descends built p) {r : Record} (hr : r.InRange c)
    (hrollback : p.rollbackError? r = none) : p.checkedUndo r = some (p.undo r) := by
  have hstarts : StartsIn Ittage p.history.register.size r := by
    rw [(h.regular hbuild).register_size]
    exact hr.startsIn
  have hall : (r.contribution?.all fun c =>
      (p.undo r).1.history.register.start = c.checkpoint.start) = true := by
    cases hc : r.contribution? with
    | none => rfl
    | some contribution =>
        have hcheckpoint : checkpoint? Ittage r = some contribution.checkpoint :=
          congrArg (Option.map _) hc
        exact decide_eq_true ((keepsHistory c).position_undo hstarts hrollback hcheckpoint)
  simp [checkedUndo, hall, guard]

/-- No check fails in a predictor of a valid configuration. -/
theorem guarded : Guarded (Descends built) (Record.InRange c) (·.state = .finalized) := by
  obtain ⟨hvalid, -⟩ := build_eq_ok hbuild
  have hready := fun {p : Ittage} (h : Descends built p) =>
    (h.regular hbuild).ladder.ready (c.ladder_of_validate hvalid)
  have hcount := fun {p : Ittage} (h : Descends built p) (b : Branch) =>
    (show (p.config.historyBits b).2 ≤ 64 from
      (h.regular hbuild).config_eq ▸ c.historyBits_le hvalid b)
  refine
    { records := keptRecords hbuild
      definite_finalize := state_finalize
      definite_applied := fun p {r} hdefinite b => (state_apply p r b).trans hdefinite
      accepted := fun h hr => accepts_of_inRange hbuild h hr
      violation_of_rollback := (keepsHistory c).violation_of_rollback
      violation_of_append := fun h => (keepsHistory c).violation_of_append (hcount h _)
      checkedPredict_eq := ?_
      checkedFinalize_eq := ?_
      checkedUndo_eq := fun h hr hrollback => checkedUndo_eq hbuild h hr hrollback
      checkedAppendError?_eq := ?_
      checkedApply_eq := fun _ _ _ => rfl
      checkedConclude_eq := ?_
      checkedReset_eq := fun _ => rfl }
  · intro p h pc isConditional
    simp only [CheckedPredictor.checkedPredict, checkedLookup_eq (hready h)]
    rfl
  · intro p r h pc
    change p.checkedFinalize r pc = some (p.finalize r pc)
    unfold checkedFinalize finalize
    cases r.state with
    | provisional => exact checkedLookup_eq (hready h) pc r.isConditional
    | finalized => rfl
  · intro p h b
    change p.checkedAppendError? b = some (p.appendError? b)
    simp [checkedAppendError?, Ladder.Config.checkedDraw_eq, hcount h b, guard]
  · intro p r h hr hfinalized b
    obtain ⟨hslots, hhit, -⟩ := (h.regular hbuild).ladder.fits (hr.selects hfinalized)
    exact checkedConclude_eq hslots hhit (hready h) b

end Ittage

end BranchPrediction
