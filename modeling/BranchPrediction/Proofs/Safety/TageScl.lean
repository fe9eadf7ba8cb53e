import BranchPrediction.Proofs.Pipeline.Reset
import BranchPrediction.Proofs.Safety.Build
import BranchPrediction.Proofs.Safety.Lookups
import BranchPrediction.Proofs.Safety.Session
import BranchPrediction.Proofs.Safety.Tage

/-!
# Checked steps of TAGE-SC-L

The checked steps of TAGE-SC-L are put together from those of its parts.  Whether a part is there
at all is settled by the configuration; a loop predictor or a corrector that is there stays regular
for its own configuration through every step (`TageScl.Layered`), since a reset makes it anew.  No
check fails in a predictor that was built for a valid configuration, on records whose lookups are
in the range of the configuration (`TageScl.guarded`).
-/

namespace BranchPrediction

/-! ## Optional parts -/

section Parts

variable {α β : Type} {r : α → β → Prop} {x? : Option α} {y? : Option β}

/-- A change of an optional part does what it does to a part that is there. -/
theorem rel_map {γ : Type} {s : α → γ → Prop} (h : Option.Rel r x? y?) {f : β → γ}
    (hf : ∀ x y, r x y → s x (f y)) : Option.Rel s x? (y?.map f) := by
  cases h with
  | some h => exact .some (hf _ _ h)
  | none => exact .none

/-- A relation between parts may use what else is known of the second one. -/
theorem rel_imp {s : α → β → Prop} (h : Option.Rel r x? y?)
    (hs : ∀ x y, y? = some y → r x y → s x y) : Option.Rel s x? y? := by
  cases h with
  | some h => exact .some (hs _ _ rfl h)
  | none => exact .none

theorem exists_left_of_rel (h : Option.Rel r x? y?) {y : β} (hy : y? = some y) :
    ∃ x, x? = some x ∧ r x y := by
  subst hy
  cases h with
  | some h => exact ⟨_, rfl, h⟩

theorem exists_right_of_rel (h : Option.Rel r x? y?) {x : α} (hx : x? = some x) :
    ∃ y, y? = some y ∧ r x y := by
  subst hx
  cases h with
  | some h => exact ⟨_, rfl, h⟩

end Parts

namespace TageScl

/-! ## Checked steps -/

def checkedLookup (p : TageScl) (pc : UInt64) (isConditional : Bool) : Option Record := do
  let tage ← p.tage.checkedPredict pc p.history.path isConditional
  let _ ← p.loops?.mapM (·.checkedConsult pc)
  let primary := (p.lookupLoop pc tage.outcome).2
  let _ ← p.corrector?.mapM
    (·.checkedPredict pc tage.outcome tage.confidence primary p.history.path)
  return p.lookup pc isConditional

def checkedFinalize (p : TageScl) (r : Record) (pc : UInt64) : Option Record :=
  match r.state with
  | .provisional => p.checkedLookup pc r.isConditional
  | .finalized => some r

/-- Draw whether a branch may be given a loop entry, and the first way, of which there must be
one. -/
def checkedDrawLoop (random : Xorshift) (loops : LoopPredictor.Config) : Option Unit := do
  let _ ← RandomSource.ratio? 1 4 random
  guard (loops.ways ≠ 0)

def Config.checkedDraw (c : Config) (random : Xorshift) : Option (Draws × Xorshift) := do
  let (_, drawn) ← c.ladder.checkedDraw random
  let _ ← c.loops?.mapM (checkedDrawLoop drawn)
  return c.draw random

/-- Make the draws of a branch, and answer the reason, if any, not to insert its history. -/
def checkedAppendError? (p : TageScl) (b : Branch) : Option (Option PredictorError) := do
  let _ ← p.config.checkedDraw p.random
  guard ((p.config.historyBits b).2 ≤ 64)
  return p.appendError? b

/-- The loop predictor after a branch has advanced its iteration count. -/
def checkedAdvance (p : TageScl) (r : Record) (b : Branch) : Option (Option LoopPredictor) :=
  if p.advances b then p.loops?.mapM (·.checkedSpeculate r.loop b.taken) else some p.loops?

/-- Make the draws of a branch and insert its history. -/
def checkedApply (p : TageScl) (r : Record) (b : Branch) : Option (TageScl × Record) := do
  let loops? ← p.checkedAdvance r b
  let (applied, r) := p.apply r b
  return ({ applied with loops? }, r)

/-- The loop predictor after the advance of a branch is undone, if it made one. -/
def checkedRestore (p : TageScl) (r : Record) : Option (Option LoopPredictor) :=
  if r.loopAdvanced then p.loops?.mapM (·.checkedRestore r.loop) else some p.loops?

/-- Undo the contribution of a record, which must lead back to where it started. -/
def checkedUndo (p : TageScl) (r : Record) : Option (TageScl × Record) :=
  match r.contribution? with
  | none => some (p, r)
  | some c => do
    let loops? ← p.checkedRestore r
    let (undone, r) := p.undo r
    guard (undone.history.register.start = c.checkpoint.start)
    return ({ undone with loops? }, r)

/-- Train the trust in the loop predictor where it disagreed with the prediction. -/
def checkedTrainTrust (r : Record) (pc : UInt64) (outcome : Direction) (loops : LoopPredictor) :
    Option LoopPredictor :=
  if r.loop.isValid && r.loop.prediction ≠ r.prediction then
    loops.checkedTrainTrust pc (r.loop.prediction = outcome)
  else some loops

def checkedTrainLoops (r : Record) (pc : UInt64) (outcome : Direction) (loops : LoopPredictor) :
    Option LoopPredictor := do
  let loops ← checkedTrainTrust r pc outcome loops
  loops.checkedCommit r.loop outcome r.tage.outcome (r.prediction ≠ outcome)
    r.draws.loopAllocation r.draws.loopWay

def checkedTrain (p : TageScl) (r : Record) (pc : UInt64) (outcome : Direction) :
    Option TageScl := do
  let corrector? ← p.corrector?.mapM (·.checkedCommit r.corrector outcome)
  let loops? ← p.loops?.mapM (checkedTrainLoops r pc outcome)
  let tage ← p.tage.checkedCommit r.tage outcome r.prediction r.draws.allocationSkip
  return ⟨p.config, tage, loops?, corrector?, p.history, p.random, p.stats.record r outcome⟩

def checkedConclude (p : TageScl) (r : Record) (b : Branch) : Option TageScl :=
  if b.kind.isConditional then (p.checkedTrain r b.pc b.taken).map (·.retire r)
  else some (p.retire r)

def checkedReset (p : TageScl) : Option TageScl := do
  let loops? ← p.loops?.mapM fun loops => LoopPredictor.checkedBlank loops.config
  let corrector? ← p.corrector?.mapM fun corrector => Corrector.checkedBlank corrector.config
  return { p.reset with loops?, corrector? }

instance : CheckedPredictor TageScl where
  checkedPredict p pc isConditional := do
    let r ← p.checkedLookup pc isConditional
    return (r.prediction, r)
  checkedFinalize := checkedFinalize
  checkedUndo := checkedUndo
  checkedAppendError? := checkedAppendError?
  checkedApply := checkedApply
  checkedConclude := checkedConclude
  checkedReset := checkedReset

/-! ## Predictors and records of a configuration -/

/-- The loop predictor and the corrector are there if they are configured, with counters of the
configured ranges. -/
structure Layered (c : Config) (p : TageScl) : Prop where
  loops : Option.Rel LoopPredictor.Regular c.loops? p.loops?
  corrector : Option.Rel Corrector.Ranged c.corrector? p.corrector?

/-- The tables have the sizes of the configuration, and counters of the configured ranges; there is
a loop predictor or a corrector if one is configured. -/
structure Regular (c : Config) (p : TageScl) : Prop where
  config_eq : p.config = c
  base : p.tage.base.Regular c.base
  ladder : p.tage.ladder.Regular c.ladder
  loops : Option.Rel LoopPredictor.Regular c.loops? p.loops?
  corrector : Option.Rel Corrector.Regular c.corrector? p.corrector?
  register_size : p.history.register.size = c.ladder.historyBufferBits

/-- A lookup, if there was one, is in the range of the tables, and a contribution starts in the
register. -/
structure Record.InRange (c : Config) (r : Record) : Prop where
  tage : r.state = .finalized → r.tage.InRange c.base c.ladder
  loop : ∀ loops, c.loops? = some loops → LoopPredictor.Selects loops r.loop
  corrector : r.state = .finalized → ∀ corrector, c.corrector? = some corrector →
    Corrector.Selects corrector r.corrector
  startsIn : StartsIn TageScl c.ladder.historyBufferBits r

/-! ## What every step keeps -/

open SpeculativeHistory

theorem regular_trainLoops {c : LoopPredictor.Config} {loops : LoopPredictor}
    (h : loops.Regular c) (r : Record) (pc : UInt64) (outcome : Direction) :
    (trainLoops r pc outcome loops).Regular c := by
  unfold trainLoops
  simp only
  split
  · exact (h.trainTrust pc _).commit _ _ _ _ _ _
  · exact h.commit _ _ _ _ _ _

theorem ranged_views {c? : Option Corrector.Config} {views moved : Tage × Option Corrector}
    (h : Option.Rel Corrector.Ranged c? views.2) {g : FoldedHistory → FoldedHistory}
    (hmoved : moved = mapFolds g views) : Option.Rel Corrector.Ranged c? moved.2 := by
  rw [hmoved]
  exact rel_map h fun _ _ hranged => hranged.mapFolds g

theorem kept_layered (c : Config) : Kept (Layered c) where
  apply {p} h r b := by
    change Layered c (apply p r b).1
    obtain ⟨g, -, hviews⟩ : ∃ g, KeepsShape g ∧ (p.appended b).2.2 = mapFolds g p.views :=
      exists_append_views _ _ _ _ _
    constructor
    · rw [loops?_apply]
      split
      · exact rel_map h.loops fun _ _ hregular => hregular.speculate r.loop b.taken
      · exact h.loops
    · rw [apply_eq]
      exact ranged_views h.corrector hviews
  undo {p} h r := by
    change Layered c (undo p r).1
    cases hc : r.contribution? with
    | none => rwa [undo_of_none p hc]
    | some contribution =>
        obtain ⟨g, -, hviews⟩ := exists_rollback_views p.history contribution.checkpoint p.views
        constructor
        · rw [loops?_undo p hc]
          split
          · exact rel_map h.loops fun _ _ hregular => hregular.restore r.loop
          · exact h.loops
        · rw [undo_eq p hc]
          exact ranged_views h.corrector hviews
  conclude {p} h r b := by
    change Layered c (conclude p r b)
    constructor
    · rw [loops?_conclude]
      split
      · exact rel_map h.loops fun _ _ hregular => regular_trainLoops hregular r b.pc b.taken
      · exact h.loops
    · rw [conclude_eq]
      simp only [concluded]
      split
      · exact rel_map h.corrector fun _ _ hranged => hranged.commit r.corrector b.taken
      · exact h.corrector
  countRepair h := ⟨h.loops, h.corrector⟩
  reset {p} h := by
    change Layered c p.reset
    rcases p with ⟨config, tage, loops?, corrector?, history, random, stats⟩
    exact ⟨rel_map h.loops fun _ _ hregular => hregular.reset,
      rel_map h.corrector fun _ _ hranged => hranged.reset⟩

/-- The predictor is one that the built one may become. -/
def Descends (c : Config) (built p : TageScl) : Prop :=
  Forgets built p ∧ Whole c p ∧ Layered c p ∧
    (HistoryKeeper.history p).dimensions = (HistoryKeeper.history built).dimensions

theorem kept_descends (c : Config) (built : TageScl) : Kept (Descends c built) :=
  (kept_forgets built).and ((kept_whole c).and ((kept_layered c).and
    ((keepsHistory c).kept_dimensions _)))

/-- What a record keeps of its lookup. -/
def Record.lookups (r : Record) :
    RecordState × Tage.Prediction × LoopPredictor.Lookup × Corrector.Lookup :=
  (r.state, r.tage, r.loop, r.corrector)

theorem lookups_apply (p : TageScl) (r : Record) (b : Branch) :
    (apply p r b).2.lookups = r.lookups := by
  rw [apply_eq]
  rfl

theorem lookups_undo (p : TageScl) (r : Record) : (undo p r).2.lookups = r.lookups := by
  cases hc : r.contribution? with
  | none => rw [undo_of_none p hc]
  | some c =>
      rw [undo_eq p hc]
      rfl

theorem Record.InRange.of_lookups {c : Config} {r r' : Record} (h : r.InRange c)
    (hlookups : r'.lookups = r.lookups)
    (hstarts : StartsIn TageScl c.ladder.historyBufferBits r') : r'.InRange c := by
  obtain ⟨hstate, hlookups⟩ := Prod.mk.inj hlookups
  obtain ⟨htage, hlookups⟩ := Prod.mk.inj hlookups
  obtain ⟨hloop, hcorrector⟩ := Prod.mk.inj hlookups
  refine ⟨?_, ?_, ?_, hstarts⟩
  · rw [hstate, htage]
    exact h.tage
  · rw [hloop]
    exact h.loop
  · rw [hstate, hcorrector]
    exact h.corrector

section Built

variable {c : Config} {built p : TageScl} (hbuild : c.build = .ok built)

include hbuild

theorem descends_build : Descends c built built := by
  refine ⟨⟨rfl, rfl, rfl, rfl⟩, (fits_build hbuild).sound, ?_, rfl⟩
  obtain ⟨-, -, history, -, rfl⟩ := exists_of_build hbuild
  constructor
  · cases c.loops? with
    | none => exact .none
    | some loops => exact .some (.blank loops)
  · cases c.corrector? with
    | none => exact .none
    | some corrector => exact .some (.blank corrector)

theorem Descends.regular (h : Descends c built p) : p.Regular c := by
  obtain ⟨⟨hconfig, htage, -, -⟩, ⟨hsound, -⟩, ⟨hloops, hcorrector⟩, hdimensions⟩ := h
  obtain ⟨-, -, history, hcreate, rfl⟩ := exists_of_build hbuild
  obtain ⟨-, hsize, rfl⟩ := create_eq_ok hcreate
  have htage : p.tage.reset = .blank c.base c.ladder := htage.trans (Tage.reset_blank _ _)
  refine ⟨hconfig, Bimodal.regular_of_reset (congrArg Tage.base htage),
    Ladder.regular_of_reset (congrArg Tage.ladder htage), hloops, ?_,
    (congrArg Prod.fst hdimensions).trans (HistoryRegister.size_zeros _ hsize)⟩
  exact rel_imp hcorrector fun _ k hk hranged => (hsound.shaped k hk).regular hranged

theorem inRange_lookup (h : Descends c built p) (pc : UInt64) (isConditional : Bool) :
    (p.lookup pc isConditional).InRange c := by
  obtain ⟨hvalid, -⟩ := build_eq_ok hbuild
  have hregular := h.regular hbuild
  refine ⟨fun _ => ?_, ?_, fun _ => ?_, fun _ hcheckpoint => by cases hcheckpoint⟩
  · exact Tage.inRange_predict hregular.base hregular.ladder (c.base_of_validate hvalid)
      (c.parts_of_validate hvalid).1 pc p.history.path isConditional
  · intro config hconfig
    obtain ⟨loops, hloops, hpart⟩ := exists_right_of_rel hregular.loops hconfig
    have hselects := (hpart.ready (c.loops_of_validate hvalid hconfig)).selects_lookup pc
    change LoopPredictor.Selects config (p.lookupLoop pc _).1
    rw [lookupLoop, hloops, ← hpart.config_eq]
    exact hselects
  · intro config hconfig
    obtain ⟨corrector, hcorrector, hpart⟩ := exists_right_of_rel hregular.corrector hconfig
    change Corrector.Selects config (p.lookupCorrector pc _ _)
    rw [lookupCorrector, hcorrector]
    exact hpart.selects_predict (h.2.1.1.shaped corrector hcorrector) pc _ _ _ p.history.path

theorem startsIn_apply (h : Descends c built p) (r : Record) (b : Branch) :
    StartsIn TageScl c.ladder.historyBufferBits (apply p r b).2 := by
  have hstarts := (keepsHistory c).startsIn_applied (p := p) (r := r) b
  rwa [show (HistoryKeeper.history p).register.size = c.ladder.historyBufferBits from
    (h.regular hbuild).register_size] at hstarts

theorem keptRecords : KeptRecords (Descends c built) (Record.InRange c) where
  kept := kept_descends c built
  made {p} h predicted pc isConditional := by
    cases predicted with
    | true => exact inRange_lookup hbuild h pc isConditional
    | false =>
        -- an advance does not ask whether the loop was looked up, so the default has to be in range
        refine ⟨fun hfinalized => ?_, fun loops _ => ?_, fun hfinalized => ?_,
          fun _ hcheckpoint => ?_⟩
        · cases hfinalized
        · exact LoopPredictor.selects_default loops
        · cases hfinalized
        · cases hcheckpoint
  finalized {p r} h hr pc := by
    change (p.finalize r pc).InRange c
    unfold finalize
    split
    · exact inRange_lookup hbuild h pc r.isConditional
    · exact hr
  applied {p r} h hr b := hr.of_lookups (lookups_apply p r b) (startsIn_apply hbuild h r b)
  undone {p r} h hr := hr.of_lookups (lookups_undo p r) ((keepsHistory c).startsIn_undone _)

end Built

/-! ## No check fails -/

theorem checkedTrainLoops_eq {r : Record} {loops : LoopPredictor} (hready : loops.Ready)
    (hroom : loops.config.hasRoom = true) (hselects : LoopPredictor.Selects loops.config r.loop)
    (pc : UInt64) (outcome : Direction) :
    checkedTrainLoops r pc outcome loops = some (trainLoops r pc outcome loops) := by
  unfold checkedTrainLoops checkedTrainTrust trainLoops
  simp only
  split
  · rw [hready.checkedTrainTrust_eq]
    exact (hready.trainTrust pc _).checkedCommit_eq hroom hselects _ _ _ _ _
  · exact hready.checkedCommit_eq hroom hselects _ _ _ _ _

section Built

variable {c : Config} {built p : TageScl} (hbuild : c.build = .ok built)

include hbuild

/-- The loop predictor is ready, and its indices are words that do not wrap around. -/
theorem ready_loops (h : Descends c built p) {loops : LoopPredictor}
    (hloops : p.loops? = some loops) : loops.Ready ∧ loops.config.hasRoom = true := by
  obtain ⟨hvalid, hroom, -⟩ := exists_of_build hbuild
  obtain ⟨config, hconfig, hpart⟩ := exists_left_of_rel (h.regular hbuild).loops hloops
  refine ⟨hpart.ready (c.loops_of_validate hvalid hconfig), ?_⟩
  rw [hpart.config_eq]
  exact (c.parts_of_hasRoom hroom).2 config hconfig

theorem checkedLookup_eq (h : Descends c built p) (pc : UInt64) (isConditional : Bool) :
    p.checkedLookup pc isConditional = some (p.lookup pc isConditional) := by
  obtain ⟨hvalid, -⟩ := build_eq_ok hbuild
  have hregular := h.regular hbuild
  have hready := hregular.ladder.ready (c.parts_of_validate hvalid).1
  have hloops : p.loops?.mapM (·.checkedConsult pc) = some (p.loops?.map (·.lookup pc)) := by
    refine mapM_eq_some fun loops hloops => ?_
    obtain ⟨hready, hroom⟩ := ready_loops hbuild h hloops
    exact hready.checkedConsult_eq hroom pc
  have hcorrector : ∀ (outcome : Direction) (confidence : Confidence) (primary : Direction),
      p.corrector?.mapM (·.checkedPredict pc outcome confidence primary p.history.path) =
        some (p.corrector?.map (·.predict pc outcome confidence primary p.history.path)) := by
    intro outcome confidence primary
    refine mapM_eq_some fun corrector hcorrector => ?_
    exact (h.2.1.1.shaped corrector hcorrector).checkedPredict_eq pc _ _ primary p.history.path
  simp only [checkedLookup, Tage.checkedPredict_eq hready, hloops, hcorrector,
    Option.bind_eq_bind, Option.bind_some]
  rfl

theorem checkedDraw_eq (random : Xorshift) : c.checkedDraw random = some (c.draw random) := by
  obtain ⟨hvalid, -⟩ := build_eq_ok hbuild
  have hloops : ∀ drawn : Xorshift,
      c.loops?.mapM (checkedDrawLoop drawn) = some (c.loops?.map fun _ => ()) := by
    intro drawn
    refine mapM_eq_some fun loops hloops => ?_
    obtain ⟨hways, -⟩ := loops.sizes_of_validate (c.loops_of_validate hvalid hloops)
    simp [checkedDrawLoop, RandomSource.ratio?, hways, guard]
  simp only [Config.checkedDraw, Ladder.Config.checkedDraw_eq, hloops, Option.bind_eq_bind,
    Option.bind_some]
  rfl

section Records

variable {r : Record} (h : Descends c built p) (hr : r.InRange c)

include h hr

theorem fits_of_finalized (hfinalized : r.state = .finalized) :
    p.tage.fits r.tage = true ∧
      ∀ corrector, p.corrector? = some corrector → corrector.fits r.corrector = true := by
  have hregular := h.regular hbuild
  constructor
  · obtain ⟨hslots, hhit, halt⟩ := hregular.ladder.fits (hr.tage hfinalized).selects
    rw [Tage.fits, hslots, hhit, halt]
    rfl
  · intro corrector hcorrector
    obtain ⟨config, hconfig, hpart⟩ := exists_left_of_rel hregular.corrector hcorrector
    exact hpart.fits (hr.corrector hfinalized config hconfig)

theorem accepts_of_inRange : p.accepts r = true := by
  unfold accepts
  cases hstate : r.state with
  | provisional => rfl
  | finalized =>
      obtain ⟨htage, hcorrector⟩ := fits_of_finalized hbuild h hr hstate
      have hloops : p.loops?.all (·.fits r.loop) = true := by
        rw [Option.all_eq_true]
        intro loops hloops
        obtain ⟨config, hconfig, hpart⟩ := exists_left_of_rel (h.regular hbuild).loops hloops
        exact hpart.fits (hr.loop config hconfig)
      rw [htage, hloops, (Option.all_eq_true _ _).2 hcorrector]
      rfl

theorem selects_loops {loops : LoopPredictor} (hloops : p.loops? = some loops) :
    LoopPredictor.Selects loops.config r.loop := by
  obtain ⟨config, hconfig, hpart⟩ := exists_left_of_rel (h.regular hbuild).loops hloops
  rw [hpart.config_eq]
  exact hr.loop config hconfig

theorem checkedApply_eq (b : Branch) : p.checkedApply r b = some (p.apply r b) := by
  have hadvance : p.checkedAdvance r b = some (apply p r b).1.loops? := by
    rw [loops?_apply]
    unfold checkedAdvance
    split
    · refine mapM_eq_some fun loops hloops => ?_
      exact (ready_loops hbuild h hloops).1.checkedSpeculate_eq (selects_loops hbuild h hr hloops)
        b.taken
    · rfl
  rw [checkedApply, hadvance]
  rfl

theorem checkedUndo_eq (hrollback : p.rollbackError? r = none) :
    p.checkedUndo r = some (p.undo r) := by
  have hstarts : StartsIn TageScl p.history.register.size r := by
    rw [(h.regular hbuild).register_size]
    exact hr.startsIn
  unfold checkedUndo
  cases hc : r.contribution? with
  | none => rw [undo_of_none p hc]
  | some contribution =>
      have hrestore : p.checkedRestore r = some (undo p r).1.loops? := by
        rw [loops?_undo p hc]
        unfold checkedRestore
        split
        · refine mapM_eq_some fun loops hloops => ?_
          exact (ready_loops hbuild h hloops).1.checkedRestore_eq
            (selects_loops hbuild h hr hloops)
        · rfl
      have hcheckpoint : checkpoint? TageScl r = some contribution.checkpoint :=
        congrArg (Option.map _) hc
      have hposition : (undo p r).1.history.register.start = contribution.checkpoint.start :=
        (keepsHistory c).position_undo hstarts hrollback hcheckpoint
      simp [hrestore, hposition, guard]

theorem checkedTrain_eq (hfinalized : r.state = .finalized) (pc : UInt64) (outcome : Direction) :
    p.checkedTrain r pc outcome = some (p.train r pc outcome) := by
  obtain ⟨hvalid, -⟩ := build_eq_ok hbuild
  have hready := (h.regular hbuild).ladder.ready (c.parts_of_validate hvalid).1
  obtain ⟨htage, hfits⟩ := fits_of_finalized hbuild h hr hfinalized
  have hcorrector : p.corrector?.mapM (·.checkedCommit r.corrector outcome) =
      some (p.corrector?.map (·.commit r.corrector outcome)) :=
    mapM_eq_some fun corrector hcorrector =>
      Corrector.checkedCommit_eq (hfits corrector hcorrector) outcome
  have hloops : p.loops?.mapM (checkedTrainLoops r pc outcome) =
      some (p.loops?.map (trainLoops r pc outcome)) := by
    refine mapM_eq_some fun loops hloops => ?_
    obtain ⟨hready, hroom⟩ := ready_loops hbuild h hloops
    exact checkedTrainLoops_eq hready hroom (selects_loops hbuild h hr hloops) pc outcome
  simp only [checkedTrain, hcorrector, hloops, Tage.checkedCommit_eq htage hready,
    Option.bind_eq_bind, Option.bind_some]
  rfl

theorem checkedConclude_eq (hfinalized : r.state = .finalized) (b : Branch) :
    p.checkedConclude r b = some (p.conclude r b) := by
  unfold checkedConclude conclude
  split
  · rw [checkedTrain_eq hbuild h hr hfinalized]
    rfl
  · rfl

end Records

theorem checkedReset_eq (h : Descends c built p) : p.checkedReset = some p.reset := by
  obtain ⟨hvalid, hroom, -⟩ := exists_of_build hbuild
  have hregular := h.regular hbuild
  have hloops : p.loops?.mapM (fun loops => LoopPredictor.checkedBlank loops.config) =
      some (p.loops?.map LoopPredictor.reset) := by
    refine mapM_eq_some fun loops hloops => ?_
    obtain ⟨config, hconfig, hpart⟩ := exists_left_of_rel hregular.loops hloops
    rw [LoopPredictor.reset, hpart.config_eq]
    exact LoopPredictor.checkedBlank_eq (c.loops_of_validate hvalid hconfig)
      ((c.parts_of_hasRoom hroom).2 config hconfig)
  have hcorrector : p.corrector?.mapM (fun corrector => Corrector.checkedBlank corrector.config) =
      some (p.corrector?.map Corrector.reset) := by
    refine mapM_eq_some fun corrector hcorrector => ?_
    obtain ⟨config, hconfig, hpart⟩ := exists_left_of_rel hregular.corrector hcorrector
    rw [Corrector.reset, hpart.config_eq]
    exact Corrector.checkedBlank_eq ((c.parts_of_validate hvalid).2 config hconfig)
  rw [checkedReset, hloops, hcorrector]
  rfl

theorem guarded : Guarded (Descends c built) (Record.InRange c) (·.state = .finalized) := by
  have hcount := fun (p : TageScl) (b : Branch) => p.config.historyBits_le b
  refine
    { records := keptRecords hbuild
      definite_finalize := state_finalize
      definite_applied := fun p {r} hdefinite b =>
        (congrArg Prod.fst (lookups_apply p r b)).trans hdefinite
      accepted := fun h hr => accepts_of_inRange hbuild h hr
      violation_of_rollback := (keepsHistory c).violation_of_rollback
      violation_of_append := fun _ => (keepsHistory c).violation_of_append (hcount _ _)
      checkedPredict_eq := ?_
      checkedFinalize_eq := ?_
      checkedUndo_eq := fun h hr hrollback => checkedUndo_eq hbuild h hr hrollback
      checkedAppendError?_eq := ?_
      checkedApply_eq := fun h hr b => checkedApply_eq hbuild h hr b
      checkedConclude_eq := fun h hr hfinalized b => checkedConclude_eq hbuild h hr hfinalized b
      checkedReset_eq := fun h => checkedReset_eq hbuild h }
  · intro p h pc isConditional
    simp only [CheckedPredictor.checkedPredict, checkedLookup_eq hbuild h]
    rfl
  · intro p r h pc
    change p.checkedFinalize r pc = some (p.finalize r pc)
    unfold checkedFinalize finalize
    cases r.state with
    | provisional => exact checkedLookup_eq hbuild h pc r.isConditional
    | finalized => rfl
  · intro p h b
    have hdraw := checkedDraw_eq hbuild p.random
    rw [← (h.regular hbuild).config_eq] at hdraw
    change p.checkedAppendError? b = some (p.appendError? b)
    simp [checkedAppendError?, hdraw, hcount p b, guard]

end Built

end TageScl

end BranchPrediction
