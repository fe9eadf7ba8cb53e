import BranchPrediction.Tage
import BranchPrediction.Proofs.Learning.Ladder

/-!
# Learning beside the folds: TAGE

The folds of TAGE are those of its ladder.  A commit trains counters, allocates and ages, and is
blind to the folds as a whole (`foldBlind_commit`).  A prediction fits the tables that it was made
from (`fits_predict`), and it keeps fitting them while they learn.
-/

namespace BranchPrediction

namespace Tage

instance : FoldFamily Tage where
  folds t := folds t.ladder
  mapFolds g t := ⟨t.base, mapFolds g t.ladder⟩
  folds_mapFolds g t := FoldFamily.folds_mapFolds g t.ladder
  mapFolds_mapFolds g k t := by rw [FoldFamily.mapFolds_mapFolds]
  mapFolds_eq_self {g t} h := by
    rcases t with ⟨base, ladder⟩
    exact congrArg (Tage.mk base) (FoldFamily.mapFolds_eq_self h)
  pushed_eq r t := by
    rcases t with ⟨base, ladder⟩
    exact congrArg (Tage.mk base) (FoldFamily.pushed_eq r ladder)
  popping_eq r t := by
    rcases t with ⟨base, ladder⟩
    exact congrArg (Tage.mk base) (FoldFamily.popping_eq r ladder)

theorem foldBlind_modifyLadder {change : Ladder SignOnly → Ladder SignOnly}
    (h : FoldBlind change) : FoldBlind (fun t : Tage => t.modifyLadder change) where
  folds_eq t := h.folds_eq t.ladder
  mapFolds_eq g t := congrArg (Tage.mk t.base) (h.mapFolds_eq g t.ladder)

theorem foldBlind_trainBase (index : Nat) (outcome : Direction) :
    FoldBlind (fun t : Tage => t.trainBase index outcome) :=
  ⟨fun _ => rfl, fun _ _ => rfl⟩

theorem foldBlind_trainFallback (p : Prediction) (outcome : Direction) :
    FoldBlind (fun t : Tage => t.trainFallback p outcome) := by
  unfold trainFallback
  cases p.alt? with
  | none => exact foldBlind_trainBase p.baseIndex outcome
  | some bank => exact foldBlind_modifyLadder (Ladder.foldBlind_modifyEntry p.slots bank _)

theorem foldBlind_trainUseAlt (p : Prediction) (outcome : Direction) :
    FoldBlind (fun t : Tage => t.trainUseAlt p outcome) := by
  unfold trainUseAlt
  cases p.hit? with
  | none => exact .id
  | some bank =>
      refine .cond (fun _ _ => Iff.rfl) ?_ .id
      exact foldBlind_modifyLadder (Ladder.foldBlind_trainUseAlt bank _ _)

theorem foldBlind_allocate (p : Prediction) (outcome finalOutcome : Direction) (skip : Bool) :
    FoldBlind (fun t : Tage => t.allocate p outcome finalOutcome skip) := by
  unfold allocate
  refine .cond (fun _ _ => Iff.rfl) ?_ .id
  exact foldBlind_modifyLadder (Ladder.foldBlind_allocate p.slots p.hit? skip SignOnly.mk _)

theorem foldBlind_trainCounters (p : Prediction) (outcome : Direction) :
    FoldBlind (fun t : Tage => t.trainCounters p outcome) := by
  unfold trainCounters
  cases p.hit? with
  | none => exact foldBlind_trainBase p.baseIndex outcome
  | some bank =>
      have hconfidence := foldBlind_modifyLadder
        (Ladder.foldBlind_modifyEntry p.slots bank (·.stepConfidence outcome.isTaken))
      have huseful := foldBlind_modifyLadder
        (Ladder.foldBlind_trainUseful p.slots bank (p.longestOutcome = outcome))
      have hend : FoldBlind fun t : Tage =>
          if p.longestOutcome ≠ p.altOutcome then
            t.modifyLadder (·.trainUseful p.slots bank (p.longestOutcome = outcome))
          else t :=
        .cond (fun _ _ => Iff.rfl) huseful .id
      -- whether the entry is useless is read before anything is trained
      refine (FoldBlind.cond ?_ (hconfidence.comp (foldBlind_trainFallback p outcome))
        hconfidence).comp hend
      intro g t
      have hentry : Ladder.entry? (mapFolds g t).ladder p.slots bank =
          t.ladder.entry? p.slots bank := Ladder.entry?_mapFolds g t.ladder p.slots bank
      rw [hentry]

theorem foldBlind_commit (p : Prediction) (outcome finalOutcome : Direction) (skip : Bool) :
    FoldBlind (fun t : Tage => t.commit p outcome finalOutcome skip) := by
  have hrecord := foldBlind_modifyLadder
    (Ladder.foldBlind_record p.source p.hit? (p.outcome = outcome))
  have hlearn := (hrecord.comp (foldBlind_trainUseAlt p outcome)).comp
    (foldBlind_allocate p outcome finalOutcome skip)
  exact (hlearn.comp (foldBlind_trainCounters p outcome)).comp
    (foldBlind_modifyLadder Ladder.foldBlind_tick)

theorem fits_mapFolds (g : FoldedHistory → FoldedHistory) (t : Tage) (p : Prediction) :
    (mapFolds g t).fits p = t.fits p := by
  have hsize : (mapFolds g t).ladder.size = t.ladder.size := t.ladder.size_mapFolds g
  simp only [fits, Ladder.fits, Ladder.hasBank, hsize]

/-- A prediction keeps fitting the tables while they learn from others. -/
theorem fits_commit (t : Tage) (p : Prediction) (outcome finalOutcome : Direction) (skip : Bool)
    (other : Prediction) :
    (t.commit p outcome finalOutcome skip).fits other = t.fits other := by
  have hfolds := (foldBlind_commit p outcome finalOutcome skip).folds_eq t
  have hlength := congrArg List.length hfolds
  change (folds (t.commit p outcome finalOutcome skip).ladder).length = (folds t.ladder).length
    at hlength
  rw [Ladder.length_folds, Ladder.length_folds] at hlength
  have hsize : (t.commit p outcome finalOutcome skip).ladder.size = t.ladder.size := by omega
  simp only [fits, Ladder.fits, Ladder.hasBank, hsize]

theorem fits_predict (t : Tage) (pc : UInt64) (path : PathHistory) (conditional : Bool) :
    t.fits (t.predict pc path conditional) = true := by
  obtain ⟨hhit, halt⟩ := t.ladder.hasBank_findMatches (t.ladder.slots pc path)
  have hslots := t.ladder.fits_slots pc path
  have hfields : (t.predict pc path conditional).slots = t.ladder.slots pc path ∧
      (t.predict pc path conditional).hit? =
        (t.ladder.findMatches (t.ladder.slots pc path)).1 ∧
      (t.predict pc path conditional).alt? =
        (t.ladder.findMatches (t.ladder.slots pc path)).2 := by
    simp only [predict]
    generalize t.ladder.findMatches (t.ladder.slots pc path) = found
    obtain ⟨hit?, alt?⟩ := found
    cases hit? with
    | none => exact ⟨rfl, rfl, rfl⟩
    | some bank =>
        simp only
        cases t.ladder.entry? (t.ladder.slots pc path) bank with
        | none => exact ⟨rfl, rfl, rfl⟩
        | some e =>
            simp only
            cases e.isPseudoNew && t.ladder.prefersAlt bank conditional with
            | true => exact ⟨rfl, rfl, rfl⟩
            | false => exact ⟨rfl, rfl, rfl⟩
  obtain ⟨heqSlots, heqHit, heqAlt⟩ := hfields
  rw [fits, heqSlots, heqHit, heqAlt, hslots, hhit, halt]
  rfl

end Tage

end BranchPrediction
