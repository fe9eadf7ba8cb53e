import BranchPrediction.Proofs.Learning.Ittage
import BranchPrediction.Proofs.Learning.Tage

/-!
# Readings that training leaves alone

A commit counts its prediction, trains, and then counts itself.  A reading of a ladder is *steady*
if no step of the training changes it (`Ladder.Steady`).  What a steady reading sees of a commit is
only that the prediction and the commit were counted (`Tage.exists_trained_commit`,
`Ittage.exists_trained_learn`).
-/

namespace BranchPrediction

variable {P α : Type}

/-- A change of the statistics that counts neither predictions nor commits. -/
def LadderStats.Incidental (f : LadderStats → LadderStats) : Prop :=
  ∀ s, (f s).correct = s.correct ∧ (f s).wrong = s.wrong ∧ (f s).commits = s.commits

namespace Ladder

/-- A reading that does not depend on entries, use-alt-on-new counters and incidental counts. -/
structure Steady (reading : Ladder P → α) : Prop where
  modifyEntry : ∀ (l : Ladder P) (slots : Array Slot) (bank : Nat)
    (f : TaggedEntry P → TaggedEntry P), reading (l.modifyEntry slots bank f) = reading l
  trainUseAlt : ∀ (l : Ladder P) (bank : Nat) (conditional altCorrect : Bool),
    reading (l.trainUseAlt bank conditional altCorrect) = reading l
  modifyStats : ∀ (l : Ladder P) {f : LadderStats → LadderStats}, LadderStats.Incidental f →
    reading (l.modifyStats f) = reading l

namespace Steady

variable {reading : Ladder P → α}

theorem allocateAmong (hsteady : Steady reading) (slots : Array Slot) (confidence : Int)
    (payload : P) (banks : List Nat) (l : Ladder P) :
    reading (Ladder.allocateAmong slots confidence payload banks l).1 = reading l := by
  induction banks generalizing l with
  | nil => rfl
  | cons bank rest ih =>
      rw [Ladder.allocateAmong]
      split
      · split
        · exact hsteady.modifyEntry l slots bank _
        · rw [ih, trainUseful, hsteady.modifyEntry]
      · exact ih l

theorem allocate (hsteady : Steady reading) (l : Ladder P) (slots : Array Slot)
    (hit? : Option Nat) (skip : Bool) (payload : P) (confidence : Int) :
    reading (l.allocate slots hit? skip payload confidence).1 = reading l := by
  unfold Ladder.allocate
  split
  · rfl
  · next bank rest _ =>
      have hscan := hsteady.allocateAmong slots confidence payload (bank :: rest) l
      split
      · next after received hend =>
          rw [hend] at hscan
          dsimp only
          rw [hsteady.modifyStats, hscan]
          exact fun _ => ⟨rfl, rfl, rfl⟩
      · next after hend =>
          rw [hend] at hscan
          dsimp only
          rw [hsteady.modifyStats, hscan]
          exact fun _ => ⟨rfl, rfl, rfl⟩

end Steady

end Ladder

/-! ## TAGE -/

namespace Tage

open Ladder

theorem ladder_modifyLadder (t : Tage) (f : Ladder SignOnly → Ladder SignOnly) :
    (t.modifyLadder f).ladder = f t.ladder :=
  rfl

section Training

variable {reading : Ladder SignOnly → α} (hsteady : Steady reading) (t : Tage) (p : Prediction)
  (outcome : Direction)

include hsteady

theorem reading_trainFallback :
    reading (t.trainFallback p outcome).ladder = reading t.ladder := by
  unfold trainFallback
  split
  · exact hsteady.modifyEntry t.ladder _ _ _
  · rfl

theorem reading_trainUseAlt : reading (t.trainUseAlt p outcome).ladder = reading t.ladder := by
  unfold trainUseAlt
  split
  · split
    · exact hsteady.trainUseAlt t.ladder _ _ _
    · rfl
  · rfl

theorem reading_allocate (finalOutcome : Direction) (skip : Bool) :
    reading (t.allocate p outcome finalOutcome skip).ladder = reading t.ladder := by
  unfold allocate
  split
  · exact hsteady.allocate t.ladder _ _ _ _ _
  · rfl

theorem reading_trainCounters :
    reading (t.trainCounters p outcome).ladder = reading t.ladder := by
  unfold trainCounters
  split
  · rfl
  · next bank _ =>
      set trained := t.modifyLadder
        (·.modifyEntry p.slots bank (·.stepConfidence outcome.isTaken))
      have hconfidence : reading trained.ladder = reading t.ladder :=
        hsteady.modifyEntry t.ladder _ _ _
      -- whether the entry was useless decides no more than whether the fallback is trained
      have hfallback : ∀ (useless : Prop) [Decidable useless],
          reading (if useless then trained.trainFallback p outcome else trained).ladder =
            reading t.ladder := by
        intro useless _
        split
        · rw [reading_trainFallback hsteady, hconfidence]
        · exact hconfidence
      simp only
      split
      · rw [ladder_modifyLadder, trainUseful, hsteady.modifyEntry]
        exact hfallback _
      · exact hfallback _

/-- What a steady reading sees of a commit: TAGE counts its own prediction, and the commit. -/
theorem exists_trained_commit (finalOutcome : Direction) (skip : Bool) :
    ∃ trained, (t.commit p outcome finalOutcome skip).ladder = trained.tick ∧
      reading trained = reading (t.ladder.record p.source p.hit? (p.outcome = outcome)) := by
  refine ⟨_, rfl, (reading_trainCounters hsteady _ p outcome).trans ?_⟩
  rw [reading_allocate hsteady, reading_trainUseAlt hsteady, ladder_modifyLadder]

end Training

end Tage

/-! ## ITTAGE -/

namespace Ittage

open Ladder

section Training

variable {reading : Ladder Target → α} (hsteady : Steady reading) (l : Lookup) (target : UInt64)
  (ladder : Ladder Target)

include hsteady

theorem reading_trainUseAlt : reading (trainUseAlt l target ladder) = reading ladder := by
  unfold trainUseAlt
  split
  · rfl
  · split
    · exact hsteady.trainUseAlt ladder _ _ _
    · rfl

theorem reading_trainConfidence (bank : Nat) :
    reading (trainConfidence l bank target ladder) = reading ladder := by
  unfold trainConfidence
  split
  · exact hsteady.modifyEntry ladder _ _ _
  · split
    · refine (hsteady.modifyStats _ ?_).trans (hsteady.modifyEntry ladder _ _ _)
      exact fun _ => ⟨rfl, rfl, rfl⟩
    · exact hsteady.modifyEntry ladder _ _ _

theorem reading_trainLongest : reading (trainLongest l target ladder) = reading ladder := by
  unfold trainLongest
  split
  · rfl
  · simp only
    split
    · rw [trainUseful, hsteady.modifyEntry, reading_trainConfidence hsteady]
    · exact reading_trainConfidence hsteady l target ladder _

/-- What a steady reading sees of a commit: ITTAGE counts its prediction, and the commit.  A missing
prediction is a wrong one. -/
theorem exists_trained_learn (r : Record) :
    ∃ trained, learn r target ladder = trained.tick ∧
      reading trained = reading (ladder.record r.lookup.source r.lookup.hit?
        (r.lookup.target? = some target)) := by
  refine ⟨_, rfl, ?_⟩
  rw [reading_trainLongest hsteady]
  split
  · exact reading_trainUseAlt hsteady _ _ _
  · rw [hsteady.allocate, reading_trainUseAlt hsteady]

end Training

end Ittage

end BranchPrediction
