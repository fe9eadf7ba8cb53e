import BranchPrediction.Proofs.Learning.Readings

/-!
# What a ladder counts of commits

The `Score` of a ladder is the number of its commits, those with a correct and those with a wrong
prediction.  A commit adds one to the score (`Tage.score_commit`, `Ittage.score_learn`): the
prediction is counted when it is recorded and the commit when it is over, and what is learned in
between does not count.
-/

namespace BranchPrediction

variable {P : Type}

/-- How often a ladder was right and wrong, over all sources of predictions, and how many commits it
counted. -/
structure Score where
  correct : Nat
  wrong : Nat
  commits : Nat
  deriving DecidableEq, Repr

namespace Score

/-- The score after one more prediction and before its commit is counted. -/
def judge (s : Score) (isCorrect : Bool) : Score :=
  { s with correct := s.correct + isCorrect.toNat, wrong := s.wrong + (!isCorrect).toNat }

def tick (s : Score) : Score :=
  { s with commits := s.commits + 1 }

def add (s : Score) (isCorrect : Bool) : Score :=
  (s.judge isCorrect).tick

def judged (s : Score) : Nat :=
  s.correct + s.wrong

theorem judged_add (s : Score) (isCorrect : Bool) :
    (s.add isCorrect).judged = s.judged + 1 := by
  cases isCorrect with
  | true => exact Nat.add_right_comm _ _ _
  | false => exact (Nat.add_assoc _ _ _).symm

end Score

theorem SourceTally.total_add (t : SourceTally) (source : ProviderSource) :
    (t.add source).total = t.total + 1 := by
  cases source <;> simp only [add, total] <;> omega

def LadderStats.score (s : LadderStats) : Score :=
  ⟨s.correct.total, s.wrong.total, s.commits⟩

theorem LadderStats.score_record (s : LadderStats) (source : ProviderSource) (hit? : Option Nat)
    (isCorrect : Bool) : (s.record source hit? isCorrect).score = s.score.judge isCorrect := by
  cases isCorrect with
  | true => exact congrArg (Score.mk · _ _) (s.correct.total_add source)
  | false => exact congrArg (Score.mk _ · _) (s.wrong.total_add source)

namespace Ladder

def score (l : Ladder P) : Score :=
  l.stats.score

theorem score_blank [Payload P] (c : Config) : (blank c : Ladder P).score = ⟨0, 0, 0⟩ :=
  rfl

/-! ## Training and counting -/

@[simp]
theorem score_mapFolds (g : FoldedHistory → FoldedHistory) (l : Ladder P) :
    Ladder.score (mapFolds g l) = l.score :=
  rfl

theorem score_modifyEntry (l : Ladder P) (slots : Array Slot) (bank : Nat)
    (f : TaggedEntry P → TaggedEntry P) : (l.modifyEntry slots bank f).score = l.score := by
  unfold modifyEntry
  split
  · rfl
  · rfl

/-- Training does not count. -/
theorem steady_score : Steady (score (P := P)) where
  modifyEntry := score_modifyEntry
  trainUseAlt _ _ _ _ := rfl
  modifyStats l f hf := by
    obtain ⟨hcorrect, hwrong, hcommits⟩ := hf l.stats
    change (f l.stats).score = l.stats.score
    rw [LadderStats.score, hcorrect, hwrong, hcommits, LadderStats.score]

theorem score_record (l : Ladder P) (source : ProviderSource) (hit? : Option Nat)
    (isCorrect : Bool) : (l.record source hit? isCorrect).score = l.score.judge isCorrect :=
  l.stats.score_record source hit? isCorrect

theorem score_tick (l : Ladder P) : l.tick.score = l.score.tick := by
  simp only [tick]
  split
  · rfl
  · rfl

end Ladder

/-! ## Commits -/

/-- A commit of TAGE counts its own prediction, whatever the pipeline acted on. -/
theorem Tage.score_commit (t : Tage) (p : Prediction) (outcome finalOutcome : Direction)
    (skip : Bool) :
    (t.commit p outcome finalOutcome skip).ladder.score =
      t.ladder.score.add (p.outcome = outcome) := by
  obtain ⟨trained, hcommit, hscore⟩ :=
    exists_trained_commit Ladder.steady_score t p outcome finalOutcome skip
  rw [hcommit, Ladder.score_tick, hscore, Ladder.score_record, Score.add]

/-- A commit of ITTAGE counts its prediction; a missing one is wrong. -/
theorem Ittage.score_learn (r : Record) (target : UInt64) (ladder : Ladder Target) :
    (learn r target ladder).score = ladder.score.add (r.lookup.target? = some target) := by
  obtain ⟨trained, hlearn, hscore⟩ := exists_trained_learn Ladder.steady_score target ladder r
  rw [hlearn, Ladder.score_tick, hscore, Ladder.score_record, Score.add]

end BranchPrediction
