import BranchPrediction.Proofs.Learning.Corrector
import BranchPrediction.TageScl.Basic

/-!
# Which lookups fit the parts of TAGE-SC-L

A record is accepted as long as its lookups fit the tables.  For the loop predictor that depends on
the number of entries alone, which belongs to its `frame` together with the configuration.  No
operation changes the frame, and a reset returns to the number of entries that the configuration
gives (`LoopPredictor.Shaped`).  The corrector's lookups survive a reset for the same reason.
-/

namespace BranchPrediction

namespace LoopPredictor

/-- The configuration and the number of entries. -/
def frame (p : LoopPredictor) : Config × Nat :=
  (p.config, p.entries.size)

theorem frame_modifyEntry (p : LoopPredictor) (index : Nat) (f : Entry → Entry) :
    (p.modifyEntry index f).frame = p.frame := by
  simp [frame, modifyEntry]

theorem frame_modifyHeld (p : LoopPredictor) (lookup : Lookup) (f : Entry → Entry) :
    (p.modifyHeld lookup f).frame = p.frame := by
  unfold modifyHeld
  split
  · split
    · exact p.frame_modifyEntry _ f
    · rfl
  · rfl

theorem frame_speculate (p : LoopPredictor) (lookup : Lookup) (outcome : Direction) :
    (p.speculate lookup outcome).frame = p.frame :=
  p.frame_modifyHeld lookup _

theorem frame_restore (p : LoopPredictor) (lookup : Lookup) :
    (p.restore lookup).frame = p.frame :=
  p.frame_modifyHeld lookup _

theorem frame_trainTrust (p : LoopPredictor) (pc : UInt64) (isCorrect : Bool) :
    (p.trainTrust pc isCorrect).frame = p.frame :=
  rfl

theorem frame_allocateAmong (tag : Nat) (outcome : Direction) (indices : List Nat)
    (p : LoopPredictor) : (allocateAmong tag outcome indices p).frame = p.frame := by
  induction indices generalizing p with
  | nil => rfl
  | cons index rest ih =>
      rw [allocateAmong]
      split
      · exact ih p
      · split
        · exact p.frame_modifyEntry index _
        · rw [ih, frame_modifyEntry]

theorem frame_commit (p : LoopPredictor) (lookup : Lookup) (outcome primary : Direction)
    (mispredicted mayAllocate : Bool) (way : Nat) :
    (p.commit lookup outcome primary mispredicted mayAllocate way).frame = p.frame := by
  unfold commit
  split
  · exact p.frame_modifyHeld lookup _
  · split
    · exact frame_allocateAmong _ _ _ p
    · rfl

theorem fits_of_frame {p q : LoopPredictor} (hframe : q.frame = p.frame) (lookup : Lookup) :
    q.fits lookup = p.fits lookup := by
  have hsize : q.entries.size = p.entries.size := congrArg Prod.snd hframe
  rw [fits, fits, hsize]

/-- There are as many entries as the configuration says. -/
def Shaped (p : LoopPredictor) : Prop :=
  p.entries.size = p.config.size

theorem shaped_blank (config : Config) : (blank config).Shaped := by
  simp [Shaped, blank]

theorem Shaped.of_frame {p q : LoopPredictor} (h : p.Shaped) (hframe : q.frame = p.frame) :
    q.Shaped := by
  obtain ⟨hconfig, hsize⟩ := Prod.mk.inj hframe
  rw [Shaped, hconfig, hsize]
  exact h

theorem Shaped.frame_reset {p : LoopPredictor} (h : p.Shaped) : p.reset.frame = p.frame := by
  have hblank := shaped_blank p.config
  exact Prod.ext rfl (hblank.trans h.symm)

end LoopPredictor

theorem TageScl.frame_trainLoops (r : Record) (pc : UInt64) (outcome : Direction)
    (loops : LoopPredictor) : (trainLoops r pc outcome loops).frame = loops.frame := by
  unfold trainLoops
  refine (LoopPredictor.frame_commit _ _ _ _ _ _ _).trans ?_
  split
  · exact loops.frame_trainTrust pc _
  · rfl

/-- What fitted the tables of a corrector fits them when they are forgotten. -/
theorem Corrector.Shaped.fits_reset {c : Corrector} (h : c.Shaped) (lookup : Lookup) :
    c.reset.fits lookup = c.fits lookup := by
  have hblank : c.reset.Shaped :=
    shaped_blank h.biasLogSize_lt h.historyLogSize_lt h.pathLogSize_lt
  have hfolds : c.reset.folds.size = c.folds.size := by
    have hshapes : BranchPrediction.foldShapes c.reset = BranchPrediction.foldShapes c :=
      hblank.foldShapes_eq.trans h.foldShapes_eq.symm
    have hlength : ∀ k : Corrector, (BranchPrediction.foldShapes k).length = k.folds.size := by
      intro k
      change ((k.folds.toList.flatMap fun f => [f]).map _).length = _
      simp
    rw [← hlength, hshapes, hlength]
  refine fits_congr (hblank.bias_size.trans h.bias_size.symm) ?_
    (hblank.path_size.trans h.path_size.symm) lookup
  rw [hblank.history_sizes, h.history_sizes, hfolds]
  rfl

end BranchPrediction
