import BranchPrediction.Proofs.History.Rollback

/-!
# Runs of a speculative history

A `Journal` is a speculative history together with the views that are kept in step with it, and a
note of every contribution that was ever accepted.  A `HistoryCall` names a contribution by its
place in these notes, so that a run may roll back or retire any of them, at any time and more than
once.  A refused call leaves everything as it is.

`run_tracks` is the invariant of the folds over all such runs: they hold the register's own fold
of their window, whatever was appended, taken back in whatever order, or forgotten.
-/

namespace BranchPrediction

/-- One use of a speculative history. -/
inductive HistoryCall where
  | append (bits : UInt64) (count : Nat) (pc : UInt64)
  /-- Take back the contribution of this number. -/
  | rollback (number : Nat)
  /-- The branch that made the contribution of this number has committed. -/
  | retire (number : Nat)
  /-- Forget the history and clear the views. -/
  | clear
  deriving DecidableEq, Repr

/-- An accepted append and the checkpoint that it answered. -/
structure Insertion where
  bits : UInt64
  count : Nat
  pc : UInt64
  checkpoint : Checkpoint
  deriving DecidableEq, Repr

/-- A speculative history in use. -/
structure Journal (α : Type) where
  history : SpeculativeHistory
  views : α
  /-- Every insertion that was accepted, in the order of the calls. -/
  made : List Insertion
  /-- The numbers of the insertions that were not taken back, youngest first. -/
  applied : List Nat

namespace Journal

variable {α : Type} [HistoryView α] [FoldFamily α]

def start (history : SpeculativeHistory) (views : α) : Journal α :=
  ⟨history, views, [], []⟩

def append (j : Journal α) (bits : UInt64) (count : Nat) (pc : UInt64) : Journal α :=
  match j.history.appendError? count with
  | some _ => j
  | none =>
    let (checkpoint, history, views) := j.history.append bits count pc j.views
    ⟨history, views, j.made ++ [⟨bits, count, pc, checkpoint⟩], j.made.length :: j.applied⟩

def rollback (j : Journal α) (number : Nat) : Journal α :=
  match j.made[number]? with
  | none => j
  | some insertion =>
    match j.history.disorder? insertion.checkpoint with
    | some _ => j
    | none =>
      let (history, views) := j.history.rollback insertion.checkpoint j.views
      ⟨history, views, j.made, j.applied.erase number⟩

def retire (j : Journal α) (number : Nat) : Journal α :=
  match j.made[number]? with
  | none => j
  | some insertion => { j with history := j.history.retire insertion.checkpoint }

def clear (j : Journal α) : Journal α :=
  { j with
    history := j.history.clear
    views := mapFolds FoldedHistory.clear j.views
    applied := [] }

def perform (j : Journal α) : HistoryCall → Journal α
  | .append bits count pc => j.append bits count pc
  | .rollback number => j.rollback number
  | .retire number => j.retire number
  | .clear => j.clear

def run (j : Journal α) (calls : List HistoryCall) : Journal α :=
  calls.foldl perform j

/-! ## The folds along a run -/

/-- The views are in step with the register and have the given shapes. -/
def Tracks (shapes : List (Nat × Nat)) (j : Journal α) : Prop :=
  InStep j.history.register j.views ∧ foldShapes j.views = shapes

theorem tracks_append {shapes : List (Nat × Nat)} {j : Journal α} (h : j.Tracks shapes)
    (bits : UInt64) (count : Nat) (pc : UInt64) : (j.append bits count pc).Tracks shapes := by
  unfold append
  split
  · exact h
  · obtain ⟨g, hg, hviews⟩ :=
      SpeculativeHistory.exists_append_views j.history bits count pc j.views
    refine ⟨SpeculativeHistory.inStep_append h.1 bits count pc, ?_⟩
    simp only [hviews, foldShapes_mapFolds hg, h.2]

theorem tracks_rollback {shapes : List (Nat × Nat)} {j : Journal α} (h : j.Tracks shapes)
    (number : Nat) : (j.rollback number).Tracks shapes := by
  unfold rollback
  split
  · exact h
  · next insertion _ =>
      split
      · exact h
      · obtain ⟨g, hg, hviews⟩ :=
          SpeculativeHistory.exists_rollback_views j.history insertion.checkpoint j.views
        refine ⟨SpeculativeHistory.inStep_rollback h.1 insertion.checkpoint, ?_⟩
        simp only [hviews, foldShapes_mapFolds hg, h.2]

theorem tracks_retire {shapes : List (Nat × Nat)} {j : Journal α} (h : j.Tracks shapes)
    (number : Nat) : (j.retire number).Tracks shapes := by
  unfold retire
  split
  · exact h
  · exact h

theorem tracks_clear {shapes : List (Nat × Nat)} {j : Journal α} (h : j.Tracks shapes) :
    j.clear.Tracks shapes :=
  ⟨h.1.mapFolds_clear, (foldShapes_mapFolds keepsShape_clear j.views).trans h.2⟩

/-- One call keeps the folds in step, whether it is accepted or refused. -/
theorem tracks_perform {shapes : List (Nat × Nat)} {j : Journal α} (h : j.Tracks shapes)
    (call : HistoryCall) : (j.perform call).Tracks shapes := by
  cases call with
  | append bits count pc => exact tracks_append h bits count pc
  | rollback number => exact tracks_rollback h number
  | retire number => exact tracks_retire h number
  | clear => exact tracks_clear h

theorem run_tracks {shapes : List (Nat × Nat)} {j : Journal α} (h : j.Tracks shapes)
    (calls : List HistoryCall) : (j.run calls).Tracks shapes := by
  induction calls generalizing j with
  | nil => exact h
  | cons call calls ih => exact ih (tracks_perform h call)

/-- Folds of any narrow shapes along any run of a history. -/
theorem run_isFoldOf {size pathBits longest : Nat} {h : SpeculativeHistory}
    (hcreate : SpeculativeHistory.create size pathBits longest = .ok h)
    {shapes : List (Nat × Nat)} (hshapes : ∀ s ∈ shapes, s.1 < 64 ∧ s.2 < size)
    (calls : List HistoryCall) :
    List.Forall₂
      (fun s f => FoldedHistory.IsFoldOf
        ((Journal.start h (zeroFolds shapes)).run calls).history.register s.1 s.2 f)
      shapes ((Journal.start h (zeroFolds shapes)).run calls).views.toList := by
  obtain ⟨-, hsize, rfl⟩ := SpeculativeHistory.create_eq_ok hcreate
  have hzero := folds_zeroFolds shapes
  have hstart : (Journal.start ⟨.zeros size hsize, .empty pathBits, longest, 0⟩
      (zeroFolds shapes)).Tracks shapes := by
    constructor
    · apply inStep_of_zero (HistoryRegister.bit_zeros size hsize) hzero
      rw [HistoryRegister.size_zeros]
      exact hshapes
    · change foldShapes (zeroFolds shapes) = shapes
      rw [foldShapes, hzero, List.map_map]
      exact List.map_id _
  obtain ⟨hinStep, hend⟩ := run_tracks hstart calls
  have hfolds := hinStep.isFoldOf
  rw [hend] at hfolds
  change List.Forall₂ _ _ (List.flatMap (fun f => [f]) _) at hfolds
  rwa [List.flatMap_singleton'] at hfolds

end Journal

end BranchPrediction
