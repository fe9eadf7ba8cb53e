import BranchPrediction.Proofs.History.Journal
import BranchPrediction.Proofs.Pipeline.Ittage
import BranchPrediction.Proofs.Pipeline.TageScl

/-!
# Every fold is the fold of its window

Folds are never computed anew: each push and each pop rotates them and patches two bits.
`folds_hold_windows` says that they hold, at all times, what reading the whole window would give,
in any run of a speculative history with folds of any shapes, and in any state that a direction or
a target predictor can reach, after refused calls too.
-/

namespace BranchPrediction

/-! ## The folds of the predictors -/

/-- The index fold and both tag folds of a table are those of its shape. -/
structure TaggedTable.FoldsHold {P : Type} (r : HistoryRegister) (shape : TableShape)
    (t : TaggedTable P) : Prop where
  index : t.indexFold.IsFoldOf r shape.logSize shape.historyLength
  tag : t.tagFold.IsFoldOf r shape.tagBits shape.historyLength
  narrow : t.narrowFold.IsFoldOf r (shape.tagBits - 1) shape.historyLength

/-- The tables are those of the configuration, and their folds hold the register's folds. -/
def Ladder.FoldsHold {P : Type} (r : HistoryRegister) (c : Ladder.Config) (l : Ladder P) : Prop :=
  List.Forall₂ (TaggedTable.FoldsHold r) c.tables l.tables.toList

def Corrector.FoldsHold (r : HistoryRegister) (c : Corrector.Config) (k : Corrector) : Prop :=
  List.Forall₂ (fun window f => FoldedHistory.IsFoldOf r c.historyLogSize window f)
    c.historyLengths k.folds.toList

/-- Every fold of TAGE and of the corrector holds the register's fold. -/
structure TageScl.FoldsHold (c : TageScl.Config) (p : TageScl) : Prop where
  tage : p.tage.ladder.FoldsHold p.history.register c.ladder
  corrector : Option.Rel (Corrector.FoldsHold p.history.register) c.corrector? p.corrector?

def Ittage.FoldsHold (c : Ittage.Config) (p : Ittage) : Prop :=
  p.ladder.FoldsHold p.history.register c.ladder

theorem Ladder.foldsHold_of_inStep {P : Type} {r : HistoryRegister} {c : Ladder.Config}
    {l : Ladder P} (hinStep : InStep r l) (hshapes : foldShapes l = c.foldShapes) :
    l.FoldsHold r c := by
  have hfolds := hinStep.isFoldOf
  rw [hshapes] at hfolds
  change List.Forall₂ _ (c.tables.flatMap TableShape.foldShapes) (l.tables.toList.flatMap folds)
    at hfolds
  unfold FoldsHold
  generalize l.tables.toList = tables at hfolds
  generalize c.tables = shapes at hfolds
  -- each table takes the next three folds
  induction shapes generalizing tables with
  | nil =>
      cases tables with
      | nil => exact .nil
      | cons t tables => cases hfolds
  | cons shape shapes ih =>
      cases tables with
      | nil => cases hfolds
      | cons t tables =>
          obtain ⟨hindex, hfolds⟩ := List.forall₂_cons.1 hfolds
          obtain ⟨htag, hfolds⟩ := List.forall₂_cons.1 hfolds
          obtain ⟨hnarrow, hfolds⟩ := List.forall₂_cons.1 hfolds
          exact .cons ⟨hindex, htag, hnarrow⟩ (ih tables hfolds)

theorem Corrector.foldsHold_of_inStep {r : HistoryRegister} {k : Corrector}
    (hinStep : InStep r k) (hshaped : k.Shaped) : k.FoldsHold r k.config := by
  have hfolds := hinStep.isFoldOf
  rw [hshaped.foldShapes_eq, Config.foldShapes, List.forall₂_map_left_iff] at hfolds
  change List.Forall₂ _ _ (k.folds.toList.flatMap fun f => [f]) at hfolds
  rwa [List.flatMap_singleton'] at hfolds

theorem TageScl.Sound.foldsHold {c : Config} {p : TageScl} (h : Sound c p) : p.FoldsHold c := by
  obtain ⟨htage, hcorrector⟩ := inStep_prod.1 h.inStep
  refine ⟨Ladder.foldsHold_of_inStep htage h.tage_foldShapes, ?_⟩
  have hfits := h.corrector
  cases hk : p.corrector? with
  | none =>
      cases hconfig : c.corrector? with
      | none => exact .none
      | some config =>
          rw [hk, hconfig] at hfits
          exact hfits.elim
  | some k =>
      cases hconfig : c.corrector? with
      | none =>
          rw [hk, hconfig] at hfits
          exact hfits.elim
      | some config =>
          rw [hk, hconfig] at hfits
          rw [hk] at hcorrector
          obtain ⟨rfl, hshaped⟩ := hfits
          exact .some (Corrector.foldsHold_of_inStep hcorrector hshaped)

theorem Ittage.Sound.foldsHold {c : Config} {p : Ittage} (h : Sound c p) : p.FoldsHold c :=
  Ladder.foldsHold_of_inStep h.inStep h.foldShapes_eq

/-! ## All runs and all reachable states -/

/-- Every fold holds the fold of its window: along any run of a history, with appends and rollbacks
accepted or refused, in any order; and in any state that a predictor reaches. -/
theorem folds_hold_windows :
    (∀ {size pathBits longest : Nat} {h : SpeculativeHistory},
        SpeculativeHistory.create size pathBits longest = .ok h →
      ∀ {shapes : List (Nat × Nat)}, (∀ s ∈ shapes, s.1 < 64 ∧ s.2 < size) →
      ∀ calls : List HistoryCall,
        let j := (Journal.start h (zeroFolds shapes)).run calls
        List.Forall₂ (fun s f => FoldedHistory.IsFoldOf j.history.register s.1 s.2 f) shapes
          j.views.toList) ∧
      (∀ {c : TageScl.Config} {p q : TageScl}, c.build = .ok p → Reachable p q →
        q.FoldsHold c) ∧
      ∀ {c : Ittage.Config} {p q : Ittage}, c.build = .ok p → Reachable p q → q.FoldsHold c := by
  refine ⟨Journal.run_isFoldOf, ?_, ?_⟩
  · intro c p q hbuild hreachable
    exact ((TageScl.kept_sound c).reachable (TageScl.sound_build hbuild).1 hreachable).foldsHold
  · intro c p q hbuild hreachable
    exact ((Ittage.kept_sound c).reachable (Ittage.sound_build hbuild) hreachable).foldsHold

/-- Windows that are and are not multiples of the width, no window, and a fold into no bits. -/
def smallShapes : List (Nat × Nat) :=
  [(2, 1), (2, 2), (1, 3), (0, 2), (5, 0)]

/-- Contributions taken back out of order and twice, and after the history was forgotten. -/
def outOfOrder : List HistoryCall :=
  [.append 3 2 4, .retire 0, .append 2 2 0, .rollback 0, .rollback 1, .rollback 1, .append 1 1 8,
    .clear, .rollback 0, .append 1 1 4]

/-- The state of a predictor after the commit of a record that fits no predictor, which is refused,
and of one that inserts its history late. -/
def TageScl.afterCommits (p : TageScl) (b : Branch) : TageScl :=
  let refused := SpeculativePredictor.commit p { state := .finalized } b
  (SpeculativePredictor.commit refused.predictor { isConditional := true } b).predictor

theorem small_folds_hold_windows :
    List.Forall₂
        (fun s f => FoldedHistory.IsFoldOf
          ((Journal.start ⟨.zeros 4 (by decide), .empty 3, 1, 0⟩
            (zeroFolds smallShapes)).run outOfOrder).history.register s.1 s.2 f)
        smallShapes
        ((Journal.start ⟨.zeros 4 (by decide), .empty 3, 1, 0⟩
          (zeroFolds smallShapes)).run outOfOrder).views.toList ∧
      ((TageScl.small none).afterCommits ⟨4, .directBranch, .taken, 64⟩).FoldsHold
        (TageScl.smallConfig none) ∧
      (SpeculativePredictor.commit Ittage.small {}
        ⟨4, .indirectJump, .taken, 64⟩).predictor.FoldsHold Ittage.smallConfig := by
  have hcreate : SpeculativeHistory.create 4 3 1 =
      .ok ⟨.zeros 4 (by decide), .empty 3, 1, 0⟩ := rfl
  have hshapes : ∀ s ∈ smallShapes, s.1 < 64 ∧ s.2 < 4 := by decide
  have hbuildTageScl : (TageScl.smallConfig none).build = .ok (TageScl.small none) := rfl
  have hbuildIttage : Ittage.smallConfig.build = .ok Ittage.small := rfl
  obtain ⟨hhistory, htageScl, hittage⟩ := folds_hold_windows
  refine ⟨hhistory hcreate hshapes outOfOrder, ?_, ?_⟩
  · exact htageScl hbuildTageScl (.commit (.commit .origin _ _) _ _)
  · exact hittage hbuildIttage (.commit .origin _ _)

end BranchPrediction
