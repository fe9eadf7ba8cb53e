import BranchPrediction.Ittage.Basic
import BranchPrediction.Proofs.Learning.Ladder

/-!
# Learning beside the folds: ITTAGE

All that ITTAGE learns is in its ladder.  What a commit makes of the ladder is blind to the folds
as a whole (`foldBlind_learn`), and a lookup fits the tables that it was made from (`fits_find`).
-/

namespace BranchPrediction

namespace Ittage

/-! ## Commits -/

theorem foldBlind_trainUseAlt (l : Lookup) (target : UInt64) :
    FoldBlind (trainUseAlt l target) := by
  unfold trainUseAlt
  cases l.hit? with
  | none => exact .id
  | some bank =>
      exact .cond (fun _ _ => Iff.rfl) (Ladder.foldBlind_trainUseAlt bank l.conditional _) .id

theorem replaces_mapFolds (l : Lookup) (bank : Nat) (g : FoldedHistory → FoldedHistory)
    (ladder : Ladder Target) : replaces l bank (mapFolds g ladder) = replaces l bank ladder := by
  unfold replaces
  rw [Ladder.entry?_mapFolds]

theorem foldBlind_trainConfidence (l : Lookup) (bank : Nat) (target : UInt64) :
    FoldBlind (trainConfidence l bank target) := by
  have hstrengthen := Ladder.foldBlind_modifyEntry (P := Target) l.slots bank
    (·.stepConfidence true)
  have hweaken := Ladder.foldBlind_modifyEntry l.slots bank (weaken target)
  have hcount := Ladder.foldBlind_modifyStats (P := Target) fun s =>
    { s with targetReplacements := s.targetReplacements + 1 }
  have hreplace : FoldBlind fun ladder : Ladder Target =>
      if replaces l bank ladder then
        (ladder.modifyEntry l.slots bank (weaken target)).modifyStats fun s =>
          { s with targetReplacements := s.targetReplacements + 1 }
      else ladder.modifyEntry l.slots bank (weaken target) := by
    refine .cond ?_ (hweaken.comp hcount) hweaken
    intro g ladder
    rw [replaces_mapFolds]
  exact .cond (fun _ _ => Iff.rfl) hstrengthen hreplace

theorem foldBlind_trainLongest (l : Lookup) (target : UInt64) :
    FoldBlind (trainLongest l target) := by
  unfold trainLongest
  cases l.hit? with
  | none => exact .id
  | some bank =>
      have huseful : FoldBlind fun ladder : Ladder Target =>
          if l.longestTarget? ≠ l.altTarget? then
            ladder.trainUseful l.slots bank (l.longestTarget? = some target)
          else ladder :=
        .cond (fun _ _ => Iff.rfl) (Ladder.foldBlind_trainUseful l.slots bank _) .id
      exact (foldBlind_trainConfidence l bank target).comp huseful

/-- What a resolved indirect jump or call makes of the ladder. -/
def learn (r : Record) (target : UInt64) (ladder : Ladder Target) : Ladder Target :=
  let correct : Bool := r.lookup.target? = some target
  let ladder := trainUseAlt r.lookup target (ladder.record r.lookup.source r.lookup.hit? correct)
  let ladder :=
    if correct then ladder
    else (ladder.allocate r.lookup.slots r.lookup.hit? r.allocationSkip ⟨some target⟩ 0).1
  (trainLongest r.lookup target ladder).tick

theorem train_eq (p : Ittage) (r : Record) (target : UInt64) :
    p.train r target = p.modifyLadder (learn r target) :=
  rfl

theorem foldBlind_learn (r : Record) (target : UInt64) : FoldBlind (learn r target) := by
  have hrecord := Ladder.foldBlind_record (P := Target) r.lookup.source r.lookup.hit?
    (r.lookup.target? = some target)
  have hallocate : FoldBlind fun ladder : Ladder Target =>
      if (decide (r.lookup.target? = some target)) = true then ladder
      else (ladder.allocate r.lookup.slots r.lookup.hit? r.allocationSkip ⟨some target⟩ 0).1 :=
    .cond (fun _ _ => Iff.rfl) .id
      (Ladder.foldBlind_allocate r.lookup.slots r.lookup.hit? r.allocationSkip _ 0)
  have hlearn := (hrecord.comp (foldBlind_trainUseAlt r.lookup target)).comp hallocate
  exact (hlearn.comp (foldBlind_trainLongest r.lookup target)).comp Ladder.foldBlind_tick

/-! ## Lookups -/

theorem fits_find (p : Ittage) (pc : UInt64) (isConditional : Bool) :
    p.ladder.fits (p.find pc isConditional).slots = true ∧
      p.ladder.hasBank (p.find pc isConditional).hit? = true ∧
      p.ladder.hasBank (p.find pc isConditional).alt? = true := by
  obtain ⟨hhit, halt⟩ := p.ladder.hasBank_findMatches (p.ladder.slots pc p.history.path)
  have hslots := p.ladder.fits_slots pc p.history.path
  simp only [find]
  generalize p.ladder.findMatches (p.ladder.slots pc p.history.path) = found at hhit halt
  obtain ⟨hit?, alt?⟩ := found
  cases hit? with
  | none => exact ⟨hslots, hhit, halt⟩
  | some bank =>
      simp only
      cases p.ladder.entry? (p.ladder.slots pc p.history.path) bank with
      | none => exact ⟨hslots, hhit, halt⟩
      | some e =>
          simp only
          split
          · exact ⟨hslots, hhit, halt⟩
          · exact ⟨hslots, hhit, halt⟩

end Ittage

end BranchPrediction
