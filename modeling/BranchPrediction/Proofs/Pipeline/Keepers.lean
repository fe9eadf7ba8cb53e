import BranchPrediction.Proofs.Learning.Loops
import BranchPrediction.Proofs.Pipeline.Ittage
import BranchPrediction.Proofs.Pipeline.TageScl
import BranchPrediction.Proofs.Pipeline.Timeline

/-!
# Both predictors keep their history

TAGE-SC-L and ITTAGE satisfy the laws of `KeepsHistory`: their checks are those of the history, and
their steps append to it, roll it back and retire.  What remains to be shown is that their records
stay fit.  Which lookups fit depends on the sizes of the tables, and no step changes a size.  For a
reset of TAGE-SC-L that rests on the loop predictor having as many entries as its configuration
says (`TageScl.LoopsShaped`).
-/

namespace BranchPrediction

open SpeculativeHistory

/-! ## ITTAGE -/

namespace Ittage

instance : HistoryKeeper Ittage where
  history p := p.history
  historyBits p := p.config.historyBits

/-- The number of tables never changes, so that a record fits for good. -/
theorem kept_accepts (c : Config) (r : Record) :
    Kept fun p : Ittage => Sound c p ∧ p.accepts r = true where
  apply {p} h r' b := ⟨sound_apply h.1 r' b, (accepts_apply p r' b r).trans h.2⟩
  undo {p} h r' := by
    refine ⟨sound_undo h.1 r', ?_⟩
    change (undo p r').1.accepts r = true
    rw [← h.2]
    apply accepts_congr
    cases hc : r'.contribution? with
    | none => rw [undo_of_none p hc]
    | some contribution =>
        obtain ⟨g, -, hladder⟩ :=
          exists_rollback_views p.history contribution.checkpoint p.ladder
        rw [undo_eq p hc]
        change (p.history.rollback contribution.checkpoint p.ladder).2.size = _
        rw [hladder, Ladder.size_mapFolds]
  conclude {p} h r' b := by
    refine ⟨sound_conclude h.1 r' b, ?_⟩
    change (conclude p r' b).accepts r = true
    rw [← h.2]
    apply accepts_congr
    rw [conclude_eq]
    exact Ladder.size_of_foldBlind (foldBlind_concluded r' b) p.ladder
  countRepair h := h
  reset {p} h := by
    refine ⟨sound_reset h.1, ?_⟩
    change p.reset.accepts r = true
    rw [← h.2]
    apply accepts_congr
    rcases p with ⟨config, ladder, history, random⟩
    exact Array.size_map

theorem kept_historyBits (bits : Branch → UInt64 × Nat) :
    Kept fun p : Ittage => p.config.historyBits = bits where
  apply {p} h r b := by
    change (apply p r b).1.config.historyBits = bits
    rw [apply_eq]
    exact h
  undo {p} h r := by
    change (undo p r).1.config.historyBits = bits
    cases hc : r.contribution? with
    | none => rwa [undo_of_none p hc]
    | some contribution => rwa [undo_eq p hc]
  conclude {p} h r b := by
    change (conclude p r b).config.historyBits = bits
    rwa [conclude_eq]
  countRepair h := h
  reset h := h

theorem state_apply (p : Ittage) (r : Record) (b : Branch) :
    (apply p r b).2.state = r.state := by
  rw [apply_eq]

theorem state_undo (p : Ittage) (r : Record) : (undo p r).2.state = r.state := by
  cases hc : r.contribution? with
  | none => rw [undo_of_none p hc]
  | some c => rw [undo_eq p hc]

theorem lookup_apply (p : Ittage) (r : Record) (b : Branch) :
    (apply p r b).2.lookup = r.lookup := by
  rw [apply_eq]

theorem lookup_undo (p : Ittage) (r : Record) : (undo p r).2.lookup = r.lookup := by
  cases hc : r.contribution? with
  | none => rw [undo_of_none p hc]
  | some c => rw [undo_eq p hc]

theorem state_finalize (p : Ittage) (r : Record) (pc : UInt64) :
    (p.finalize r pc).state = .finalized := by
  unfold finalize
  split
  · rfl
  · assumption

theorem keepsHistory (c : Config) : KeepsHistory (Sound c) where
  kept := kept_sound c
  kept_accepts := kept_accepts c
  kept_historyBits := kept_historyBits
  accepts_newRecord := (rewinds c).accepts_newRecord
  accepts_finalize {p r} _ haccepts pc := by
    change p.accepts (p.finalize r pc) = true
    unfold finalize
    split
    · exact (anchored_lookup p pc r.isConditional).accepted
    · exact haccepts
  accepts_applied := (rewinds c).accepts_applied
  accepts_undone p q r := by
    change q.accepts (undo p r).2 = q.accepts r
    cases hc : r.contribution? with
    | none => rw [undo_of_none p hc]
    | some contribution =>
        rw [undo_eq p hc]
        rfl
  contribution?_newRecord p predicted pc isConditional := by
    cases predicted with
    | true => rfl
    | false => rfl
  contribution?_finalize p r hnone pc := by
    change (p.finalize r pc).contribution? = none
    unfold finalize
    split
    · rfl
    · exact hnone
  finalize_finalize p q r pc pc' := finalize_of_finalized q (state_finalize p r pc) pc'
  finalize_applied p r hdefinite b q pc := by
    have hstate : r.state = .finalized := hdefinite p 0 ▸ state_finalize p r 0
    exact finalize_of_finalized q ((state_apply p r b).trans hstate) pc
  finalize_undone p r hdefinite q pc := by
    have hstate : r.state = .finalized := hdefinite p 0 ▸ state_finalize p r 0
    exact finalize_of_finalized q ((state_undo p r).trans hstate) pc
  appendError?_eq _ _ := rfl
  rollbackError?_eq p r := by
    change p.rollbackError? r = (p.history.disordered? (r.contribution?.map _)).map _
    unfold rollbackError?
    cases r.contribution? with
    | none => rfl
    | some contribution => rfl
  history_apply p r b := by
    change (apply p r b).1.history = _
    rw [apply_eq]
    exact (append_eq_insert p.history (p.config.historyBits b) b.pc p.ladder).2
  checkpoint?_applied p r b := by
    change (apply p r b).2.contribution?.map _ = _
    rw [apply_eq]
    exact congrArg some (append_eq_insert p.history (p.config.historyBits b) b.pc p.ladder).1
  history_undo p r := by
    change (undo p r).1.history = p.history.undone (r.contribution?.map _)
    cases hc : r.contribution? with
    | none => rw [undo_of_none p hc]; rfl
    | some contribution =>
        rw [undo_eq p hc]
        exact rollback_eq_undone p.history contribution.checkpoint p.ladder
  checkpoint?_undone p r := by
    change (undo p r).2.contribution?.map _ = none
    cases hc : r.contribution? with
    | none => rw [undo_of_none p hc, hc]; rfl
    | some contribution => rw [undo_eq p hc]; rfl
  history_conclude p r b := by
    change (conclude p r b).history = _
    rw [conclude_eq]
    rfl
  history_countRepair _ := rfl
  history_reset _ := rfl

theorem build_eq_ok {c : Config} {p : Ittage} (hbuild : c.build = .ok p) :
    c.validate = .ok () ∧ p.config = c ∧
      create c.ladder.historyBufferBits c.ladder.pathBits c.ladder.longestHistory =
        .ok p.history := by
  obtain ⟨hvalid, -, history, hcreate, rfl⟩ := exists_of_build hbuild
  exact ⟨hvalid, rfl, hcreate⟩

theorem fits_build {c : Config} {p : Ittage} (hbuild : c.build = .ok p) :
    (Session.start p).Fits (Sound c) c.historyBits := by
  obtain ⟨-, rfl, -⟩ := build_eq_ok hbuild
  exact (keepsHistory _).fits_start (sound_build hbuild) rfl

end Ittage

/-! ## TAGE-SC-L -/

namespace TageScl

instance : HistoryKeeper TageScl where
  history p := p.history
  historyBits p := p.config.historyBits

/-- The loop predictor, if there is one, has as many entries as its configuration says. -/
def LoopsShaped (p : TageScl) : Prop :=
  ∀ loops, p.loops? = some loops → loops.Shaped

section Loops

variable {loops? loops'? : Option LoopPredictor} {test : Bool}
  {change : LoopPredictor → LoopPredictor}

theorem fits_loops_of_frame (hframe : ∀ loops, (change loops).frame = loops.frame)
    (hloops : loops'? = if test then loops?.map change else loops?)
    (lookup : LoopPredictor.Lookup) :
    loops'?.all (·.fits lookup) = loops?.all (·.fits lookup) := by
  rw [hloops]
  split
  · cases loops? with
    | none => rfl
    | some loops => exact LoopPredictor.fits_of_frame (hframe loops) lookup
  · rfl

theorem shaped_loops_of_frame (hframe : ∀ loops, (change loops).frame = loops.frame)
    (hloops : loops'? = if test then loops?.map change else loops?)
    (hshaped : ∀ loops, loops? = some loops → loops.Shaped) :
    ∀ loops, loops'? = some loops → loops.Shaped := by
  rw [hloops]
  intro loops hsome
  split at hsome
  · obtain ⟨before, hbefore, rfl⟩ := Option.map_eq_some_iff.1 hsome
    exact (hshaped before hbefore).of_frame (hframe before)
  · exact hshaped loops hsome

end Loops

theorem loops?_apply (p : TageScl) (r : Record) (b : Branch) :
    (apply p r b).1.loops? =
      if p.advances b then p.loops?.map (·.speculate r.loop b.taken) else p.loops? := by
  rw [apply_eq]

theorem loops?_undo (p : TageScl) {r : Record} {c : Contribution} (hc : r.contribution? = some c) :
    (undo p r).1.loops? =
      if r.loopAdvanced then p.loops?.map (·.restore r.loop) else p.loops? := by
  rw [undo_eq p hc]

theorem loops?_conclude (p : TageScl) (r : Record) (b : Branch) :
    (conclude p r b).loops? =
      if b.kind.isConditional then p.loops?.map (trainLoops r b.pc b.taken) else p.loops? := by
  rw [conclude_eq]

theorem kept_loopsShaped : Kept LoopsShaped where
  apply {p} h r b :=
    shaped_loops_of_frame (fun loops => loops.frame_speculate r.loop b.taken)
      (loops?_apply p r b) h
  undo {p} h r := by
    change LoopsShaped (undo p r).1
    cases hc : r.contribution? with
    | none => rwa [undo_of_none p hc]
    | some contribution =>
        exact shaped_loops_of_frame (fun loops => loops.frame_restore r.loop)
          (loops?_undo p hc) h
  conclude {p} h r b :=
    shaped_loops_of_frame (frame_trainLoops r b.pc b.taken) (loops?_conclude p r b) h
  countRepair h := h
  reset {p} _ loops hsome := by
    rcases p with ⟨config, tage, loops?, corrector?, history, random, stats⟩
    obtain ⟨before, -, rfl⟩ := Option.map_eq_some_iff.1 hsome
    exact LoopPredictor.shaped_blank before.config

theorem accepts_congr {p q : TageScl} {r : Record}
    (htage : q.tage.fits r.tage = p.tage.fits r.tage)
    (hloops : q.loops?.all (·.fits r.loop) = p.loops?.all (·.fits r.loop))
    (hcorrector : q.corrector?.all (·.fits r.corrector) =
      p.corrector?.all (·.fits r.corrector)) :
    q.accepts r = p.accepts r := by
  simp only [accepts, htage, hloops, hcorrector]

theorem accepts_undo (p : TageScl) (r r' : Record) :
    (undo p r).1.accepts r' = p.accepts r' := by
  cases hc : r.contribution? with
  | none => rw [undo_of_none p hc]
  | some contribution =>
      obtain ⟨g, -, hviews⟩ := exists_rollback_views p.history contribution.checkpoint p.views
      apply accepts_congr
      · rw [undo_eq p hc]
        simp only [hviews]
        exact Tage.fits_mapFolds g p.tage r'.tage
      · exact fits_loops_of_frame (fun loops => loops.frame_restore r.loop) (loops?_undo p hc)
          r'.loop
      · rw [undo_eq p hc]
        simp only [hviews]
        change (p.corrector?.map (mapFolds g)).all _ = _
        cases p.corrector? with
        | none => rfl
        | some k => rfl

theorem accepts_conclude (p : TageScl) (r : Record) (b : Branch) (r' : Record) :
    (conclude p r b).accepts r' = p.accepts r' := by
  apply accepts_congr
  · rw [conclude_eq]
    simp only [concluded]
    split
    · exact Tage.fits_commit p.tage r.tage b.taken r.prediction _ r'.tage
    · rfl
  · exact fits_loops_of_frame (frame_trainLoops r b.pc b.taken) (loops?_conclude p r b) r'.loop
  · rw [conclude_eq]
    simp only [concluded]
    split
    · change (p.corrector?.map _).all _ = _
      cases p.corrector? with
      | none => rfl
      | some k => exact k.fits_commit r.corrector b.taken r'.corrector
    · rfl

theorem accepts_reset {c : Config} {p : TageScl} (h : Sound c p) (hloops : LoopsShaped p)
    (r : Record) : p.reset.accepts r = p.accepts r := by
  rcases p with ⟨config, tage, loops?, corrector?, history, random, stats⟩
  apply accepts_congr
  · have hsize : tage.reset.ladder.size = tage.ladder.size := Array.size_map
    change tage.reset.fits r.tage = tage.fits r.tage
    simp only [Tage.fits, Ladder.fits, Ladder.hasBank, hsize]
  · change (loops?.map LoopPredictor.reset).all _ = _
    cases loops? with
    | none => rfl
    | some loops => exact LoopPredictor.fits_of_frame (hloops loops rfl).frame_reset r.loop
  · change (corrector?.map Corrector.reset).all _ = _
    cases corrector? with
    | none => rfl
    | some k => exact (h.shaped k rfl).fits_reset r.corrector

/-- What every reachable predictor of a configuration satisfies, its loop predictor included. -/
def Whole (c : Config) (p : TageScl) : Prop :=
  Sound c p ∧ LoopsShaped p

theorem kept_whole (c : Config) : Kept (Whole c) :=
  (kept_sound c).and kept_loopsShaped

theorem kept_accepts (c : Config) (r : Record) :
    Kept fun p : TageScl => Whole c p ∧ p.accepts r = true where
  apply {p} h r' b := ⟨(kept_whole c).apply h.1 r' b, (accepts_apply p r' b r).trans h.2⟩
  undo {p} h r' := ⟨(kept_whole c).undo h.1 r', (accepts_undo p r' r).trans h.2⟩
  conclude {p} h r' b :=
    ⟨(kept_whole c).conclude h.1 r' b, (accepts_conclude p r' b r).trans h.2⟩
  countRepair h := ⟨(kept_whole c).countRepair h.1, h.2⟩
  reset h := ⟨(kept_whole c).reset h.1, (accepts_reset h.1.1 h.1.2 r).trans h.2⟩

theorem kept_historyBits (bits : Branch → UInt64 × Nat) :
    Kept fun p : TageScl => p.config.historyBits = bits where
  apply {p} h r b := by
    change (apply p r b).1.config.historyBits = bits
    rwa [apply_eq]
  undo {p} h r := by
    change (undo p r).1.config.historyBits = bits
    cases hc : r.contribution? with
    | none => rwa [undo_of_none p hc]
    | some contribution => rwa [undo_eq p hc]
  conclude {p} h r b := by
    change (conclude p r b).config.historyBits = bits
    rwa [conclude_eq]
  countRepair h := h
  reset h := h

theorem state_finalize (p : TageScl) (r : Record) (pc : UInt64) :
    (p.finalize r pc).state = .finalized := by
  unfold finalize
  split
  · rfl
  · assumption

theorem keepsHistory (c : Config) : KeepsHistory (Whole c) where
  kept := kept_whole c
  kept_accepts := kept_accepts c
  kept_historyBits := kept_historyBits
  accepts_newRecord h := (rewinds c).accepts_newRecord h.1
  accepts_finalize {p r} h haccepts pc := by
    change p.accepts (p.finalize r pc) = true
    unfold finalize
    split
    · exact (anchored_lookup h.1 pc r.isConditional).accepted
    · exact haccepts
  accepts_applied := (rewinds c).accepts_applied
  accepts_undone p q r := by
    change q.accepts (undo p r).2 = q.accepts r
    cases hc : r.contribution? with
    | none => rw [undo_of_none p hc]
    | some contribution =>
        rw [undo_eq p hc]
        rfl
  contribution?_newRecord p predicted pc isConditional := by
    cases predicted with
    | true => rfl
    | false => rfl
  contribution?_finalize p r hnone pc := by
    change (p.finalize r pc).contribution? = none
    unfold finalize
    split
    · rfl
    · exact hnone
  finalize_finalize p q r pc pc' := finalize_of_finalized q (state_finalize p r pc) pc'
  finalize_applied p r hdefinite b q pc := by
    have hstate : r.state = .finalized := hdefinite p 0 ▸ state_finalize p r 0
    refine finalize_of_finalized q ?_ pc
    change (apply p r b).2.state = .finalized
    rwa [apply_eq]
  finalize_undone p r hdefinite q pc := by
    have hstate : r.state = .finalized := hdefinite p 0 ▸ state_finalize p r 0
    refine finalize_of_finalized q ?_ pc
    change (undo p r).2.state = .finalized
    cases hc : r.contribution? with
    | none => rwa [undo_of_none p hc]
    | some contribution => rwa [undo_eq p hc]
  appendError?_eq _ _ := rfl
  rollbackError?_eq p r := by
    change p.rollbackError? r = (p.history.disordered? (r.contribution?.map _)).map _
    unfold rollbackError?
    cases r.contribution? with
    | none => rfl
    | some contribution => rfl
  history_apply p r b := by
    change (apply p r b).1.history = _
    rw [apply_eq]
    exact (append_eq_insert p.history (p.config.historyBits b) b.pc p.views).2
  checkpoint?_applied p r b := by
    change (apply p r b).2.contribution?.map _ = _
    rw [apply_eq]
    exact congrArg some (append_eq_insert p.history (p.config.historyBits b) b.pc p.views).1
  history_undo p r := by
    change (undo p r).1.history = p.history.undone (r.contribution?.map _)
    cases hc : r.contribution? with
    | none => rw [undo_of_none p hc]; rfl
    | some contribution =>
        rw [undo_eq p hc]
        exact rollback_eq_undone p.history contribution.checkpoint p.views
  checkpoint?_undone p r := by
    change (undo p r).2.contribution?.map _ = none
    cases hc : r.contribution? with
    | none => rw [undo_of_none p hc, hc]; rfl
    | some contribution => rw [undo_eq p hc]; rfl
  history_conclude p r b := by
    change (conclude p r b).history = _
    rw [conclude_eq]
    rfl
  history_countRepair _ := rfl
  history_reset _ := rfl

theorem build_eq_ok {c : Config} {p : TageScl} (hbuild : c.build = .ok p) :
    c.validate = .ok () ∧ p.config = c ∧
      create c.ladder.historyBufferBits c.ladder.pathBits c.longestHistory = .ok p.history := by
  obtain ⟨hvalid, -, history, hcreate, rfl⟩ := exists_of_build hbuild
  exact ⟨hvalid, rfl, hcreate⟩

theorem fits_build {c : Config} {p : TageScl} (hbuild : c.build = .ok p) :
    (Session.start p).Fits (Whole c) c.historyBits := by
  obtain ⟨hsound, hloops⟩ := sound_build hbuild
  have hshaped : LoopsShaped p := by
    intro loops hsome
    rw [hloops] at hsome
    obtain ⟨config, -, rfl⟩ := Option.map_eq_some_iff.1 hsome
    exact LoopPredictor.shaped_blank config
  obtain ⟨-, rfl, -⟩ := build_eq_ok hbuild
  exact (keepsHistory _).fits_start ⟨hsound, hshaped⟩ rfl

end TageScl

end BranchPrediction
