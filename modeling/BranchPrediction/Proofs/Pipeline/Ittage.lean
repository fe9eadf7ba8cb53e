import BranchPrediction.Proofs.Learning.Ittage
import BranchPrediction.Proofs.Pipeline.Retire
import BranchPrediction.Proofs.Validation

/-!
# ITTAGE takes back its youngest branch and retires its oldest

The speculative state of ITTAGE is the history, the folds of its ladder and the random state.
`Sound` is what every reachable predictor of a configuration satisfies, and `retires` proves the
laws that let branches be taken back and committed in any interleaving.
-/

namespace BranchPrediction

namespace Ittage

open SpeculativeHistory

instance : SteppedPredictor Ittage where
  accepts := accepts
  finalize := finalize
  contribution? r := r.contribution?
  appendError? := appendError?
  rollbackError? := rollbackError?
  apply := apply
  undo := undo
  conclude := conclude
  -- repairs are not counted
  countRepair p := p
  forget p := p
  update_eq _ _ _ := rfl
  repair_eq _ _ _ := rfl
  commit_eq _ _ _ := rfl
  squash_eq _ _ := rfl
  predict_forget _ _ _ := rfl
  placeholder_forget _ _ _ := rfl
  accepts_forget _ _ := rfl
  finalize_forget _ _ _ := rfl
  appendError?_forget _ _ := rfl
  rollbackError?_forget _ _ := rfl
  apply_forget _ _ _ := rfl
  undo_forget _ _ := rfl
  conclude_forget _ _ _ := rfl
  reset_forget _ := rfl
  forget_forget _ := rfl
  forget_countRepair _ := rfl

/-! ## The steps written out -/

/-- What the history of a branch makes of the history and of the ladder. -/
def appended (p : Ittage) (b : Branch) : Checkpoint × SpeculativeHistory × Ladder Target :=
  p.history.append (p.config.historyBits b).1 (p.config.historyBits b).2 b.pc p.ladder

theorem apply_eq (p : Ittage) (r : Record) (b : Branch) :
    apply p r b =
      (⟨p.config, (p.appended b).2.2, (p.appended b).2.1, (p.config.draw p.random).2⟩,
        { r with
          allocationSkip := (p.config.draw p.random).1
          contribution? := some ⟨(p.appended b).1, p.random⟩ }) := by
  rcases p with ⟨config, ladder, history, random⟩
  rfl

theorem undo_eq (p : Ittage) {r : Record} {c : Contribution} (hc : r.contribution? = some c) :
    undo p r =
      (⟨p.config, (p.history.rollback c.checkpoint p.ladder).2,
          (p.history.rollback c.checkpoint p.ladder).1, c.random⟩,
        { r with contribution? := none }) := by
  rcases p with ⟨config, ladder, history, random⟩
  simp only [undo, hc]

theorem undo_of_none (p : Ittage) {r : Record} (hnone : r.contribution? = none) :
    undo p r = (p, r) := by
  simp only [undo, hnone]

/-- What the commit of a branch makes of the ladder. -/
def concluded (r : Record) (b : Branch) (ladder : Ladder Target) : Ladder Target :=
  if b.kind.usesTargetTables then learn r b.target ladder else ladder

theorem foldBlind_concluded (r : Record) (b : Branch) : FoldBlind (concluded r b) :=
  .cond (fun _ _ => Iff.rfl) (foldBlind_learn r b.target) .id

theorem conclude_eq (p : Ittage) (r : Record) (b : Branch) :
    conclude p r b =
      ⟨p.config, concluded r b p.ladder, p.history.retired r.contribution?, p.random⟩ := by
  rcases p with ⟨config, ladder, history, random⟩
  unfold conclude retire concluded
  rw [train_eq]
  cases r.contribution? with
  | none =>
      cases b.kind.usesTargetTables with
      | true => rfl
      | false => rfl
  | some c =>
      cases b.kind.usesTargetTables with
      | true => rfl
      | false => rfl

/-! ## What every reachable predictor satisfies -/

/-- The folds are those of the configuration, and in step with the register. -/
structure Sound (c : Config) (p : Ittage) : Prop where
  inStep : InStep p.history.register p.ladder
  foldShapes_eq : foldShapes p.ladder = c.ladder.foldShapes

theorem sound_apply {c : Config} {p : Ittage} (h : Sound c p) (r : Record) (b : Branch) :
    Sound c (apply p r b).1 := by
  have hstep : InStep (p.appended b).2.1.register (p.appended b).2.2 :=
    inStep_append h.inStep _ _ _
  obtain ⟨g, hg, hladder⟩ : ∃ g, KeepsShape g ∧ (p.appended b).2.2 = mapFolds g p.ladder :=
    exists_append_views _ _ _ _ _
  rw [apply_eq]
  refine ⟨hstep, ?_⟩
  change foldShapes (p.appended b).2.2 = _
  rw [hladder, foldShapes_mapFolds hg, h.foldShapes_eq]

theorem sound_undo {c : Config} {p : Ittage} (h : Sound c p) (r : Record) :
    Sound c (undo p r).1 := by
  cases hc : r.contribution? with
  | none =>
      rw [undo_of_none p hc]
      exact h
  | some contribution =>
      have hstep := inStep_rollback h.inStep contribution.checkpoint
      obtain ⟨g, hg, hladder⟩ :=
        exists_rollback_views p.history contribution.checkpoint p.ladder
      rw [undo_eq p hc]
      refine ⟨hstep, ?_⟩
      change foldShapes (p.history.rollback contribution.checkpoint p.ladder).2 = _
      rw [hladder, foldShapes_mapFolds hg, h.foldShapes_eq]

theorem sound_conclude {c : Config} {p : Ittage} (h : Sound c p) (r : Record) (b : Branch) :
    Sound c (conclude p r b) := by
  have hblind := foldBlind_concluded r b
  rw [conclude_eq]
  refine ⟨?_, (hblind.foldShapes_eq p.ladder).trans h.foldShapes_eq⟩
  rw [register_retired]
  exact hblind.inStep h.inStep

theorem sound_reset {c : Config} {p : Ittage} (h : Sound c p) : Sound c p.reset := by
  rcases p with ⟨config, ladder, history, random⟩
  have hfolds := Ladder.folds_reset ladder
  refine ⟨InStep.zero h.inStep hfolds, ?_⟩
  change foldShapes ladder.reset = _
  rw [← h.foldShapes_eq, foldShapes, hfolds, List.map_map]
  exact List.map_id _

theorem kept_sound (c : Config) : Kept (Sound c) where
  apply h := sound_apply h
  undo h := sound_undo h
  conclude h := sound_conclude h
  countRepair h := h
  reset h := sound_reset h

/-- A predictor that was built is a blank one, of a valid configuration for which there is room. -/
theorem exists_of_build {c : Config} {p : Ittage} (hbuild : c.build = .ok p) :
    c.validate = .ok () ∧ c.ladder.hasRoom = true ∧
      ∃ history,
        create c.ladder.historyBufferBits c.ladder.pathBits c.ladder.longestHistory =
          .ok history ∧
        p = ⟨c, .blank c.ladder, history, .ofSeed (c.seed?.getD 0)⟩ := by
  obtain ⟨_, hvalid, h⟩ := of_bind_eq_ok hbuild
  obtain ⟨_, hroom, h⟩ := of_bind_eq_ok h
  obtain ⟨history, hcreate, h⟩ := of_bind_eq_ok h
  exact ⟨of_mapError_eq_ok hvalid, of_require_eq_ok (of_mapError_eq_ok hroom), history,
    of_mapError_eq_ok hcreate, (Except.ok.inj h).symm⟩

theorem sound_build {c : Config} {p : Ittage} (hbuild : c.build = .ok p) : Sound c p := by
  obtain ⟨hvalid, -, history, hcreate, rfl⟩ := exists_of_build hbuild
  have hladder := c.ladder_of_validate hvalid
  obtain ⟨hlongest, hsize, rfl⟩ := create_eq_ok hcreate
  refine ⟨?_, Ladder.foldShapes_blank c.ladder⟩
  apply inStep_of_zero (HistoryRegister.bit_zeros c.ladder.historyBufferBits hsize)
    (Ladder.folds_blank c.ladder)
  intro s hs
  obtain ⟨hwidth, hwindow⟩ := Ladder.Config.foldShapes_bounds hladder s hs
  rw [HistoryRegister.size_zeros]
  exact ⟨hwidth, by omega⟩

/-! ## Records that can be applied and undone -/

/-- A definite record that fits the predictor and has no contribution. -/
structure Anchored (p : Ittage) (r : Record) : Prop where
  finalized : r.state = .finalized
  accepted : p.accepts r = true
  idle : r.contribution? = none

theorem anchored_lookup (p : Ittage) (pc : UInt64) (isConditional : Bool) :
    Anchored p (p.lookup pc isConditional) := by
  obtain ⟨hslots, hhit, halt⟩ := p.fits_find pc isConditional
  refine ⟨rfl, ?_, rfl⟩
  simp only [accepts, lookup, hslots, hhit, halt, Bool.and_self, Bool.or_true]

theorem finalize_of_finalized (p : Ittage) {r : Record} (h : r.state = .finalized)
    (pc : UInt64) : p.finalize r pc = r := by
  rw [finalize, h]

theorem accepts_congr {p q : Ittage} (hsize : q.ladder.size = p.ladder.size) (r : Record) :
    q.accepts r = p.accepts r := by
  simp only [accepts, Ladder.fits, Ladder.hasBank, hsize]

theorem accepts_apply (p : Ittage) (r : Record) (b : Branch) (r' : Record) :
    (apply p r b).1.accepts r' = p.accepts r' := by
  obtain ⟨g, -, hladder⟩ : ∃ g, KeepsShape g ∧ (p.appended b).2.2 = mapFolds g p.ladder :=
    exists_append_views _ _ _ _ _
  apply accepts_congr
  rw [apply_eq]
  change (p.appended b).2.2.size = _
  rw [hladder, Ladder.size_mapFolds]

/-- Undoing what was just applied returns to the state before; of the record only the draw that
it made is left. -/
theorem undo_apply_eq {c : Config} {p : Ittage} {r : Record} {b : Branch} (h : Sound c p)
    (hanchored : Anchored p r) (hroom : p.appendError? b = none) :
    undo (apply p r b).1 (apply p r b).2 =
      (p, { r with allocationSkip := (p.config.draw p.random).1 }) := by
  have hundo := rollback_append h.inStep (p.config.historyBits b).1
    (count_le_of_appendError? hroom) b.pc
  change (p.appended b).2.1.rollback (p.appended b).1 (p.appended b).2.2 = (p.history, p.ladder)
    at hundo
  have hidle := hanchored.idle
  rw [apply_eq, undo_eq _ rfl]
  simp only [hundo]
  rcases r with ⟨pc, isConditional, state, lookup, contribution?, allocationSkip⟩
  obtain rfl : contribution? = none := hidle
  rfl

theorem apply_allocationSkip (p : Ittage) (r : Record) (allocationSkip : Bool) (b : Branch) :
    apply p { r with allocationSkip } b = apply p r b := by
  rw [apply_eq, apply_eq]

theorem Anchored.allocationSkip {p : Ittage} {r : Record} (h : Anchored p r) (skip : Bool) :
    Anchored p { r with allocationSkip := skip } :=
  ⟨h.finalized, h.accepted, h.idle⟩

/-- The record that is left of an applied one once it is undone, whatever the state. -/
theorem undone_record (p : Ittage) {r : Record} (hidle : r.contribution? = none) (b : Branch) :
    (undo (apply p r b).1 (apply p r b).2).2 =
      { r with allocationSkip := (p.config.draw p.random).1 } := by
  rw [apply_eq, undo_eq _ rfl]
  rcases r with ⟨pc, isConditional, state, lookup, contribution?, allocationSkip⟩
  obtain rfl : contribution? = none := hidle
  rfl

theorem rewinds (c : Config) : Rewinds (Sound c) Anchored where
  kept := kept_sound c
  accepts_newRecord {p} _ predicted pc isConditional := by
    cases predicted with
    | true => exact (anchored_lookup p pc isConditional).accepted
    | false => rfl
  anchored_newRecord {p} _ predicted pc isConditional pc' := by
    cases predicted with
    | true => exact anchored_lookup p pc isConditional
    | false => exact anchored_lookup p pc' isConditional
  rollbackError?_of_none p r hnone := by
    change p.rollbackError? r = none
    simp only [rollbackError?, show r.contribution? = none from hnone]
  undo_of_none p r hnone := undo_of_none p hnone
  accepts_of_anchored h := h.accepted
  contribution?_of_anchored h := h.idle
  finalize_of_anchored h q pc := finalize_of_finalized q h.finalized pc
  accepts_apply := accepts_apply
  accepts_applied p q r b := by
    change q.accepts (apply p r b).2 = q.accepts r
    rw [apply_eq]
    rfl
  finalize_applied {p r} h b q pc := by
    apply finalize_of_finalized
    change (apply p r b).2.state = .finalized
    rw [apply_eq]
    exact h.finalized
  isSome_contribution?_applied p r b := by
    change (apply p r b).2.contribution?.isSome = true
    rw [apply_eq]
    rfl
  rollbackError?_applied p r b := by
    change (apply p r b).1.rollbackError? (apply p r b).2 = none
    have horder := disorder?_append p.history (p.config.historyBits b).1
      (p.config.historyBits b).2 b.pc p.ladder
    rw [apply_eq]
    exact congrArg (Option.map PredictorError.protocol) horder
  undo_apply h hanchored hroom := congrArg Prod.fst (undo_apply_eq h hanchored hroom)
  anchored_undone {p r} h b := by
    change Anchored p (undo (apply p r b).1 (apply p r b).2).2
    rw [undone_record p h.idle]
    exact h.allocationSkip _
  apply_undone {p r} h b b' := by
    change apply p (undo (apply p r b).1 (apply p r b).2).2 b' = apply p r b'
    rw [undone_record p h.idle, apply_allocationSkip]

/-! ## Commits under branches in flight -/

/-- The bits of a record are among those in flight. -/
def Counted (p : Ittage) (r : Record) : Prop :=
  p.history.Counts r.contribution?

/-- An older branch can commit before or after a younger one inserts its history. -/
theorem apply_conclude {p : Ittage} {r' : Record} (hcounted : Counted p r') (b' : Branch)
    (r : Record) (b : Branch) :
    apply (conclude p r' b') r b = (conclude (apply p r b).1 r' b', (apply p r b).2) := by
  rcases p with ⟨config, ladder, history, random⟩
  have happend : (history.retired r'.contribution?).append (config.historyBits b).1
      (config.historyBits b).2 b.pc (concluded r' b' ladder) = _ :=
    (append_change _ _ _ _ (foldBlind_concluded r' b') ladder).trans
      (by rw [retired_append _ _ _ _ hcounted])
  rw [conclude_eq, conclude_eq, apply_eq, apply_eq]
  simp only [appended, happend]

theorem retires (c : Config) : Retires (Sound c) Anchored Counted where
  toRewinds := rewinds c
  counted_applied p r b := by
    change Counted (apply p r b).1 (apply p r b).2
    rw [apply_eq]
    exact counts_appended _ _ _ _ _ _
  counted_apply {p r'} hcounted r b := by
    change Counted (apply p r b).1 r'
    rw [apply_eq]
    exact Counts.append _ _ _ _ hcounted
  apply_conclude _ := apply_conclude
  anchored_conclude {p r} _ hanchored r' b' := by
    refine ⟨hanchored.finalized, ?_, hanchored.idle⟩
    change (conclude p r' b').accepts r = true
    have hsize := Ladder.size_of_foldBlind (foldBlind_concluded r' b') p.ladder
    have haccepts : (conclude p r' b').accepts r = p.accepts r := by
      apply accepts_congr
      rw [conclude_eq]
      exact hsize
    rw [haccepts, hanchored.accepted]
  appendError?_conclude {p b} hroom r' b' := by
    change (conclude p r' b').appendError? b = none
    rw [conclude_eq]
    exact appendError?_retired hroom r'.contribution?

/-! ## A small predictor -/

/-- One table, and room for four bits in flight. -/
def smallConfig : Config where
  ladder :=
    { tables := [⟨2, 1, 2⟩]
      pathBits := 3
      historyBufferBits := 7
      maxInFlightBits := 3 }
  seed? := some 1

def small : Ittage where
  config := smallConfig
  ladder := .blank smallConfig.ladder
  history := ⟨.zeros 7 (by decide), .empty 3, 2, 0⟩
  random := .ofSeed 1

end Ittage

end BranchPrediction
