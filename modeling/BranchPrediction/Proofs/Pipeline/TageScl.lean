import BranchPrediction.Proofs.History.Rollback
import BranchPrediction.Proofs.Pipeline.Detour
import BranchPrediction.Proofs.Pipeline.Retire
import BranchPrediction.Proofs.Validation
import BranchPrediction.TageScl.Basic

/-!
# TAGE-SC-L takes back its youngest branch and retires its oldest

TAGE-SC-L has five pieces of speculative state: the bits of the register, the folds of TAGE and of
the corrector, the path, the random state, and the iteration counts of the loop predictor.
`Sound` is what every reachable predictor of a configuration satisfies, `Anchored` what makes a
record fit to be applied and undone without a trace, and `rewinds` proves the laws of both.

Without a loop predictor, what a commit learns and what a younger branch inserts do not meet, and
`retires` proves the laws for commits under branches in flight as well.
-/

namespace BranchPrediction

namespace TageScl

open SpeculativeHistory

def forgetRepairs (p : TageScl) : TageScl :=
  p.modifyStats fun s => { s with repairs := 0 }

instance : SteppedPredictor TageScl where
  accepts := accepts
  finalize := finalize
  contribution? r := r.contribution?
  appendError? := appendError?
  rollbackError? := rollbackError?
  apply := apply
  undo := undo
  conclude := conclude
  countRepair p := p.modifyStats fun s => { s with repairs := s.repairs + 1 }
  forget := forgetRepairs
  update_eq _ _ _ := rfl
  repair_eq _ _ _ := rfl
  commit_eq _ _ _ := rfl
  squash_eq _ _ := rfl
  predict_forget p _ _ := by
    rcases p with ⟨config, tage, loops?, corrector?, history, random, stats⟩
    rfl
  placeholder_forget _ _ _ := rfl
  accepts_forget p _ := by
    rcases p with ⟨config, tage, loops?, corrector?, history, random, stats⟩
    rfl
  finalize_forget p r _ := by
    rcases p with ⟨config, tage, loops?, corrector?, history, random, stats⟩
    unfold finalize
    cases r.state with
    | provisional => rfl
    | finalized => rfl
  appendError?_forget p _ := by
    rcases p with ⟨config, tage, loops?, corrector?, history, random, stats⟩
    rfl
  rollbackError?_forget p r := by
    rcases p with ⟨config, tage, loops?, corrector?, history, random, stats⟩
    rfl
  apply_forget p _ _ := by
    rcases p with ⟨config, tage, loops?, corrector?, history, random, stats⟩
    rfl
  undo_forget p r := by
    rcases p with ⟨config, tage, loops?, corrector?, history, random, stats⟩
    unfold undo
    cases r.contribution? with
    | none => rfl
    | some c => rfl
  conclude_forget p r b := by
    rcases p with ⟨config, tage, loops?, corrector?, history, random, stats⟩
    unfold conclude retire
    cases r.contribution? with
    | none =>
        cases b.kind.isConditional with
        | true => rfl
        | false => rfl
    | some c =>
        cases b.kind.isConditional with
        | true => rfl
        | false => rfl
  reset_forget p := by
    rcases p with ⟨config, tage, loops?, corrector?, history, random, stats⟩
    rfl
  forget_forget p := by
    rcases p with ⟨config, tage, loops?, corrector?, history, random, stats⟩
    rfl
  forget_countRepair p := by
    rcases p with ⟨config, tage, loops?, corrector?, history, random, stats⟩
    rfl

/-! ## The steps written out -/

def views (p : TageScl) : Tage × Option Corrector :=
  (p.tage, p.corrector?)

/-- What the history of a branch makes of the history and of the folds. -/
def appended (p : TageScl) (b : Branch) :
    Checkpoint × SpeculativeHistory × (Tage × Option Corrector) :=
  p.history.append (p.config.historyBits b).1 (p.config.historyBits b).2 b.pc p.views

/-- The branch advances an iteration count. -/
def advances (p : TageScl) (b : Branch) : Bool :=
  b.kind.isConditional && p.loops?.isSome

theorem apply_eq (p : TageScl) (r : Record) (b : Branch) :
    apply p r b =
      (⟨p.config, (p.appended b).2.2.1,
          if p.advances b then p.loops?.map (·.speculate r.loop b.taken) else p.loops?,
          (p.appended b).2.2.2, (p.appended b).2.1, (p.config.draw p.random).2, p.stats⟩,
        { r with
          draws := (p.config.draw p.random).1
          contribution? := some ⟨(p.appended b).1, p.random⟩
          loopAdvanced := r.loopAdvanced || p.advances b }) := by
  rcases p with ⟨config, tage, loops?, corrector?, history, random, stats⟩
  rfl

theorem undo_eq (p : TageScl) {r : Record} {c : Contribution} (hc : r.contribution? = some c) :
    undo p r =
      (⟨p.config, (p.history.rollback c.checkpoint p.views).2.1,
          if r.loopAdvanced then p.loops?.map (·.restore r.loop) else p.loops?,
          (p.history.rollback c.checkpoint p.views).2.2,
          (p.history.rollback c.checkpoint p.views).1, c.random, p.stats⟩,
        { r with contribution? := none, loopAdvanced := false }) := by
  rcases p with ⟨config, tage, loops?, corrector?, history, random, stats⟩
  simp only [undo, hc]
  rfl

theorem undo_of_none (p : TageScl) {r : Record} (hnone : r.contribution? = none) :
    undo p r = (p, r) := by
  simp only [undo, hnone]

/-- What the commit of a branch makes of TAGE and of the corrector. -/
def concluded (r : Record) (b : Branch) (views : Tage × Option Corrector) :
    Tage × Option Corrector :=
  if b.kind.isConditional then
    Prod.map (fun t : Tage => t.commit r.tage b.taken r.prediction r.draws.allocationSkip)
      (Option.map fun k : Corrector => k.commit r.corrector b.taken) views
  else views

theorem foldBlind_concluded (r : Record) (b : Branch) : FoldBlind (concluded r b) := by
  have htage := Tage.foldBlind_commit r.tage b.taken r.prediction r.draws.allocationSkip
  have hcorrector := (Corrector.foldBlind_commit r.corrector b.taken).option
  exact .cond (fun _ _ => Iff.rfl) (htage.prod hcorrector) .id

theorem conclude_eq (p : TageScl) (r : Record) (b : Branch) :
    conclude p r b =
      ⟨p.config, (concluded r b p.views).1,
        if b.kind.isConditional then p.loops?.map (trainLoops r b.pc b.taken) else p.loops?,
        (concluded r b p.views).2, p.history.retired r.contribution?, p.random,
        if b.kind.isConditional then p.stats.record r b.taken else p.stats⟩ := by
  rcases p with ⟨config, tage, loops?, corrector?, history, random, stats⟩
  unfold conclude retire concluded
  cases r.contribution? with
  | none =>
      cases b.kind.isConditional with
      | true => rfl
      | false => rfl
  | some c =>
      cases b.kind.isConditional with
      | true => rfl
      | false => rfl

/-! ## What every reachable predictor satisfies -/

def CorrectorFits : Option Corrector.Config → Option Corrector → Prop
  | none, none => True
  | some config, some corrector => corrector.config = config ∧ corrector.Shaped
  | _, _ => False

theorem CorrectorFits.map {config? : Option Corrector.Config} {corrector? : Option Corrector}
    (h : CorrectorFits config? corrector?) {change : Corrector → Corrector}
    (hconfig : ∀ k, (change k).config = k.config) (hshaped : ∀ k, k.Shaped → (change k).Shaped) :
    CorrectorFits config? (corrector?.map change) := by
  cases config? with
  | none =>
      cases corrector? with
      | none => exact h
      | some corrector => exact h.elim
  | some config =>
      cases corrector? with
      | none => exact h.elim
      | some corrector => exact ⟨(hconfig corrector).trans h.1, hshaped corrector h.2⟩

/-- The folds are those of the configuration and in step with the register, and the tables of the
corrector have their sizes. -/
structure Sound (c : Config) (p : TageScl) : Prop where
  inStep : InStep p.history.register p.views
  tage_foldShapes : foldShapes p.tage = c.ladder.foldShapes
  corrector : CorrectorFits c.corrector? p.corrector?

theorem Sound.shaped {c : Config} {p : TageScl} (h : Sound c p) (k : Corrector)
    (hk : p.corrector? = some k) : k.Shaped := by
  have hfits := h.corrector
  rw [hk] at hfits
  cases hconfig : c.corrector? with
  | none =>
      rw [hconfig] at hfits
      exact hfits.elim
  | some config =>
      rw [hconfig] at hfits
      exact hfits.2

/-- A change of the views that only moves the values of their folds keeps a predictor sound. -/
theorem Sound.of_mapFolds {c : Config} {p q : TageScl} (h : Sound c p)
    (hinStep : InStep q.history.register q.views) {g : FoldedHistory → FoldedHistory}
    (hg : KeepsShape g) (hviews : q.views = mapFolds g p.views) : Sound c q := by
  have htage : q.tage = mapFolds g p.tage := congrArg Prod.fst hviews
  have hcorrector : q.corrector? = p.corrector?.map (mapFolds g) := congrArg Prod.snd hviews
  refine ⟨hinStep, ?_, ?_⟩
  · rw [htage, foldShapes_mapFolds hg, h.tage_foldShapes]
  · rw [hcorrector]
    exact h.corrector.map (fun _ => rfl) fun k hk => hk.mapFolds hg

theorem sound_apply {c : Config} {p : TageScl} (h : Sound c p) (r : Record) (b : Branch) :
    Sound c (apply p r b).1 := by
  have hstep : InStep (p.appended b).2.1.register (p.appended b).2.2 :=
    inStep_append h.inStep _ _ _
  obtain ⟨g, hg, hviews⟩ : ∃ g, KeepsShape g ∧ (p.appended b).2.2 = mapFolds g p.views :=
    exists_append_views _ _ _ _ _
  rw [apply_eq]
  generalize p.appended b = appended at hstep hviews
  obtain ⟨checkpoint, history, tage, corrector?⟩ := appended
  exact h.of_mapFolds hstep hg hviews

theorem sound_undo {c : Config} {p : TageScl} (h : Sound c p) (r : Record) :
    Sound c (undo p r).1 := by
  cases hc : r.contribution? with
  | none =>
      rw [undo_of_none p hc]
      exact h
  | some contribution =>
      have hstep := inStep_rollback h.inStep contribution.checkpoint
      obtain ⟨g, hg, hviews⟩ :=
        exists_rollback_views p.history contribution.checkpoint p.views
      rw [undo_eq p hc]
      generalize p.history.rollback contribution.checkpoint p.views = undone at hstep hviews
      obtain ⟨history, tage, corrector?⟩ := undone
      exact h.of_mapFolds hstep hg hviews

theorem sound_conclude {c : Config} {p : TageScl} (h : Sound c p) (r : Record) (b : Branch) :
    Sound c (conclude p r b) := by
  rw [conclude_eq]
  refine ⟨?_, ?_, ?_⟩
  · change InStep (p.history.retired r.contribution?).register (concluded r b p.views)
    rw [register_retired]
    exact (foldBlind_concluded r b).inStep h.inStep
  · change foldShapes (concluded r b p.views).1 = c.ladder.foldShapes
    have hblind := Tage.foldBlind_commit r.tage b.taken r.prediction r.draws.allocationSkip
    unfold concluded
    split
    · exact (hblind.foldShapes_eq p.tage).trans h.tage_foldShapes
    · exact h.tage_foldShapes
  · change CorrectorFits c.corrector? (concluded r b p.views).2
    unfold concluded
    split
    · exact h.corrector.map (fun k => k.config_commit r.corrector b.taken)
        fun k hk => hk.commit r.corrector b.taken
    · exact h.corrector

theorem sound_reset {c : Config} {p : TageScl} (h : Sound c p) : Sound c p.reset := by
  rcases p with ⟨config, tage, loops?, corrector?, history, random, stats⟩
  obtain ⟨htage, hcorrector⟩ := inStep_prod.1 h.inStep
  refine ⟨inStep_prod.2 ⟨?_, ?_⟩, ?_, ?_⟩
  · exact InStep.zero htage (Ladder.folds_reset tage.ladder)
  · cases corrector? with
    | none => exact inStep_none _
    | some k =>
        have hshaped := h.shaped k rfl
        have hfolds := Corrector.folds_blank k.config
        rw [← hshaped.foldShapes_eq] at hfolds
        exact InStep.zero hcorrector hfolds
  · have hfolds : folds tage.reset =
        (foldShapes tage).map fun s => FoldedHistory.zero s.1 s.2 := Ladder.folds_reset tage.ladder
    change foldShapes tage.reset = _
    rw [← h.tage_foldShapes, foldShapes, hfolds, List.map_map]
    exact List.map_id _
  · exact h.corrector.map (fun _ => rfl) fun k hk =>
      Corrector.shaped_blank hk.biasLogSize_lt hk.historyLogSize_lt hk.pathLogSize_lt

theorem kept_sound (c : Config) : Kept (Sound c) where
  apply h := sound_apply h
  undo h := sound_undo h
  conclude h := sound_conclude h
  countRepair h := ⟨h.inStep, h.tage_foldShapes, h.corrector⟩
  reset h := sound_reset h

theorem exists_of_build {c : Config} {p : TageScl} (hbuild : c.build = .ok p) :
    c.validate = .ok () ∧ c.hasRoom = true ∧
      ∃ history,
        create c.ladder.historyBufferBits c.ladder.pathBits c.longestHistory = .ok history ∧
        p = ⟨c, .blank c.base c.ladder, c.loops?.map .blank, c.corrector?.map .blank, history,
          .ofSeed (c.seed?.getD 0), {}⟩ := by
  obtain ⟨_, hvalid, h⟩ := of_bind_eq_ok hbuild
  obtain ⟨_, hroom, h⟩ := of_bind_eq_ok h
  obtain ⟨history, hcreate, h⟩ := of_bind_eq_ok h
  exact ⟨of_mapError_eq_ok hvalid, of_require_eq_ok (of_mapError_eq_ok hroom), history,
    of_mapError_eq_ok hcreate, (Except.ok.inj h).symm⟩

theorem sound_build {c : Config} {p : TageScl} (hbuild : c.build = .ok p) :
    Sound c p ∧ p.loops? = c.loops?.map .blank := by
  obtain ⟨hvalid, -, history, hcreate, rfl⟩ := exists_of_build hbuild
  obtain ⟨hladder, hcorrector⟩ := c.parts_of_validate hvalid
  obtain ⟨hlongest, hsize, rfl⟩ := create_eq_ok hcreate
  have hbits := HistoryRegister.bit_zeros c.ladder.historyBufferBits hsize
  have hroom : ∀ {shapes : List (Nat × Nat)} {longest : Nat}, longest ≤ c.longestHistory →
      (∀ s ∈ shapes, s.1 < 64 ∧ s.2 ≤ longest) →
      ∀ s ∈ shapes, s.1 < 64 ∧
        s.2 < (HistoryRegister.zeros c.ladder.historyBufferBits hsize).size := by
    intro shapes longest hle hshapes s hs
    obtain ⟨hwidth, hwindow⟩ := hshapes s hs
    rw [HistoryRegister.size_zeros]
    exact ⟨hwidth, by omega⟩
  refine ⟨⟨inStep_prod.2 ⟨?_, ?_⟩, Ladder.foldShapes_blank c.ladder, ?_⟩, rfl⟩
  · exact inStep_of_zero hbits (Ladder.folds_blank c.ladder)
      (hroom (Nat.le_max_left _ _) (Ladder.Config.foldShapes_bounds hladder))
  · cases hconfig : c.corrector? with
    | none => exact inStep_none _
    | some config =>
        have hle : config.longestHistory ≤ c.longestHistory := by
          rw [Config.longestHistory, hconfig]
          exact Nat.le_max_right _ _
        exact inStep_of_zero hbits (Corrector.folds_blank config)
          (hroom hle (Corrector.Config.foldShapes_bounds (hcorrector config hconfig)))
  · cases hconfig : c.corrector? with
    | none => exact trivial
    | some config =>
        obtain ⟨hbias, hhistory, hpath⟩ :=
          Corrector.Config.logSizes_of_validate (hcorrector config hconfig)
        exact ⟨rfl, Corrector.shaped_blank (by omega) (by omega) (by omega)⟩

/-! ## Records that can be applied and undone -/

/-- A definite record that fits the predictor and has no contribution, and whose loop lookup holds
the present iteration count of its entry. -/
structure Anchored (p : TageScl) (r : Record) : Prop where
  finalized : r.state = .finalized
  accepted : p.accepts r = true
  idle : r.contribution? = none
  notAdvanced : r.loopAdvanced = false
  restored : ∀ loops, p.loops? = some loops → loops.restore r.loop = loops

theorem anchored_lookup {c : Config} {p : TageScl} (h : Sound c p) (pc : UInt64)
    (isConditional : Bool) : Anchored p (p.lookup pc isConditional) := by
  rcases p with ⟨config, tage, loops?, corrector?, history, random, stats⟩
  have htage : tage.fits (tage.predict pc history.path isConditional) = true :=
    tage.fits_predict pc history.path isConditional
  refine ⟨rfl, ?_, rfl, rfl, ?_⟩
  · have hloops : loops?.all (·.fits (lookupLoop ⟨config, tage, loops?, corrector?, history,
        random, stats⟩ pc (tage.predict pc history.path isConditional).outcome).1) = true := by
      cases loops? with
      | none => rfl
      | some loops => exact loops.fits_lookup pc
    have hcorrector : ∀ primary, corrector?.all (·.fits (lookupCorrector ⟨config, tage, loops?,
        corrector?, history, random, stats⟩ pc (tage.predict pc history.path isConditional)
          primary)) = true := by
      intro primary
      cases corrector? with
      | none => rfl
      | some k =>
          have hshaped := h.shaped k rfl
          exact hshaped.fits_predict pc _ _ primary history.path
    simp only [accepts, lookup, htage, hloops, hcorrector, Bool.and_self, Bool.or_true]
  · rintro loops rfl
    exact loops.restore_lookup pc

theorem finalize_of_finalized (p : TageScl) {r : Record} (h : r.state = .finalized)
    (pc : UInt64) : p.finalize r pc = r := by
  rw [finalize, h]

theorem accepts_apply (p : TageScl) (r : Record) (b : Branch) (r' : Record) :
    (apply p r b).1.accepts r' = p.accepts r' := by
  obtain ⟨g, -, hviews⟩ : ∃ g, KeepsShape g ∧ (p.appended b).2.2 = mapFolds g p.views :=
    exists_append_views _ _ _ _ _
  have htage : (p.appended b).2.2.1.fits r'.tage = p.tage.fits r'.tage := by
    rw [hviews]
    exact Tage.fits_mapFolds g p.tage r'.tage
  have hcorrector : (p.appended b).2.2.2.all (·.fits r'.corrector) =
      p.corrector?.all (·.fits r'.corrector) := by
    rw [hviews]
    change (p.corrector?.map (mapFolds g)).all _ = _
    cases p.corrector? with
    | none => rfl
    | some k => rfl
  have hloops : (if p.advances b then p.loops?.map (·.speculate r.loop b.taken)
      else p.loops?).all (·.fits r'.loop) = p.loops?.all (·.fits r'.loop) := by
    split
    · cases p.loops? with
      | none => rfl
      | some loops => exact loops.fits_speculate r.loop b.taken r'.loop
    · rfl
  rw [apply_eq]
  simp only [accepts, htage, hcorrector, hloops]

/-- An advance of the iteration count, if there was one, is written over. -/
theorem restored_loops {p : TageScl} {r : Record} (hanchored : Anchored p r) (b : Branch) :
    (if r.loopAdvanced || p.advances b then
        (if p.advances b then p.loops?.map (·.speculate r.loop b.taken) else p.loops?).map
          (·.restore r.loop)
      else if p.advances b then p.loops?.map (·.speculate r.loop b.taken) else p.loops?) =
      p.loops? := by
  rw [hanchored.notAdvanced, Bool.false_or]
  cases hadvances : p.advances b with
  | false => rfl
  | true =>
      simp only [if_true]
      cases hloops : p.loops? with
      | none => rfl
      | some loops =>
          simp only [Option.map_some, LoopPredictor.restore_speculate,
            hanchored.restored loops hloops]

/-- Undoing what was just applied returns to the state before; of the record only the draws that
it made are left. -/
theorem undo_apply_eq {c : Config} {p : TageScl} {r : Record} {b : Branch} (h : Sound c p)
    (hanchored : Anchored p r) (hroom : p.appendError? b = none) :
    undo (apply p r b).1 (apply p r b).2 =
      (p, { r with draws := (p.config.draw p.random).1 }) := by
  have hundo := rollback_append h.inStep (p.config.historyBits b).1
    (count_le_of_appendError? hroom) b.pc
  change (p.appended b).2.1.rollback (p.appended b).1 (p.appended b).2.2 = (p.history, p.views)
    at hundo
  have hloops := restored_loops hanchored b
  have hidle := hanchored.idle
  have hnotAdvanced := hanchored.notAdvanced
  rw [apply_eq]
  generalize p.appended b = appended at hundo
  obtain ⟨checkpoint, history, tage, corrector?⟩ := appended
  change history.rollback checkpoint (tage, corrector?) = _ at hundo
  rw [undo_eq _ rfl]
  simp only [views] at hundo ⊢
  rw [hundo, hloops]
  rcases r with ⟨pc, isConditional, state, tageLookup, loop, corrector, primary, prediction,
    contribution?, draws, loopAdvanced⟩
  obtain rfl : contribution? = none := hidle
  obtain rfl : loopAdvanced = false := hnotAdvanced
  rfl

theorem apply_draws (p : TageScl) (r : Record) (draws : Draws) (b : Branch) :
    apply p { r with draws } b = apply p r b := by
  rw [apply_eq, apply_eq]

theorem Anchored.draws {p : TageScl} {r : Record} (h : Anchored p r) (draws : Draws) :
    Anchored p { r with draws } :=
  ⟨h.finalized, h.accepted, h.idle, h.notAdvanced, h.restored⟩

theorem undone_record (p : TageScl) {r : Record} (hidle : r.contribution? = none)
    (hnotAdvanced : r.loopAdvanced = false) (b : Branch) :
    (undo (apply p r b).1 (apply p r b).2).2 =
      { r with draws := (p.config.draw p.random).1 } := by
  rw [apply_eq, undo_eq _ rfl]
  rcases r with ⟨pc, isConditional, state, tageLookup, loop, corrector, primary, prediction,
    contribution?, draws, loopAdvanced⟩
  obtain rfl : contribution? = none := hidle
  obtain rfl : loopAdvanced = false := hnotAdvanced
  rfl

theorem rewinds (c : Config) : Rewinds (Sound c) Anchored where
  kept := kept_sound c
  accepts_newRecord h predicted pc isConditional := by
    cases predicted with
    | true => exact (anchored_lookup h pc isConditional).accepted
    | false => rfl
  anchored_newRecord h predicted pc isConditional pc' := by
    cases predicted with
    | true => exact anchored_lookup h pc isConditional
    | false => exact anchored_lookup h pc' isConditional
  rollbackError?_of_none p r hnone := by
    change p.rollbackError? r = none
    simp only [rollbackError?, show r.contribution? = none from hnone]
  undo_of_none p r hnone := undo_of_none p hnone
  accepts_of_anchored h := h.accepted
  contribution?_of_anchored h := h.idle
  finalize_of_anchored h q pc := finalize_of_finalized q h.finalized pc
  accepts_apply := accepts_apply
  accepts_applied p q r b := by
    change q.accepts (apply p r b).2 = q.accepts r
    rw [apply_eq]
    rfl
  finalize_applied {p r} h b q pc := by
    apply finalize_of_finalized
    change (apply p r b).2.state = .finalized
    rw [apply_eq]
    exact h.finalized
  isSome_contribution?_applied p r b := by
    change (apply p r b).2.contribution?.isSome = true
    rw [apply_eq]
    rfl
  rollbackError?_applied p r b := by
    change (apply p r b).1.rollbackError? (apply p r b).2 = none
    have horder := disorder?_append p.history (p.config.historyBits b).1
      (p.config.historyBits b).2 b.pc p.views
    rw [apply_eq]
    exact congrArg (Option.map PredictorError.protocol) horder
  undo_apply h hanchored hroom := congrArg Prod.fst (undo_apply_eq h hanchored hroom)
  anchored_undone {p r} h b := by
    change Anchored p (undo (apply p r b).1 (apply p r b).2).2
    rw [undone_record p h.idle h.notAdvanced]
    exact h.draws _
  apply_undone {p r} h b b' := by
    change apply p (undo (apply p r b).1 (apply p r b).2).2 b' = apply p r b'
    rw [undone_record p h.idle h.notAdvanced, apply_draws]

/-- A branch inserts at most one bit, so that it is refused only when the history is full. -/
theorem refusesOverflowsOnly (c : Config) : RefusesOverflowsOnly (Sound c) := by
  intro p b _
  have hcount : ¬64 < (p.config.historyBits b).2 := by
    unfold Config.historyBits
    split
    · simp
    · split <;> simp
  change Session.OverflowsOnly (p.history.appendError? (p.config.historyBits b).2).toList
  rw [SpeculativeHistory.appendError?, if_neg hcount, overflow?]
  split
  · intro error herror
    simp only [Option.map_some, Option.toList_some, List.mem_singleton] at herror
    exact ⟨_, _, herror⟩
  · exact Session.overflowsOnly_nil

/-! ## Commits under branches in flight -/

def Loopless (p : TageScl) : Prop :=
  p.loops? = none

theorem kept_loopless : Kept Loopless where
  apply {p} h r b := by
    change (apply p r b).1.loops? = none
    rw [apply_eq]
    simp [show p.loops? = none from h]
  undo {p} h r := by
    change (undo p r).1.loops? = none
    cases hc : r.contribution? with
    | none =>
        rw [undo_of_none p hc]
        exact h
    | some c =>
        rw [undo_eq p hc]
        simp [show p.loops? = none from h]
  conclude {p} h r b := by
    change (conclude p r b).loops? = none
    rw [conclude_eq]
    simp [show p.loops? = none from h]
  countRepair h := h
  reset {p} h := by
    change p.reset.loops? = none
    rcases p with ⟨config, tage, loops?, corrector?, history, random, stats⟩
    exact congrArg (Option.map LoopPredictor.reset) h

def Counted (p : TageScl) (r : Record) : Prop :=
  p.history.Counts r.contribution?

/-- Without a loop predictor an older branch can commit before or after a younger one inserts its
history.  With one it cannot: the commit trains the iteration counts that the younger one advances.
-/
theorem apply_conclude {p : TageScl} {r' : Record} (hloopless : Loopless p)
    (hcounted : Counted p r') (b' : Branch) (r : Record) (b : Branch) :
    apply (conclude p r' b') r b = (conclude (apply p r b).1 r' b', (apply p r b).2) := by
  rcases p with ⟨config, tage, loops?, corrector?, history, random, stats⟩
  obtain rfl : loops? = none := hloopless
  have happend : (history.retired r'.contribution?).append (config.historyBits b).1
      (config.historyBits b).2 b.pc (concluded r' b' (tage, corrector?)) = _ :=
    (append_change _ _ _ _ (foldBlind_concluded r' b') (tage, corrector?)).trans
      (by rw [retired_append _ _ _ _ hcounted])
  rw [conclude_eq, conclude_eq, apply_eq, apply_eq]
  simp only [appended, views, happend, advances, Option.isSome_none, Bool.and_false,
    Bool.or_false, Option.map_none, ite_self]

theorem retires (c : Config) : Retires (fun p => Sound c p ∧ Loopless p) Anchored Counted where
  toRewinds := (rewinds c).strengthen kept_loopless
  counted_applied p r b := by
    change Counted (apply p r b).1 (apply p r b).2
    rw [apply_eq]
    exact counts_appended _ _ _ _ _ _
  counted_apply {p r'} hcounted r b := by
    change Counted (apply p r b).1 r'
    rw [apply_eq]
    exact Counts.append _ _ _ _ hcounted
  apply_conclude h := apply_conclude h.2
  anchored_conclude {p r} h hanchored r' b' := by
    have hloops : (conclude p r' b').loops? = none := kept_loopless.conclude h.2 r' b'
    refine ⟨hanchored.finalized, ?_, hanchored.idle, hanchored.notAdvanced, ?_⟩
    · change (conclude p r' b').accepts r = true
      have htage : (concluded r' b' p.views).1.fits r.tage = p.tage.fits r.tage := by
        unfold concluded
        split
        · exact Tage.fits_commit _ _ _ _ _ _
        · rfl
      have hcorrector : (concluded r' b' p.views).2.all (·.fits r.corrector) =
          p.corrector?.all (·.fits r.corrector) := by
        unfold concluded
        split
        · change (p.corrector?.map _).all _ = _
          cases p.corrector? with
          | none => rfl
          | some k => exact Corrector.fits_commit k r'.corrector b'.taken r.corrector
        · rfl
      have haccepted := hanchored.accepted
      simp only [accepts, show p.loops? = none from h.2] at haccepted
      simp only [accepts, hloops]
      rw [conclude_eq]
      simp only [htage, hcorrector]
      exact haccepted
    · intro loops hsome
      cases hloops.symm.trans hsome
  appendError?_conclude {p b} hroom r' b' := by
    change (conclude p r' b').appendError? b = none
    rw [conclude_eq]
    exact appendError?_retired hroom r'.contribution?

/-! ## A small predictor -/

/-- One table, a corrector with one window, and room for two branches in flight. -/
def smallConfig (loops? : Option LoopPredictor.Config) : Config where
  base := { logSize := 1 }
  ladder :=
    { tables := [⟨2, 1, 2⟩]
      pathBits := 3
      historyBufferBits := 6
      maxInFlightBits := 2 }
  loops?
  corrector? := some
    { biasLogSize := 1
      historyLengths := [3]
      historyLogSize := 1
      pathLogSize := 1 }
  seed? := some 1

def small (loops? : Option LoopPredictor.Config) : TageScl where
  config := smallConfig loops?
  tage := .blank (smallConfig loops?).base (smallConfig loops?).ladder
  loops? := loops?.map .blank
  corrector? := (smallConfig loops?).corrector?.map .blank
  history := ⟨.zeros 6 (by decide), .empty 3, 3, 0⟩
  random := .ofSeed 1
  stats := {}

end TageScl

end BranchPrediction
