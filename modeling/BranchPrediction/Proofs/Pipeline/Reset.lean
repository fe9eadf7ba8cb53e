import BranchPrediction.Proofs.Learning.Forgetting
import BranchPrediction.Proofs.Pipeline.Ledger
import BranchPrediction.Proofs.Pipeline.Slots
import BranchPrediction.Proofs.Pipeline.Units

/-!
# A reset is a fresh build

A reset goes through the parts of a predictor and clears each where it stands; a build makes them
anew.  The two agree since no step changes what clearing leaves standing: the parts a reset sees are
the same after every step (`TageScl.Forgets`, `Ittage.Forgets`), and of the history they are its
dimensions and the width of its path.  So after any session, with branches in flight and after
refused calls, a reset returns the predictor that the configuration builds, and a unit gets back
every thread.  That the draws start over as well takes a seed in the configuration: without one a
reset may start them from another seed than the build did.
-/

namespace BranchPrediction

open SteppedPredictor HistoryKeeper

/-! ## Histories -/

namespace SpeculativeHistory

/-- What a clear leaves of a history are its dimensions and the width of its path. -/
theorem clear_congr {h k : SpeculativeHistory} (hdimensions : k.dimensions = h.dimensions)
    (hpath : k.path.bits = h.path.bits) : k.clear = h.clear := by
  obtain ⟨hsize, hlongest⟩ := Prod.mk.inj hdimensions
  rcases h with ⟨register, ⟨bits, value⟩, longest, inFlight⟩
  rcases k with ⟨register', ⟨bits', value'⟩, longest', inFlight'⟩
  change register'.size = register.size at hsize
  change longest' = longest at hlongest
  change bits' = bits at hpath
  subst hlongest hpath
  simp only [clear, HistoryRegister.clear, hsize]
  rfl

theorem clear_of_create {size pathBits longest : Nat} {h : SpeculativeHistory}
    (hcreate : create size pathBits longest = .ok h) : h.clear = h := by
  obtain ⟨-, hsize, rfl⟩ := create_eq_ok hcreate
  simp only [clear, HistoryRegister.clear, HistoryRegister.size_zeros]
  rfl

theorem dimensions_retired (h : SpeculativeHistory) (contribution? : Option Contribution) :
    (h.retired contribution?).dimensions = h.dimensions := by
  cases contribution? with
  | none => rfl
  | some c => rfl

theorem dimensions_clear (h : SpeculativeHistory) : h.clear.dimensions = h.dimensions :=
  Prod.ext h.register.size_clear rfl

end SpeculativeHistory

namespace KeepsHistory

variable {P R Q : Type} [SpeculativePredictor P R Q] [SteppedPredictor P] [HistoryKeeper P]
  {Sound : P → Prop} {bits : Branch → UInt64 × Nat}

theorem kept_dimensions (laws : KeepsHistory Sound) (dimensions : Nat × Nat) :
    Kept fun p : P => (history p).dimensions = dimensions where
  apply h r b := by rw [laws.history_apply, SpeculativeHistory.dimensions_insert, h]
  undo h r := by rw [laws.history_undo, SpeculativeHistory.dimensions_undone, h]
  conclude h r b := by rw [laws.history_conclude, SpeculativeHistory.dimensions_retired, h]
  countRepair h := by rw [laws.history_countRepair, h]
  reset h := by rw [laws.history_reset, SpeculativeHistory.dimensions_clear, h]

theorem clear_run (laws : KeepsHistory Sound) {p : P} (hfits : (Session.start p).Fits Sound bits)
    {size pathBits longest : Nat}
    (hcreate : SpeculativeHistory.create size pathBits longest = .ok (history p))
    (calls : List Call) :
    (history ((Session.start p).run calls).predictor).clear = history p := by
  have hdimensions := (laws.kept_dimensions (history p).dimensions).reachable rfl
    (Session.reachable_run (s := Session.start p) .origin calls)
  have hpath := laws.pathBits_run hfits hcreate calls
  have hpath₀ := laws.pathBits_run hfits hcreate []
  rw [Session.run_nil] at hpath₀
  rw [SpeculativeHistory.clear_congr hdimensions (hpath.trans hpath₀.symm),
    SpeculativeHistory.clear_of_create hcreate]

end KeepsHistory

/-! ## TAGE-SC-L -/

theorem LoopPredictor.reset_of_frame {p q : LoopPredictor} (hframe : q.frame = p.frame) :
    q.reset = p.reset :=
  congrArg blank (congrArg Prod.fst hframe)

theorem Corrector.reset_of_config {c k : Corrector} (hconfig : k.config = c.config) :
    k.reset = c.reset :=
  congrArg blank hconfig

namespace TageScl

open SpeculativeHistory

/-- Beside the history, a reset makes the same of one predictor as of the other. -/
structure Forgets (p q : TageScl) : Prop where
  config : q.config = p.config
  tage : q.tage.reset = p.tage.reset
  loops : q.loops?.map LoopPredictor.reset = p.loops?.map LoopPredictor.reset
  corrector : q.corrector?.map Corrector.reset = p.corrector?.map Corrector.reset

theorem Forgets.reset_eq {p q : TageScl} (h : Forgets p q)
    (hhistory : q.history.clear = p.history.clear) : q.reset = p.reset := by
  obtain ⟨hconfig, htage, hloops, hcorrector⟩ := h
  rcases p with ⟨config, tage, loops?, corrector?, history, random, stats⟩
  rcases q with ⟨config', tage', loops'?, corrector'?, history', random', stats'⟩
  change config' = config at hconfig
  subst hconfig
  simp only at htage hloops hcorrector hhistory
  simp only [reset, htage, hloops, hcorrector, hhistory]

/-- A change of the loop predictor, made or not, that keeps its frame is not seen by a reset. -/
theorem reset_loops {loops? : Option LoopPredictor} {change : LoopPredictor → LoopPredictor}
    (hframe : ∀ loops, (change loops).frame = loops.frame) (test : Bool) :
    (if test then loops?.map change else loops?).map LoopPredictor.reset =
      loops?.map LoopPredictor.reset := by
  split
  · cases loops? with
    | none => rfl
    | some loops => exact congrArg some (LoopPredictor.reset_of_frame (hframe loops))
  · rfl

theorem reset_views {p q : TageScl} {g : FoldedHistory → FoldedHistory} (hg : KeepsShape g)
    (hviews : q.views = mapFolds g p.views) :
    q.tage.reset = p.tage.reset ∧
      q.corrector?.map Corrector.reset = p.corrector?.map Corrector.reset := by
  have htage : q.tage = mapFolds g p.tage := congrArg Prod.fst hviews
  have hcorrector : q.corrector? = p.corrector?.map (mapFolds g) := congrArg Prod.snd hviews
  constructor
  · rw [htage, Tage.reset_mapFolds hg]
  · rw [hcorrector]
    cases p.corrector? with
    | none => rfl
    | some k => rfl

theorem kept_forgets (built : TageScl) : Kept (Forgets built) where
  apply {p} h r b := by
    change Forgets built (apply p r b).1
    -- of what a reset sees, only the values of the folds move, and it clears them
    obtain ⟨g, hg, hviews⟩ : ∃ g, KeepsShape g ∧ (p.appended b).2.2 = mapFolds g p.views :=
      exists_append_views _ _ _ _ _
    have hchanged : (apply p r b).1.views = mapFolds g p.views := by
      rw [apply_eq]
      exact hviews
    obtain ⟨htage, hcorrector⟩ := reset_views hg hchanged
    refine ⟨?_, htage.trans h.tage, ?_, hcorrector.trans h.corrector⟩
    · rw [apply_eq]
      exact h.config
    · rw [loops?_apply, reset_loops fun loops => loops.frame_speculate r.loop b.taken]
      exact h.loops
  undo {p} h r := by
    change Forgets built (undo p r).1
    cases hc : r.contribution? with
    | none => rwa [undo_of_none p hc]
    | some contribution =>
        obtain ⟨g, hg, hviews⟩ := exists_rollback_views p.history contribution.checkpoint p.views
        have hchanged : (undo p r).1.views = mapFolds g p.views := by
          rw [undo_eq p hc]
          exact hviews
        obtain ⟨htage, hcorrector⟩ := reset_views hg hchanged
        refine ⟨?_, htage.trans h.tage, ?_, hcorrector.trans h.corrector⟩
        · rw [undo_eq p hc]
          exact h.config
        · rw [loops?_undo p hc, reset_loops fun loops => loops.frame_restore r.loop]
          exact h.loops
  conclude {p} h r b := by
    change Forgets built (conclude p r b)
    refine ⟨?_, ?_, ?_, ?_⟩
    · rw [conclude_eq]
      exact h.config
    · rw [conclude_eq, ← h.tage]
      simp only [concluded]
      split
      · exact p.tage.reset_commit _ _ _ _
      · rfl
    · rw [loops?_conclude, reset_loops (frame_trainLoops r b.pc b.taken)]
      exact h.loops
    · rw [conclude_eq, ← h.corrector]
      simp only [concluded]
      split
      · change (p.corrector?.map _).map _ = _
        cases p.corrector? with
        | none => rfl
        | some k =>
            exact congrArg some (Corrector.reset_of_config (k.config_commit r.corrector b.taken))
      · rfl
  countRepair h := ⟨h.config, h.tage, h.loops, h.corrector⟩
  reset {p} h := by
    change Forgets built p.reset
    rcases p with ⟨config, tage, loops?, corrector?, history, random, stats⟩
    refine ⟨h.config, tage.reset_reset.trans h.tage, ?_, ?_⟩
    · rw [← h.loops]
      change (loops?.map LoopPredictor.reset).map LoopPredictor.reset = _
      cases loops? with
      | none => rfl
      | some loops => rfl
    · rw [← h.corrector]
      change (corrector?.map Corrector.reset).map Corrector.reset = _
      cases corrector? with
      | none => rfl
      | some k => rfl

theorem reset_build {c : Config} {p : TageScl} (hbuild : c.build = .ok p) : p.reset = p := by
  obtain ⟨-, -, history, hcreate, rfl⟩ := exists_of_build hbuild
  have hclear := clear_of_create hcreate
  have hloops : (c.loops?.map LoopPredictor.blank).map LoopPredictor.reset =
      c.loops?.map .blank := by
    cases c.loops? with
    | none => rfl
    | some loops => rfl
  have hcorrector : (c.corrector?.map Corrector.blank).map Corrector.reset =
      c.corrector?.map .blank := by
    cases c.corrector? with
    | none => rfl
    | some corrector => rfl
  simp only [reset, Tage.reset_blank, hloops, hcorrector, hclear]

/-- After any session a reset returns the predictor that the session started with. -/
theorem reset_run {c : Config} {p : TageScl} (hbuild : c.build = .ok p) (calls : List Call) :
    ((Session.start p).run calls).predictor.reset = p := by
  obtain ⟨-, -, hcreate⟩ := build_eq_ok hbuild
  have hforgets := (kept_forgets p).reachable ⟨rfl, rfl, rfl, rfl⟩
    (Session.reachable_run (s := Session.start p) .origin calls)
  have hhistory : ((Session.start p).run calls).predictor.history.clear = p.history :=
    (keepsHistory c).clear_run (fits_build hbuild) hcreate calls
  rw [hforgets.reset_eq (hhistory.trans (clear_of_create hcreate).symm), reset_build hbuild]

end TageScl

/-! ## ITTAGE -/

namespace Ittage

open SpeculativeHistory

/-- Beside the history, a reset makes the same of one predictor as of the other. -/
structure Forgets (p q : Ittage) : Prop where
  config : q.config = p.config
  ladder : q.ladder.reset = p.ladder.reset

theorem Forgets.reset_eq {p q : Ittage} (h : Forgets p q)
    (hhistory : q.history.clear = p.history.clear) : q.reset = p.reset := by
  obtain ⟨hconfig, hladder⟩ := h
  rcases p with ⟨config, ladder, history, random⟩
  rcases q with ⟨config', ladder', history', random'⟩
  change config' = config at hconfig
  subst hconfig
  simp only at hladder hhistory
  simp only [reset, hladder, hhistory]

theorem kept_forgets (built : Ittage) : Kept (Forgets built) where
  apply {p} h r b := by
    change Forgets built (apply p r b).1
    obtain ⟨g, hg, hladder⟩ : ∃ g, KeepsShape g ∧ (p.appended b).2.2 = mapFolds g p.ladder :=
      exists_append_views _ _ _ _ _
    rw [apply_eq]
    refine ⟨h.config, ?_⟩
    change (p.appended b).2.2.reset = _
    rw [hladder, Ladder.reset_mapFolds hg, h.ladder]
  undo {p} h r := by
    change Forgets built (undo p r).1
    cases hc : r.contribution? with
    | none => rwa [undo_of_none p hc]
    | some contribution =>
        obtain ⟨g, hg, hladder⟩ := exists_rollback_views p.history contribution.checkpoint p.ladder
        rw [undo_eq p hc]
        refine ⟨h.config, ?_⟩
        change (p.history.rollback contribution.checkpoint p.ladder).2.reset = _
        rw [hladder, Ladder.reset_mapFolds hg, h.ladder]
  conclude {p} h r b := by
    change Forgets built (conclude p r b)
    rw [conclude_eq]
    refine ⟨h.config, ?_⟩
    change (concluded r b p.ladder).reset = _
    rw [← h.ladder, concluded]
    split
    · exact reset_learn r b.target p.ladder
    · rfl
  countRepair h := h
  reset {p} h := by
    change Forgets built p.reset
    rcases p with ⟨config, ladder, history, random⟩
    exact ⟨h.config, ladder.reset_reset.trans h.ladder⟩

theorem reset_build {c : Config} {p : Ittage} (hbuild : c.build = .ok p) : p.reset = p := by
  obtain ⟨-, -, history, hcreate, rfl⟩ := exists_of_build hbuild
  have hclear := clear_of_create hcreate
  simp only [reset, Ladder.reset_blank, hclear]

theorem reset_run {c : Config} {p : Ittage} (hbuild : c.build = .ok p) (calls : List Call) :
    ((Session.start p).run calls).predictor.reset = p := by
  obtain ⟨-, -, hcreate⟩ := build_eq_ok hbuild
  have hforgets := (kept_forgets p).reachable ⟨rfl, rfl⟩
    (Session.reachable_run (s := Session.start p) .origin calls)
  have hhistory : ((Session.start p).run calls).predictor.history.clear = p.history :=
    (keepsHistory c).clear_run (fits_build hbuild) hcreate calls
  rw [hforgets.reset_eq (hhistory.trans (clear_of_create hcreate).symm), reset_build hbuild]

end Ittage

/-! ## Units -/

/-- If a reset returns every predictor of a unit from any session, it returns the unit. -/
theorem UnitSession.reset_run {P R Q : Type} [SpeculativePredictor P R Q] {u : PredictorUnit P}
    (hreset : ∀ (thread : Nat) (p : P), u.threads[thread]? = some p → ∀ calls : List Call,
      SpeculativePredictor.reset ((Session.start p).run calls).predictor = p)
    (calls : List (Nat × Call)) : ((UnitSession.start u).run calls).unit.reset = u := by
  have hsize := (UnitSession.start u).size_run calls
  have hthreads : ((UnitSession.start u).run calls).unit.threads.map SpeculativePredictor.reset =
      u.threads := by
    apply List.ext_getElem?
    intro thread
    rw [List.getElem?_map]
    cases hthread : u.threads[thread]? with
    | none =>
        have hout : u.threads.length ≤ thread := List.getElem?_eq_none_iff.1 hthread
        have hgone : ((UnitSession.start u).run calls).unit.threads[thread]? = none :=
          List.getElem?_eq_none_iff.2 (hsize.trans_le hout)
        rw [hgone]
        rfl
    | some p =>
        have hmirrors := UnitSession.mirrors_run (UnitSession.mirrors_start hthread) calls
        rw [hmirrors.predictor, Option.map_some, hreset thread p hthread]
  exact congrArg PredictorUnit.mk hthreads

/-- A reset is a fresh build.  Whatever calls a predictor with a seed has taken since it was built,
refused ones too, and with whatever branches in flight: a reset returns the predictor that was
built, in every part.  The same holds of a unit and of each of its threads. -/
theorem reset_eq_build :
    (∀ {c : TageScl.Config} {p : TageScl}, c.build = .ok p → c.seed?.isSome = true →
        ∀ calls : List Call, ((Session.start p).run calls).predictor.reset = p) ∧
      (∀ {c : Ittage.Config} {p : Ittage}, c.build = .ok p → c.seed?.isSome = true →
        ∀ calls : List Call, ((Session.start p).run calls).predictor.reset = p) ∧
      (∀ {count : Nat} {c : Nat → TageScl.Config} {u : PredictorUnit TageScl},
        PredictorUnit.build count (fun thread => (c thread).build) = .ok u →
          (∀ thread < count, (c thread).seed?.isSome = true) →
            ∀ calls : List (Nat × Call), ((UnitSession.start u).run calls).unit.reset = u) ∧
      ∀ {count : Nat} {c : Nat → Ittage.Config} {u : PredictorUnit Ittage},
        PredictorUnit.build count (fun thread => (c thread).build) = .ok u →
          (∀ thread < count, (c thread).seed?.isSome = true) →
            ∀ calls : List (Nat × Call), ((UnitSession.start u).run calls).unit.reset = u := by
  refine ⟨fun hbuild _ => TageScl.reset_run hbuild, fun hbuild _ => Ittage.reset_run hbuild, ?_, ?_⟩
  · intro count c u hbuild _ calls
    apply UnitSession.reset_run
    intro thread p hthread
    exact TageScl.reset_run (PredictorUnit.build_thread hbuild hthread)
  · intro count c u hbuild _ calls
    apply UnitSession.reset_run
    intro thread p hthread
    exact Ittage.reset_run (PredictorUnit.build_thread hbuild hthread)

/-- Two mispredicted branches commit, a third is refused, and a fourth is left in flight. -/
def brokenOffRun : List Call :=
  [.predict 0 4 true, .update 0 ⟨4, .directBranch, .taken, 64⟩,
    .commit 0 ⟨4, .directBranch, .taken, 64⟩, .predict 1 8 false,
    .update 1 ⟨8, .indirectJump, .taken, 64⟩, .predict 2 12 false,
    .update 2 ⟨12, .indirectCall, .taken, 32⟩, .predict 3 16 false,
    .update 3 ⟨16, .indirectJump, .taken, 32⟩, .commit 1 ⟨8, .indirectJump, .taken, 64⟩]

theorem brokenOffRun_reset_eq_build :
    (let q := ((Session.start (TageScl.small (some {}))).run brokenOffRun).predictor
     q.stats.mispredicts = 1 ∧ q.history.inFlight = 1 ∧ q.reset = TageScl.small (some {})) ∧
    (let q := ((Session.start Ittage.small).run brokenOffRun).predictor
     q.ladder.stats.allocations = 1 ∧ q.history.inFlight = 2 ∧ q.reset = Ittage.small) ∧
    (let u : PredictorUnit TageScl := ⟨[TageScl.small none, TageScl.small (some {})]⟩
     let v := ((UnitSession.start u).run (brokenOffRun.map (Prod.mk 1))).unit
     v.threads.map (·.history.inFlight) = [0, 1] ∧ v.reset = u) ∧
    (let u : PredictorUnit Ittage := ⟨[Ittage.small, Ittage.small]⟩
     let v := ((UnitSession.start u).run (brokenOffRun.map (Prod.mk 1))).unit
     v.threads.map (·.history.inFlight) = [0, 2] ∧ v.reset = u) := by
  obtain ⟨htageScl, hittage, htageScls, hittages⟩ := reset_eq_build
  have hthreads : PredictorUnit.build 2 (fun thread =>
      (TageScl.smallConfig (if thread = 0 then none else some {})).build) =
        .ok ⟨[TageScl.small none, TageScl.small (some {})]⟩ := rfl
  have hthreads' : PredictorUnit.build 2 (fun _ => Ittage.smallConfig.build) =
      .ok ⟨[Ittage.small, Ittage.small]⟩ := rfl
  refine ⟨⟨by decide +kernel, by decide +kernel, ?_⟩, ⟨by decide +kernel, by decide +kernel, ?_⟩,
    ⟨by decide +kernel, ?_⟩, ⟨by decide +kernel, ?_⟩⟩
  · exact htageScl (c := TageScl.smallConfig (some {})) rfl rfl brokenOffRun
  · exact hittage (c := Ittage.smallConfig) rfl rfl brokenOffRun
  · exact htageScls hthreads (fun _ _ => rfl) _
  · exact hittages hthreads' (fun _ _ => rfl) _

end BranchPrediction
