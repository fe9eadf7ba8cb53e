import BranchPrediction.Proofs.Evaluation.Course
import BranchPrediction.Proofs.Learning.Counts
import BranchPrediction.Proofs.Pipeline.Isolation

/-!
# The tallies of an evaluation

Misses are counted twice and independently: the evaluator compares each prediction with the branch
when it is fetched, and the predictor judges its own record when the branch commits.  The two
accounts agree over every list of branches (`TageScl.Tallied`, `Ittage.Tallied`), and neither
depends on the wrong paths that were taken: predictors and misses are those of the course.

The wrong paths may come from any source (`WrongPaths`); the random ones of a workload are an
instance (`run_eq_evaluate`).
-/

namespace BranchPrediction

open SteppedPredictor

/-! ## Shares of one branch -/

namespace TageScl

theorem courses (c : Config) : Courses (Sound c) Anchored where
  toRewinds := rewinds c
  finalize_predict _ _ _ _ := rfl
  anchored_countRepair {p r} h := by
    rcases p with ⟨config, tage, loops?, corrector?, history, random, stats⟩
    exact ⟨h.finalized, h.accepted, h.idle, h.notAdvanced, h.restored⟩
  apply_countRepair p r b := by
    rcases p with ⟨config, tage, loops?, corrector?, history, random, stats⟩
    rfl

/-- What a commit counts is the final prediction of the record. -/
theorem stats_finish (p : TageScl) (r : Record) (b : Branch) :
    (finish p r b).stats = if b.kind.isConditional then p.stats.record r b.taken else p.stats := by
  change (conclude (apply p r b).1 (apply p r b).2 b).stats = _
  rw [conclude_eq, apply_eq]
  rfl

theorem score_finish (p : TageScl) (r : Record) (b : Branch) :
    (finish p r b).tage.ladder.score =
      if b.kind.isConditional then p.tage.ladder.score.add (r.tage.outcome = b.taken)
      else p.tage.ladder.score := by
  obtain ⟨g, -, hviews⟩ : ∃ g, KeepsShape g ∧ (p.appended b).2.2 = mapFolds g p.views :=
    SpeculativeHistory.exists_append_views _ _ _ _ _
  have happlied : (apply p r b).1.tage.ladder.score = p.tage.ladder.score := by
    rw [apply_eq, hviews]
    rfl
  change (conclude (apply p r b).1 (apply p r b).2 b).tage.ladder.score = _
  rw [conclude_eq, concluded]
  split
  · refine (Tage.score_commit _ _ _ _ _).trans ?_
    rw [apply_eq] at happlied ⊢
    exact congrArg (Score.add · _) happlied
  · exact happlied

theorem misreads_eq (p : TageScl) (b : Branch) :
    misreads p b = (b.kind.isConditional && decide ((recordOf p b).prediction ≠ b.taken)) := by
  change (misread? (recordOf p b).prediction b).isSome = _
  unfold misread?
  split
  · next h => rw [h, Option.isSome_some]
  · next h => rw [Bool.eq_false_of_not_eq_true h, Option.isSome_none]

theorem repairs_misread (p : TageScl) (b : Branch) :
    (if misreads p b then countRepair p else p).stats.repairs =
      p.stats.repairs + (misreads p b).toNat := by
  cases misreads p b with
  | true => rfl
  | false => rfl

/-- The shares of a branch in the statistics. -/
theorem stats_settled (p : TageScl) (b : Branch) :
    (settled p b).stats.commits = p.stats.commits + b.kind.isConditional.toNat ∧
      (settled p b).stats.mispredicts = p.stats.mispredicts + (misreads p b).toNat ∧
      (settled p b).stats.repairs = p.stats.repairs + (misreads p b).toNat := by
  have hrepairs := p.repairs_misread b
  have hmisreads := p.misreads_eq b
  rw [settled, stats_finish]
  by_cases hconditional : b.kind.isConditional = true
  · rw [hconditional, Bool.true_and] at hmisreads
    rw [if_pos hconditional, hconditional]
    refine ⟨?_, ?_, hrepairs⟩
    · cases misreads p b <;> rfl
    · simp only [Stats.record, ← hmisreads]
      cases misreads p b <;> rfl
  · rw [Bool.eq_false_of_not_eq_true hconditional, Bool.false_and] at hmisreads
    rw [if_neg hconditional, Bool.eq_false_of_not_eq_true hconditional, hmisreads]
    exact ⟨rfl, rfl, rfl⟩

/-- The shares of a branch in the score.  TAGE judges its own outcome, so that right and wrong are
not those of the pipeline. -/
theorem score_settled (p : TageScl) (b : Branch) :
    (settled p b).tage.ladder.score.judged =
        p.tage.ladder.score.judged + b.kind.isConditional.toNat ∧
      (settled p b).tage.ladder.score.commits =
        p.tage.ladder.score.commits + b.kind.isConditional.toNat := by
  have hsame : (if misreads p b then countRepair p else p).tage = p.tage := by
    by_cases hmisread : misreads p b = true
    · rw [if_pos hmisread]
      rfl
    · rw [if_neg hmisread]
  rw [settled, score_finish, hsame]
  by_cases hconditional : b.kind.isConditional = true
  · rw [if_pos hconditional, hconditional]
    exact ⟨Score.judged_add _ _, rfl⟩
  · rw [if_neg hconditional, Bool.eq_false_of_not_eq_true hconditional]
    exact ⟨rfl, rfl⟩

/-- What the evaluator and the predictor count of a run of the direction predictor. -/
structure Tallied (branches : List Branch) (detour : Nat) (tally : Evaluation.Tally)
    (p : TageScl) : Prop where
  mispredicts_eq : p.stats.mispredicts = tally.misread
  repairs_eq : p.stats.repairs = tally.misread
  commits_eq : p.stats.commits = branches.countP (·.kind.isConditional)
  judged_eq : p.tage.ladder.stats.correct.total + p.tage.ladder.stats.wrong.total =
    branches.countP (·.kind.isConditional)
  clock_eq : p.tage.ladder.stats.commits = branches.countP (·.kind.isConditional)
  squashed_eq : tally.squashed = detour * tally.misread

theorem counts_build {c : Config} {p : TageScl} (hbuild : c.build = .ok p) :
    p.stats = {} ∧ p.tage.ladder.score = ⟨0, 0, 0⟩ := by
  obtain ⟨-, -, history, -, rfl⟩ := exists_of_build hbuild
  exact ⟨rfl, Ladder.score_blank c.ladder⟩

/-- Along its course, a new predictor counts what the evaluator does. -/
theorem tallied_course {c : Config} {p : TageScl} (hbuild : c.build = .ok p)
    (branches : List Branch) (detour unpredicted : Nat) :
    Tallied branches detour
      ⟨misreadsAlong p branches, unpredicted, detour * misreadsAlong p branches⟩
      (course p branches) := by
  obtain ⟨hstats, hscore⟩ := counts_build hbuild
  have hmispredicts := measure_course (fun p : TageScl => p.stats.mispredicts)
    (fun p b => (p.stats_settled b).2.1) p branches
  have hrepairs := measure_course (fun p : TageScl => p.stats.repairs)
    (fun p b => (p.stats_settled b).2.2) p branches
  have hcommits := measure_course_countP (fun p : TageScl => p.stats.commits)
    (fun p b => (p.stats_settled b).1) p branches
  have hjudged := measure_course_countP (fun p : TageScl => p.tage.ladder.score.judged)
    (fun p b => (p.score_settled b).1) p branches
  have hclock := measure_course_countP (fun p : TageScl => p.tage.ladder.score.commits)
    (fun p b => (p.score_settled b).2) p branches
  rw [hstats, Nat.zero_add] at hmispredicts hrepairs hcommits
  rw [hscore] at hjudged hclock
  exact ⟨hmispredicts, hrepairs, hcommits, hjudged.trans (Nat.zero_add _),
    hclock.trans (Nat.zero_add _), rfl⟩

end TageScl

namespace Ittage

theorem courses (c : Config) : Courses (Sound c) Anchored where
  toRewinds := rewinds c
  finalize_predict _ _ _ _ := rfl
  anchored_countRepair h := h
  apply_countRepair _ _ _ := rfl

theorem score_finish (p : Ittage) (r : Record) (b : Branch) :
    (finish p r b).ladder.score =
      if b.kind.usesTargetTables then p.ladder.score.add (r.lookup.target? = some b.target)
      else p.ladder.score := by
  obtain ⟨g, -, hladder⟩ : ∃ g, KeepsShape g ∧ (p.appended b).2.2 = mapFolds g p.ladder :=
    SpeculativeHistory.exists_append_views _ _ _ _ _
  have happlied : (p.appended b).2.2.score = p.ladder.score := by
    rw [hladder, Ladder.score_mapFolds]
  change (conclude (apply p r b).1 (apply p r b).2 b).ladder.score = _
  rw [conclude_eq, apply_eq]
  unfold concluded
  split
  · refine (score_learn _ _ _).trans ?_
    rw [happlied]
  · exact happlied

/-- The pipeline has no prediction of a branch of the target tables. -/
def isUnpredicted (b : Branch) (prediction : Option UInt64) : Bool :=
  b.kind.usesTargetTables && prediction.isNone

/-- The pipeline misses the branches of the target tables whose target is not the predicted one:
it misreads them or has no prediction. -/
theorem missed_eq (p : Ittage) (b : Branch) :
    (misreads p b).toNat + (isUnpredicted b (predictionOf p b)).toNat =
      (b.kind.usesTargetTables &&
        !decide ((recordOf p b).lookup.target? = some b.target)).toNat := by
  change (misread? (predictionOf p b) b).isSome.toNat + _ =
    (b.kind.usesTargetTables && !decide (predictionOf p b = some b.target)).toNat
  cases predictionOf p b with
  | none => simp [misread?, isUnpredicted]
  | some target =>
      by_cases hright : target = b.target
      · simp [misread?, isUnpredicted, hright]
      · cases hkind : b.kind.usesTargetTables with
        | true => simp [misread?, isUnpredicted, hkind, hright]
        | false => simp [misread?, isUnpredicted, hkind]

theorem score_settled (p : Ittage) (b : Branch) :
    (settled p b).ladder.score.wrong =
        p.ladder.score.wrong +
          ((misreads p b).toNat + (isUnpredicted b (predictionOf p b)).toNat) ∧
      (settled p b).ladder.score.judged =
        p.ladder.score.judged + b.kind.usesTargetTables.toNat ∧
      (settled p b).ladder.score.commits =
        p.ladder.score.commits + b.kind.usesTargetTables.toNat := by
  have hsame : (if misreads p b then countRepair p else p) = p := ite_self p
  rw [settled, hsame, score_finish, p.missed_eq]
  by_cases hkind : b.kind.usesTargetTables = true
  · rw [if_pos hkind, hkind]
    exact ⟨rfl, Score.judged_add _ _, rfl⟩
  · rw [if_neg hkind, Bool.eq_false_of_not_eq_true hkind]
    exact ⟨rfl, rfl, rfl⟩

/-- What the evaluator and the predictor count of a run of the target predictor. -/
structure Tallied (branches : List Branch) (detour : Nat) (tally : Evaluation.Tally)
    (p : Ittage) : Prop where
  wrong_eq : p.ladder.stats.wrong.total = tally.misread + tally.unpredicted
  judged_eq : p.ladder.stats.correct.total + p.ladder.stats.wrong.total =
    branches.countP (·.kind.usesTargetTables)
  clock_eq : p.ladder.stats.commits = branches.countP (·.kind.usesTargetTables)
  squashed_eq : tally.squashed = detour * tally.misread

theorem counts_build {c : Config} {p : Ittage} (hbuild : c.build = .ok p) :
    p.ladder.score = ⟨0, 0, 0⟩ := by
  obtain ⟨-, -, history, -, rfl⟩ := exists_of_build hbuild
  exact Ladder.score_blank c.ladder

theorem tallied_course {c : Config} {p : Ittage} (hbuild : c.build = .ok p)
    (branches : List Branch) (detour : Nat) :
    Tallied branches detour
      ⟨misreadsAlong p branches,
        costAlong (fun p b => (isUnpredicted b (predictionOf p b)).toNat) p branches,
        detour * misreadsAlong p branches⟩
      (course p branches) := by
  have hscore := counts_build hbuild
  have hwrong := measure_course (fun p : Ittage => p.ladder.score.wrong)
    (fun p b => (p.score_settled b).1) p branches
  have hjudged := measure_course_countP (fun p : Ittage => p.ladder.score.judged)
    (fun p b => (p.score_settled b).2.1) p branches
  have hclock := measure_course_countP (fun p : Ittage => p.ladder.score.commits)
    (fun p b => (p.score_settled b).2.2) p branches
  rw [costAlong_add] at hwrong
  rw [hscore] at hwrong hjudged hclock
  exact ⟨hwrong.trans (Nat.zero_add _), hjudged.trans (Nat.zero_add _),
    hclock.trans (Nat.zero_add _), rfl⟩

end Ittage

/-! ## Wrong paths -/

structure WrongPaths where
  State : Type
  state : State
  next : Branch → State → List Branch × State
  length : Nat
  length_next : ∀ b s, (next b s).1.length = length

theorem Workload.length_wrongPath (count : Nat) (w : Workload) :
    (w.wrongPath count).1.length = count := by
  induction count generalizing w with
  | zero => rfl
  | succ count ih =>
      have hrest := ih w.wrongBranch.2
      simp only [wrongPath, List.length_cons, hrest]

/-- The random wrong paths of a workload. -/
def WrongPaths.ofWorkload (w : Workload) (detour : Nat) : WrongPaths where
  State := Workload
  state := w
  next _ w := w.wrongPath detour
  length := detour
  length_next _ w := w.length_wrongPath detour

/-- Wrong paths on which the same branch comes again and again. -/
def WrongPaths.repeating (b : Branch) (count : Nat) : WrongPaths where
  State := Unit
  state := ()
  next _ s := (List.replicate count b, s)
  length := count
  length_next _ _ := List.length_replicate

theorem PredictorUnit.single_of_build {P : Type} {build : Nat → Except PredictorError P}
    {u : PredictorUnit P} (hbuild : PredictorUnit.build 1 build = .ok u) :
    ∃ p, build 0 = .ok p ∧ u = single p := by
  obtain ⟨hsize, hthreads⟩ := threads_of_build hbuild
  obtain ⟨p, hp, hthread⟩ := hthreads 0 Nat.one_pos
  rcases u with ⟨threads⟩
  obtain ⟨q, rfl⟩ := List.length_eq_one_iff.1 hsize
  obtain rfl := Option.some.inj hthread
  exact ⟨q, hp, rfl⟩

namespace Evaluation

section Drive

variable {P R Q : Type} [SpeculativePredictor P R Q]

/-- Drive one predictor through the branches, down any wrong paths. -/
def drive (u : PredictorUnit P) (w : WrongPaths) (branches : List Branch)
    (isUnpredicted : Branch → Q → Bool) : PredictorUnit P × Except PredictorError Tally :=
  match u.runBranches 0 w.next
    (fun b report tally => tally.add report (isUnpredicted b report.prediction)) branches w.state {}
  with
  | (u, _, tally) => (u, tally)

variable [SteppedPredictor P] {Sound : P → Prop} {Anchored : P → R → Prop} {p : P}

/-- A predictor that is driven without an error keeps to its course, and what is tallied are the
misses along the course. -/
theorem drive_single (laws : Courses Sound Anchored) (hp : Sound p) {w : WrongPaths}
    {branches : List Branch} {isUnpredicted : Branch → Q → Bool} {tally : Tally}
    (hrun : (drive (.single p) w branches isUnpredicted).2 = .ok tally) :
    (drive (.single p) w branches isUnpredicted).1 = .single (course p branches) ∧
      tally = {
        misread := misreadsAlong p branches
        unpredicted := costAlong (fun p b => (isUnpredicted b (predictionOf p b)).toNat) p branches
        squashed := w.length * misreadsAlong p branches } := by
  unfold drive at hrun ⊢
  split at hrun
  next u s' result hruns =>
    obtain rfl : result = .ok tally := hrun
    obtain ⟨hend, htally⟩ := laws.runBranches_single hp w.length_next isUnpredicted hruns
    refine ⟨hend, ?_⟩
    simpa only [Nat.zero_add] using htally

end Drive

/-- Run the direction predictor, then the target predictor, over the same branches, each with wrong
paths of its own. -/
def evaluate (tageScl : TageScl.Config) (ittage : Ittage.Config) (w w' : WrongPaths)
    (branches : List Branch) : Except PredictorError Run := do
  let u ← PredictorUnit.build 1 fun _ => tageScl.build
  let (u, tally) := drive u w branches fun _ _ => false
  let directionTally ← tally
  let direction ← u.thread 0
  let u ← PredictorUnit.build 1 fun _ => ittage.build
  let (u, tally) := drive u w' branches Ittage.isUnpredicted
  let targetTally ← tally
  let target ← u.thread 0
  return { direction, directionTally, target, targetTally }

theorem run_eq_evaluate (tageScl : TageScl.Config) (ittage : Ittage.Config) (w : Workload)
    (branches : List Branch) (detour : Nat) :
    ∃ w' : Workload, run tageScl ittage w branches detour =
      evaluate tageScl ittage (.ofWorkload w detour) (.ofWorkload w' detour) branches := by
  unfold run evaluate
  cases PredictorUnit.build 1 fun _ => tageScl.build with
  | error error => exact ⟨w, rfl⟩
  | ok u => exact ⟨_, rfl⟩

/-- What a run without an error leads to: both predictors have kept to their courses, and the
tallies are those of the courses. -/
theorem evaluate_eq_ok {tageScl : TageScl.Config} {ittage : Ittage.Config} {w w' : WrongPaths}
    {branches : List Branch} {r : Run} (hrun : evaluate tageScl ittage w w' branches = .ok r) :
    ∃ p p', tageScl.build = .ok p ∧ ittage.build = .ok p' ∧
      r = {
        direction := course p branches
        directionTally :=
          { misread := misreadsAlong p branches
            unpredicted := costAlong (fun _ _ => 0) p branches
            squashed := w.length * misreadsAlong p branches }
        target := course p' branches
        targetTally :=
          { misread := misreadsAlong p' branches
            unpredicted := costAlong
              (fun p b => (Ittage.isUnpredicted b (predictionOf p b)).toNat) p' branches
            squashed := w'.length * misreadsAlong p' branches } } := by
  obtain ⟨u, hu, hrun⟩ := of_bind_eq_ok hrun
  obtain ⟨p, hp, rfl⟩ := PredictorUnit.single_of_build hu
  simp only at hrun
  obtain ⟨directionTally, hdirection, hrun⟩ := of_bind_eq_ok hrun
  obtain ⟨hcourse, htally⟩ := drive_single (TageScl.courses tageScl) (TageScl.sound_build hp).1
    hdirection
  rw [hcourse] at hrun
  obtain ⟨direction, hthread, hrun⟩ := of_bind_eq_ok hrun
  obtain ⟨u', hu', hrun⟩ := of_bind_eq_ok hrun
  obtain ⟨p', hp', rfl⟩ := PredictorUnit.single_of_build hu'
  obtain ⟨targetTally, htarget, hrun⟩ := of_bind_eq_ok hrun
  obtain ⟨hcourse', htally'⟩ := drive_single (Ittage.courses ittage) (Ittage.sound_build hp')
    htarget
  rw [hcourse'] at hrun
  obtain ⟨target, hthread', hrun⟩ := of_bind_eq_ok hrun
  cases hthread
  cases hthread'
  cases hrun
  exact ⟨p, p', hp, hp', by rw [htally, htally']; rfl⟩

/-- Two runs come to the same predictors with the same misses. -/
structure SameMisses (r s : Run) : Prop where
  direction_eq : r.direction = s.direction
  misread_eq : r.directionTally.misread = s.directionTally.misread
  target_eq : r.target = s.target
  targetMisread_eq : r.targetTally.misread = s.targetTally.misread
  unpredicted_eq : r.targetTally.unpredicted = s.targetTally.unpredicted

/-- The tallies of an evaluation agree with what the predictors count, and the wrong paths have no
part in predictors and misses, whatever their lengths and wherever they lead.  The evaluation of a
workload is one of these. -/
theorem tallies_agree (tageScl : TageScl.Config) (ittage : Ittage.Config)
    (branches : List Branch) :
    (∀ {w w' : WrongPaths} {r : Run}, evaluate tageScl ittage w w' branches = .ok r →
        TageScl.Tallied branches w.length r.directionTally r.direction ∧
          Ittage.Tallied branches w'.length r.targetTally r.target) ∧
      (∀ {w w' v v' : WrongPaths} {r s : Run}, evaluate tageScl ittage w w' branches = .ok r →
        evaluate tageScl ittage v v' branches = .ok s → SameMisses r s) ∧
      ∀ (w : Workload) (detour : Nat), ∃ w' : Workload, run tageScl ittage w branches detour =
        evaluate tageScl ittage (.ofWorkload w detour) (.ofWorkload w' detour) branches := by
  refine ⟨?_, ?_, fun w detour => run_eq_evaluate tageScl ittage w branches detour⟩
  · intro w w' r hrun
    obtain ⟨p, p', hp, hp', rfl⟩ := evaluate_eq_ok hrun
    exact ⟨TageScl.tallied_course hp branches _ _, Ittage.tallied_course hp' branches _⟩
  · intro w w' v v' r s hrun hrun'
    obtain ⟨p, p', hp, hp', rfl⟩ := evaluate_eq_ok hrun
    obtain ⟨q, q', hq, hq', rfl⟩ := evaluate_eq_ok hrun'
    obtain rfl : p = q := Except.ok.inj (hp.symm.trans hq)
    obtain rfl : p' = q' := Except.ok.inj (hp'.symm.trans hq')
    exact ⟨rfl, rfl, rfl, rfl, rfl⟩

/-- Branches that both predictors miss now and then. -/
def missedBranches : List Branch :=
  [⟨4, .directBranch, .taken, 64⟩, ⟨8, .indirectJump, .taken, 64⟩,
    ⟨12, .indirectCall, .taken, 32⟩, ⟨4, .directBranch, .notTaken, 64⟩,
    ⟨8, .indirectJump, .taken, 16⟩, ⟨8, .indirectJump, .taken, 64⟩,
    ⟨12, .procedureReturn, .taken, 64⟩]

/-- An evaluation of small predictors, with wrong paths of `count` branches for one predictor and
twice as many for the other. -/
def smallEvaluation (count : Nat) : Except PredictorError Run :=
  evaluate (TageScl.smallConfig (some {})) Ittage.smallConfig
    (.repeating ⟨16, .directBranch, .taken, 80⟩ count)
    (.repeating ⟨16, .directBranch, .taken, 80⟩ (2 * count)) missedBranches

theorem missedBranches_tallies_agree :
    ∃ r s, smallEvaluation 0 = .ok r ∧ smallEvaluation 1 = .ok s ∧
      s.directionTally = ⟨2, 0, 2⟩ ∧ s.targetTally = ⟨1, 3, 2⟩ ∧
      TageScl.Tallied missedBranches 1 s.directionTally s.direction ∧
      Ittage.Tallied missedBranches 2 s.targetTally s.target ∧ SameMisses r s := by
  obtain ⟨htallied, hsame, -⟩ :=
    tallies_agree (TageScl.smallConfig (some {})) Ittage.smallConfig missedBranches
  have hstraight : (smallEvaluation 0 >>= fun _ => .ok ()) = .ok () := by decide +kernel
  have hdetours : (smallEvaluation 1 >>= fun s => .ok (s.directionTally, s.targetTally)) =
      .ok (⟨2, 0, 2⟩, ⟨1, 3, 2⟩) := by decide +kernel
  obtain ⟨r, hr, -⟩ := of_bind_eq_ok hstraight
  obtain ⟨s, hs, htallies⟩ := of_bind_eq_ok hdetours
  obtain ⟨hdirection, htarget⟩ := Prod.mk.inj (Except.ok.inj htallies)
  obtain ⟨htageScl, hittage⟩ := htallied hs
  exact ⟨r, s, hr, hs, hdirection, htarget, htageScl, hittage, hsame hr hs⟩

end Evaluation

end BranchPrediction
