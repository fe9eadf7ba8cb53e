import BranchPrediction.Proofs.Pipeline.Rewind
import BranchPrediction.Evaluation

/-!
# The course of a predictor

An evaluation resolves each branch before it fetches the next one.  A branch that is misread sends
the front end down a wrong path, which is squashed before the branch is repaired and committed.

The *course* of a predictor is what the branches alone make of it: each inserts its history as
resolved and commits, and all that is left of misreading it is that a repair is counted.
`Courses.runBranches_single` shows that a run that meets no error keeps to the course, wherever the
wrong paths lead.  So what is counted along a run is a sum over the course (`costAlong`), and what
a predictor counts itself is such a sum if each branch adds its share (`measure_course`).
-/

namespace BranchPrediction

open SteppedPredictor

variable {P R Q : Type} [SpeculativePredictor P R Q]

def predictionOf (p : P) (b : Branch) : Q :=
  (SpeculativePredictor.predict p b.pc b.kind.isConditional).1

/-- The record of a branch that is predicted. -/
def recordOf (p : P) (b : Branch) : R :=
  (SpeculativePredictor.predict p b.pc b.kind.isConditional).2

/-- The pipeline follows a wrong prediction of the branch. -/
def misreads (p : P) (b : Branch) : Bool :=
  (SpeculativePredictor.misread? P (predictionOf p b) b).isSome

/-! ## Units of one thread -/

namespace PredictorUnit

def single (p : P) : PredictorUnit P :=
  ⟨[p]⟩

theorem predict_single (p : P) (pc : UInt64) (isConditional : Bool) :
    (single p).predict 0 pc isConditional =
      .ok ((SpeculativePredictor.predict p pc isConditional).1,
        ⟨0, (SpeculativePredictor.predict p pc isConditional).2⟩) :=
  rfl

theorem update_single (p : P) (r : R) (b : Branch) :
    (single p).update ⟨0, r⟩ b =
      (single (SpeculativePredictor.update p r b).predictor,
        ⟨0, (SpeculativePredictor.update p r b).record⟩,
        (SpeculativePredictor.update p r b).error?) :=
  rfl

theorem repair_single (p : P) (r : R) (b : Branch) :
    (single p).repair ⟨0, r⟩ b =
      (single (SpeculativePredictor.repair p r b).predictor,
        ⟨0, (SpeculativePredictor.repair p r b).record⟩,
        (SpeculativePredictor.repair p r b).error?) :=
  rfl

theorem commit_single (p : P) (r : R) (b : Branch) :
    (single p).commit ⟨0, r⟩ b =
      (single (SpeculativePredictor.commit p r b).predictor,
        (SpeculativePredictor.commit p r b).error?) :=
  rfl

theorem squash_single (p : P) (r : R) :
    (single p).squash ⟨0, r⟩ =
      (single (SpeculativePredictor.squash p r).predictor,
        (SpeculativePredictor.squash p r).error?) :=
  rfl

/-- Each branch of a wrong path opens one handle. -/
theorem length_enterDetour {path : List Branch} {opened opened' : List (Handle R)}
    {u u' : PredictorUnit P} (hrun : u.enterDetour 0 path opened = (u', .ok opened')) :
    opened'.length = path.length + opened.length := by
  induction path generalizing u opened with
  | nil =>
      rw [enterDetour] at hrun
      cases hrun
      exact (Nat.zero_add _).symm
  | cons b rest ih =>
      rw [enterDetour] at hrun
      split at hrun
      · cases hrun
      · split at hrun
        · cases hrun
        · rw [ih hrun, List.length_cons, List.length_cons]
          omega

end PredictorUnit

variable [SteppedPredictor P]

/-! ## The course -/

/-- Insert the history of a branch and commit it. -/
def finish (p : P) (r : R) (b : Branch) : P :=
  conclude (apply p r b).1 (apply p r b).2 b

/-- What a branch makes of a predictor from its prediction to its commit. -/
def settled (p : P) (b : Branch) : P :=
  finish (if misreads p b then countRepair p else p) (recordOf p b) b

/-- What branches make of a predictor, one after another. -/
def course (p : P) (branches : List Branch) : P :=
  branches.foldl settled p

/-! ## Sums over a course -/

/-- The sum of what the branches cost in the states in which they are predicted. -/
def costAlong (cost : P → Branch → Nat) (p : P) : List Branch → Nat
  | [] => 0
  | b :: rest => cost p b + costAlong cost (settled p b) rest

/-- The number of branches that are misread along a course. -/
def misreadsAlong (p : P) (branches : List Branch) : Nat :=
  costAlong (fun p b => (misreads p b).toNat) p branches

/-- A measure to which each branch adds its cost grows by the costs along the course. -/
theorem measure_course (measure : P → Nat) {cost : P → Branch → Nat}
    (hstep : ∀ p b, measure (settled p b) = measure p + cost p b) (p : P)
    (branches : List Branch) :
    measure (course p branches) = measure p + costAlong cost p branches := by
  induction branches generalizing p with
  | nil => rfl
  | cons b rest ih =>
      have hrest : measure (course p (b :: rest)) = measure (course (settled p b) rest) := rfl
      rw [hrest, ih, hstep, costAlong, Nat.add_assoc]

theorem costAlong_add (cost cost' : P → Branch → Nat) (p : P) (branches : List Branch) :
    costAlong (fun p b => cost p b + cost' p b) p branches =
      costAlong cost p branches + costAlong cost' p branches := by
  induction branches generalizing p with
  | nil => rfl
  | cons b rest ih =>
      rw [costAlong, costAlong, costAlong, ih]
      omega

/-- A cost of one for the branches that pass a test counts them. -/
theorem costAlong_toNat (test : Branch → Bool) (p : P) (branches : List Branch) :
    costAlong (fun _ b => (test b).toNat) p branches = branches.countP test := by
  induction branches generalizing p with
  | nil => rfl
  | cons b rest ih =>
      rw [costAlong, ih, List.countP_cons]
      cases test b with
      | true => exact Nat.add_comm _ _
      | false => exact Nat.zero_add _

/-- A measure that grows by one at the branches that pass a test counts them. -/
theorem measure_course_countP (measure : P → Nat) {test : Branch → Bool}
    (hstep : ∀ p b, measure (settled p b) = measure p + (test b).toNat) (p : P)
    (branches : List Branch) :
    measure (course p branches) = measure p + branches.countP test := by
  rw [measure_course measure hstep, costAlong_toNat]

/-! ## One branch -/

namespace Rewinds

variable {Sound : P → Prop} {Anchored : P → R → Prop} {p : P} {r : R}

theorem update_anchored (laws : Rewinds Sound Anchored) (hanchored : Anchored p r) (b : Branch) :
    SpeculativePredictor.update p r b = attempted p r r b := by
  have hfinal : finalize p r b.pc = r := laws.finalize_of_anchored hanchored p b.pc
  have hnone : contribution? P (finalize p r b.pc) = none := by
    rw [hfinal]
    exact laws.contribution?_of_anchored hanchored
  have hupdate := laws.update_of_none (laws.accepts_of_anchored hanchored) hnone
  rwa [hfinal] at hupdate

theorem commit_applied (laws : Rewinds Sound Anchored) (hanchored : Anchored p r)
    (b b' : Branch) :
    SpeculativePredictor.commit (apply p r b).1 (apply p r b).2 b' =
      ⟨conclude (apply p r b).1 (apply p r b).2 b', none⟩ := by
  simp only [commit_eq, laws.accepts_push hanchored, laws.finalize_applied hanchored,
    laws.isSome_contribution?_applied, Bool.not_true, Bool.false_eq_true, if_false, if_true]

end Rewinds

/-- The laws of a predictor that keeps to its course.  The record of a branch that was predicted is
definite, and the count of repairs has no part in the insertion of history. -/
structure Courses (Sound : P → Prop) (Anchored : P → R → Prop) : Prop
    extends Rewinds Sound Anchored where
  finalize_predict : ∀ (p : P) (pc : UInt64) (isConditional : Bool) (pc' : UInt64),
    finalize p (SpeculativePredictor.predict p pc isConditional).2 pc' =
      (SpeculativePredictor.predict p pc isConditional).2
  anchored_countRepair : ∀ {p : P} {r : R}, Anchored p r → Anchored (countRepair p) r
  apply_countRepair : ∀ (p : P) (r : R) (b : Branch),
    apply (countRepair p) r b = (countRepair (apply p r b).1, (apply p r b).2)

namespace Courses

variable {Sound : P → Prop} {Anchored : P → R → Prop} {p : P} {r : R} {b : Branch}

theorem anchored_predict (laws : Courses Sound Anchored) (hp : Sound p) (pc : UInt64)
    (isConditional : Bool) : Anchored p (SpeculativePredictor.predict p pc isConditional).2 := by
  have hanchored := laws.anchored_newRecord hp true pc isConditional pc
  change Anchored p (finalize p (SpeculativePredictor.predict p pc isConditional).2 pc) at hanchored
  rwa [laws.finalize_predict] at hanchored

theorem appendError?_countRepair (p : P) (b : Branch) :
    appendError? (countRepair p) b = appendError? p b := by
  rw [← appendError?_forget, forget_countRepair, appendError?_forget]

/-- A repair puts the history of the branch right, and is counted. -/
theorem repair_applied (laws : Courses Sound Anchored) (hp : Sound p) (hanchored : Anchored p r)
    (hroom : appendError? p b = none) (b' : Branch) :
    SpeculativePredictor.repair (apply p r b).1 (apply p r b).2 b' =
      attempted (countRepair p) r
        (undo (apply (countRepair p) r b).1 (apply (countRepair p) r b).2).2 b' := by
  have hcounted : appendError? (countRepair p) b = none := by
    rw [appendError?_countRepair, hroom]
  have hupdate := laws.update_applied (laws.kept.countRepair hp)
    (laws.anchored_countRepair hanchored) hcounted b'
  rw [repair_eq, ← hupdate, laws.apply_countRepair]

end Courses

/-! ## Whole runs -/

namespace Courses

open PredictorUnit

variable {Sound : P → Prop} {Anchored : P → R → Prop} {p : P} {r : R}

/-- Squashing what was opened on the way down a wrong path leads back to where it began. -/
theorem squashAll_enterDetour (laws : Courses Sound Anchored) (hp : Sound p) {path : List Branch}
    {opened opened' : List (Handle R)} {u : PredictorUnit P}
    (hrun : (single p).enterDetour 0 path opened = (u, .ok opened')) :
    u.squashAll opened' = (single p).squashAll opened := by
  induction path generalizing p opened with
  | nil =>
      rw [enterDetour] at hrun
      cases hrun
      rfl
  | cons b rest ih =>
      have hanchored := laws.anchored_predict hp b.pc true
      rw [enterDetour, predict_single] at hrun
      simp only [update_single, laws.update_anchored hanchored, attempted] at hrun
      cases hroom : appendError? p b with
      | some error => simp [hroom] at hrun
      | none =>
          simp only [hroom] at hrun
          rw [ih (laws.kept.apply hp _ b) hrun, squashAll, squash_single,
            laws.squash_applied hp hanchored hroom]

/-- A detour that meets no error leaves no trace, and all its branches are squashed. -/
theorem detour_single (laws : Courses Sound Anchored) (hp : Sound p) {path : List Branch}
    {u : PredictorUnit P} {squashed : Nat}
    (hrun : (single p).detour 0 path = (u, .ok squashed)) :
    u = single p ∧ squashed = path.length := by
  rw [detour] at hrun
  split at hrun
  · cases hrun
  · next after opened hentered =>
      rw [laws.squashAll_enterDetour hp hentered] at hrun
      cases hrun
      exact ⟨rfl, length_enterDetour hentered⟩

/-- However a branch is taken to its commit, it inserts its history as resolved and commits.  The
wrong path is squashed, if there is one. -/
theorem resolve_single (laws : Courses Sound Anchored) (hp : Sound p) (hanchored : Anchored p r)
    {b : Branch} {misread? : Option Branch} {path : List Branch} {u : PredictorUnit P}
    {squashed : Nat} (hrun : (single p).resolve ⟨0, r⟩ b misread? path = (u, .ok squashed)) :
    u = single (finish (if misread?.isSome then countRepair p else p) r b) ∧
      squashed = if misread?.isSome then path.length else 0 := by
  cases misread? with
  | none =>
      simp only [resolve, update_single, laws.update_anchored hanchored, attempted] at hrun
      cases hroom : appendError? p b with
      | some error => simp [hroom] at hrun
      | none =>
          simp only [hroom, retire, commit_single, laws.commit_applied hanchored] at hrun
          cases hrun
          exact ⟨rfl, rfl⟩
  | some misread =>
      simp only [resolve, update_single, laws.update_anchored hanchored, attempted] at hrun
      cases hmisread : appendError? p misread with
      | some error => simp [hmisread] at hrun
      | none =>
          simp only [hmisread] at hrun
          split at hrun
          · cases hrun
          · next after count hdetour =>
              obtain ⟨rfl, hcount⟩ := laws.detour_single (laws.kept.apply hp r misread) hdetour
              simp only [repair_single, laws.repair_applied hp hanchored hmisread, attempted]
                at hrun
              cases hroom : appendError? (countRepair p) b with
              | some error => simp [hroom] at hrun
              | none =>
                  simp only [hroom, retire, commit_single,
                    laws.commit_applied (laws.anchored_countRepair hanchored)] at hrun
                  cases hrun
                  exact ⟨rfl, hcount⟩

variable {σ : Type} {wrongPath : Branch → σ → List Branch × σ} {detour : Nat}

/-- A branch that meets no error settles, and is reported as the predictor saw it. -/
theorem runBranch_single (laws : Courses Sound Anchored) (hp : Sound p)
    (hlength : ∀ b s, (wrongPath b s).1.length = detour) {b : Branch} {s s' : σ}
    {u : PredictorUnit P} {report : BranchReport Q}
    (hrun : (single p).runBranch 0 wrongPath b s = (u, s', .ok report)) :
    u = single (settled p b) ∧
      report = ⟨predictionOf p b, misreads p b, detour * (misreads p b).toNat⟩ := by
  rw [runBranch, predict_single] at hrun
  simp only at hrun
  split at hrun
  · cases hrun
  · next after squashed hresolved =>
      obtain ⟨hsettled, hsquashed⟩ :=
        laws.resolve_single hp (laws.anchored_predict hp b.pc b.kind.isConditional) hresolved
      cases hrun
      refine ⟨hsettled, ?_⟩
      change BranchReport.mk (predictionOf p b) (misreads p b) squashed = _
      change squashed = if misreads p b = true then
        (if misreads p b = true then wrongPath b s else ([], s)).1.length else 0 at hsquashed
      rw [hsquashed]
      cases misreads p b with
      | true => simp [hlength]
      | false => simp

theorem sound_settled (laws : Courses Sound Anchored) (hp : Sound p) (b : Branch) :
    Sound (settled p b) := by
  have hcounted : Sound (if misreads p b then countRepair p else p) := by
    split
    · exact laws.kept.countRepair hp
    · exact hp
  exact laws.kept.conclude (laws.kept.apply hcounted _ b) _ b

/-- A run that meets no error keeps to the course, and its tally is what the course costs. -/
theorem runBranches_single (laws : Courses Sound Anchored) (hp : Sound p)
    (hlength : ∀ b s, (wrongPath b s).1.length = detour) (isUnpredicted : Branch → Q → Bool)
    {branches : List Branch} {s s' : σ} {u : PredictorUnit P} {t t' : Evaluation.Tally}
    (hrun : (single p).runBranches 0 wrongPath
      (fun b report tally => tally.add report (isUnpredicted b report.prediction)) branches s t =
        (u, s', .ok t')) :
    u = single (course p branches) ∧
      t' = {
        misread := t.misread + misreadsAlong p branches
        unpredicted := t.unpredicted +
          costAlong (fun p b => (isUnpredicted b (predictionOf p b)).toNat) p branches
        squashed := t.squashed + detour * misreadsAlong p branches } := by
  induction branches generalizing p s t with
  | nil =>
      rw [runBranches] at hrun
      cases hrun
      exact ⟨rfl, rfl⟩
  | cons b rest ih =>
      rw [runBranches] at hrun
      split at hrun
      · cases hrun
      · next after s'' report hone =>
          obtain ⟨rfl, rfl⟩ := laws.runBranch_single hp hlength hone
          obtain ⟨hend, htally⟩ := ih (laws.sound_settled hp b) hrun
          refine ⟨hend, htally.trans ?_⟩
          simp only [Evaluation.Tally.add, misreadsAlong, costAlong, Nat.add_assoc, Nat.mul_add]

end Courses

end BranchPrediction
