import BranchPrediction.Proofs.Pipeline.Erasure
import BranchPrediction.Proofs.Pipeline.Ittage
import BranchPrediction.Proofs.Pipeline.TageScl

/-!
# Wrong paths leave no trace

What a pipeline does down a wrong path is not seen afterwards.  For TAGE-SC-L, detours may be
inserted anywhere into a run, and branches misread at first (`TageScl.run_with_detours`).  For
ITTAGE, and for TAGE-SC-L without a loop predictor, older branches may even commit while the wrong
path is in flight (`run_eq_run_erase`).
-/

namespace BranchPrediction

open Session

/-- A run of TAGE-SC-L with detours ends where the straight run does, with the same records in
flight and the same predictions committed.  Only repairs are counted, and only an overflow of the
history is ever reported. -/
theorem TageScl.run_with_detours {c : Config} {p : TageScl} (hbuild : c.build = .ok p)
    {legs : List Leg} (hlegs : (start p).Itinerary legs)
    (hstraight : (start p).errors (legs.flatMap Leg.straight) = []) :
    let detoured := (start p).run (legs.flatMap Leg.calls)
    let straight := (start p).run (legs.flatMap Leg.straight)
    detoured.predictor.forgetRepairs = straight.predictor.forgetRepairs ∧
      detoured.records = straight.records ∧ detoured.committed = straight.committed ∧
      OverflowsOnly ((start p).errors (legs.flatMap Leg.calls)) := by
  intro detoured straight
  obtain ⟨hsame, herrors⟩ := (rewinds c).run_legs (refusesOverflowsOnly c)
    (sound_build hbuild).1 rfl hlegs hstraight
  obtain ⟨hpredictor, hrecords, hcommitted⟩ := agree_of_forget_eq hsame
  exact ⟨hpredictor, hrecords, hcommitted, herrors⟩

/-- A loop predictor with one entry. -/
def TageScl.oneLoop : LoopPredictor.Config where
  logSets := 0
  ways := 1

/-- A branch with a detour before its update, and another one after the update was misread, in
which the history overflows. -/
def TageScl.smallDetours : List Leg :=
  [.fetch 0 true 4 true ⟨4, .directBranch, .taken, 64⟩
      [.fetch 1 true 8 true ⟨8, .directBranch, .taken, 32⟩, .squash 1]
      (some
        { wrong := ⟨4, .directBranch, .notTaken, 64⟩
          detour :=
            [.fetch 1 true 8 true ⟨8, .directBranch, .taken, 32⟩,
              .fetch 2 false 12 false ⟨12, .directJump, .taken, 32⟩,
              .revise 1 true ⟨8, .directBranch, .notTaken, 32⟩, .squash 2, .squash 1]
          repairs := true }),
    .follow (.commit 0 ⟨4, .directBranch, .taken, 64⟩)]

theorem TageScl.smallDetours_leave_no_trace :
    (smallConfig (some oneLoop)).build = .ok (small (some oneLoop)) ∧
      (start (small (some oneLoop))).Itinerary smallDetours ∧
      (start (small (some oneLoop))).errors (smallDetours.flatMap Leg.straight) = [] ∧
      (start (small (some oneLoop))).errors (smallDetours.flatMap Leg.calls) =
        [.protocol (.historyOverflow 3 2)] ∧
      ((start (small (some oneLoop))).run (smallDetours.flatMap Leg.calls)).committed =
        ((start (small (some oneLoop))).run (smallDetours.flatMap Leg.straight)).committed := by
  have hbuild : (smallConfig (some oneLoop)).build = .ok (small (some oneLoop)) := rfl
  have hlegs : (start (small (some oneLoop))).Itinerary smallDetours := by
    refine ⟨⟨⟨rfl, rfl, rfl⟩, rfl, rfl, rfl, ?_, rfl, rfl, rfl⟩, trivial, trivial⟩
    change List.find? _ _ = some 1
    decide +kernel
  have hstraight :
      (start (small (some oneLoop))).errors (smallDetours.flatMap Leg.straight) = [] := by
    decide +kernel
  obtain ⟨-, -, hcommitted, -⟩ := run_with_detours hbuild hlegs hstraight
  exact ⟨hbuild, hlegs, hstraight, by decide +kernel, hcommitted⟩

/-- A disciplined run ends where its erasure does: every branch that was squashed may as well not
have been fetched, and every other one may as well have been known from the start. -/
theorem run_eq_run_erase :
    (∀ {c : Ittage.Config} {p : Ittage}, c.build = .ok p →
      ∀ {script : List Event}, Disciplined [] script →
        (start p).errors (script.flatMap Event.calls) = [] →
        (start p).errors ((erase script).flatMap Event.calls) = [] →
        (start p).run (script.flatMap Event.calls) =
          (start p).run ((erase script).flatMap Event.calls)) ∧
      ∀ {c : TageScl.Config} {p : TageScl}, c.build = .ok p → c.loops? = none →
        ∀ {script : List Event}, Disciplined [] script →
          (start p).errors (script.flatMap Event.calls) = [] →
          (start p).errors ((erase script).flatMap Event.calls) = [] →
          let full := (start p).run (script.flatMap Event.calls)
          let erased := (start p).run ((erase script).flatMap Event.calls)
          full.predictor.forgetRepairs = erased.predictor.forgetRepairs ∧
            full.records = erased.records ∧ full.committed = erased.committed := by
  constructor
  · intro c p hbuild script hdisciplined hfull herased
    exact (Ittage.retires c).run_erase (Ittage.sound_build hbuild) hdisciplined hfull herased
  · intro c p hbuild hloops script hdisciplined hfull herased full erased
    obtain ⟨hsound, hbuilt⟩ := TageScl.sound_build hbuild
    have hloopless : p.Loopless := by
      rw [TageScl.Loopless, hbuilt, hloops]
      rfl
    exact agree_of_forget_eq
      ((TageScl.retires c).run_erase ⟨hsound, hloopless⟩ hdisciplined hfull herased)

/-- The second branch is fetched down a wrong path, in flight while the first one commits, and
fetched anew from the right path. -/
def smallScript : List Event :=
  [.fetch 0 true 4 false ⟨4, .indirectJump, .taken, 64⟩,
    .fetch 1 true 8 true ⟨8, .directBranch, .taken, 32⟩,
    .commit 0 ⟨4, .indirectJump, .taken, 64⟩,
    .revise 1 true ⟨8, .directBranch, .notTaken, 32⟩, .squash 1,
    .fetch 1 false 12 true ⟨12, .directBranch, .notTaken, 32⟩,
    .revise 1 true ⟨12, .directBranch, .taken, 32⟩,
    .commit 1 ⟨12, .directBranch, .taken, 32⟩]

theorem smallScript_run_eq_run_erase :
    erase smallScript =
        [.fetch 0 true 4 false ⟨4, .indirectJump, .taken, 64⟩,
          .commit 0 ⟨4, .indirectJump, .taken, 64⟩,
          .fetch 1 false 12 true ⟨12, .directBranch, .taken, 32⟩,
          .commit 1 ⟨12, .directBranch, .taken, 32⟩] ∧
      (start Ittage.small).run (smallScript.flatMap Event.calls) =
        (start Ittage.small).run ((erase smallScript).flatMap Event.calls) ∧
      ((start (TageScl.small none)).run (smallScript.flatMap Event.calls)).predictor.forgetRepairs =
        ((start (TageScl.small none)).run
          ((erase smallScript).flatMap Event.calls)).predictor.forgetRepairs := by
  have hbuildIttage : Ittage.smallConfig.build = .ok Ittage.small := rfl
  have hbuildTageScl : (TageScl.smallConfig none).build = .ok (TageScl.small none) := rfl
  have hdisciplined : Disciplined [] smallScript := by
    refine ⟨?_, rfl, ?_, rfl, rfl, rfl, rfl, ?_, rfl, rfl, rfl, trivial⟩
    · decide
    · decide
    · decide
  obtain ⟨hittage, htageScl⟩ := run_eq_run_erase
  refine ⟨by decide, ?_, ?_⟩
  · exact hittage hbuildIttage hdisciplined (by decide +kernel) (by decide +kernel)
  · exact (htageScl hbuildTageScl rfl hdisciplined (by decide +kernel) (by decide +kernel)).1

end BranchPrediction
