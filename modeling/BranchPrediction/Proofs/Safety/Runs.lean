import BranchPrediction.Proofs.Safety.Ittage
import BranchPrediction.Proofs.Safety.TageScl

/-!
# A valid configuration passes all checks where there is room

A configuration that passes its checks and for which there is room can be built, and whatever calls
are then made, in any order and on any branches, no check of any step fails: indices are in range,
sizes are powers of two, draws are of events and ways that exist, no branch inserts more than a
word, an undo ends where the contribution started, and what a reset makes anew can be made.  Calls
are refused for violations of the protocol only.  All the while the tables keep their sizes and the
counters their ranges, and the records in use select what exists, however old they are and whatever
has been reset.

The checks of a configuration do not ask for room: they bound neither the ways of a set of loops,
nor the use-alt-on-new counters, nor the history register.  Without room a build stops, or else a
number of entries wraps around and the first index is out of range.  How much memory there really
is, below what addresses can count, is no part of this.
-/

namespace BranchPrediction

/-- A session of these calls passes all checks and is refused nothing but violations of the
protocol; it ends with a regular predictor and with records in range. -/
structure Session.Safe {P R Q : Type} [SpeculativePredictor P R Q] [SteppedPredictor P]
    [CheckedPredictor P] (Regular : P → Prop) (InRange : R → Prop) (p : P) (calls : List Call) :
    Prop where
  checkedRun_eq : (Session.start p).checkedRun calls =
    some ((Session.start p).run calls, (Session.start p).errors calls)
  violations : ∀ error ∈ (Session.start p).errors calls, error.IsViolation
  regular : Regular ((Session.start p).run calls).predictor
  inRange : ∀ (h : Nat) (r : R), ((Session.start p).run calls).records h = some r → InRange r

theorem Guarded.safe {P R Q : Type} [SpeculativePredictor P R Q] [SteppedPredictor P]
    [CheckedPredictor P] {I : P → Prop} {J Definite : R → Prop} (hguarded : Guarded I J Definite)
    {Regular : P → Prop} (hregular : ∀ p, I p → Regular p) {p : P} (hp : I p)
    (calls : List Call) : Session.Safe Regular J p calls := by
  have hstart : (Session.start p : Session P R).Satisfies I J := hguarded.records.start hp
  have hrun := hguarded.records.run hstart calls
  obtain ⟨hchecked, hviolations⟩ := hguarded.checkedRun_eq hstart calls
  exact ⟨hchecked, hviolations, hregular _ hrun.predictor, fun _ _ hrecord => hrun.records hrecord⟩

/-- A valid configuration for which there is room can be built, and every session of the predictor
passes all checks, as long as the longest history and the bits allowed in flight add up to less than
a word. -/
theorem safe_of_hasRoom (calls : List Call) :
    (∀ {c : TageScl.Config}, c.validate = .ok () → c.hasRoom = true →
        c.longestHistory + c.ladder.maxInFlightBits < UInt64.size →
          ∃ p, c.build = .ok p ∧ c.checkedBuild = some p ∧
            Session.Safe (TageScl.Regular c) (TageScl.Record.InRange c) p calls) ∧
      ∀ {c : Ittage.Config}, c.validate = .ok () → c.ladder.hasRoom = true →
        c.ladder.longestHistory + c.ladder.maxInFlightBits < UInt64.size →
          ∃ p, c.build = .ok p ∧ c.checkedBuild = some p ∧
            Session.Safe (Ittage.Regular c) (Ittage.Record.InRange c) p calls := by
  constructor
  · intro c hvalid hroom hword
    obtain ⟨p, hbuild, hchecked⟩ := TageScl.Config.exists_build hvalid hroom hword
    refine ⟨p, hbuild, hchecked, ?_⟩
    exact (TageScl.guarded hbuild).safe (fun _ h => h.regular hbuild)
      (TageScl.descends_build hbuild) calls
  · intro c hvalid hroom hword
    obtain ⟨p, hbuild, hchecked⟩ := Ittage.Config.exists_build hvalid hroom hword
    refine ⟨p, hbuild, hchecked, ?_⟩
    exact (Ittage.guarded hbuild).safe (fun _ h => h.regular hbuild) ⟨⟨rfl, rfl⟩, rfl⟩ calls

/-- Without a way to draw, the first branch that inserts its history fails a check. -/
example : ((Session.start (TageScl.small (some { ways := 0 }))).checkedRun
    [.placeholder 0 4 true, .update 0 ⟨4, .directBranch, .taken, 64⟩]).isNone = true := by
  decide +kernel

/-- A branch commits with another one in flight, and one is refused for want of room.  Then the
predictor is reset; of what was in flight a branch still commits, and another one is refused. -/
def interruptedRun : List Call :=
  [.predict 0 4 true, .update 0 ⟨4, .directBranch, .taken, 64⟩, .predict 1 8 false,
    .update 1 ⟨8, .indirectJump, .taken, 64⟩, .commit 0 ⟨4, .directBranch, .taken, 64⟩,
    .predict 2 12 true, .update 2 ⟨12, .indirectCall, .taken, 32⟩, .placeholder 3 16 true,
    .update 3 ⟨16, .indirectCall, .taken, 32⟩, .reset, .repair 1 ⟨8, .indirectJump, .taken, 32⟩,
    .commit 2 ⟨12, .indirectCall, .taken, 32⟩, .squash 3]

theorem interruptedRun_safe :
    ((TageScl.smallConfig (some {})).build = .ok (TageScl.small (some {})) ∧
      (TageScl.smallConfig (some {})).checkedBuild = some (TageScl.small (some {})) ∧
      Session.Safe (TageScl.Regular (TageScl.smallConfig (some {})))
        (TageScl.Record.InRange (TageScl.smallConfig (some {}))) (TageScl.small (some {}))
        interruptedRun ∧
      ((Session.start (TageScl.small (some {}))).errors interruptedRun).length = 2) ∧
    Ittage.smallConfig.build = .ok Ittage.small ∧
      Ittage.smallConfig.checkedBuild = some Ittage.small ∧
      Session.Safe (Ittage.Regular Ittage.smallConfig) (Ittage.Record.InRange Ittage.smallConfig)
        Ittage.small interruptedRun ∧
      ((Session.start Ittage.small).errors interruptedRun).length = 2 := by
  obtain ⟨htageScl, hittage⟩ := safe_of_hasRoom interruptedRun
  obtain ⟨p, hbuild, hchecked, hsafe⟩ :=
    htageScl (c := TageScl.smallConfig (some {})) (by rfl) (by decide +kernel) (by decide +kernel)
  obtain ⟨q, hbuild', hchecked', hsafe'⟩ :=
    hittage (c := Ittage.smallConfig) (by rfl) (by decide +kernel) (by decide +kernel)
  obtain rfl : TageScl.small (some {}) = p := Except.ok.inj hbuild
  obtain rfl : Ittage.small = q := Except.ok.inj hbuild'
  exact ⟨⟨hbuild, hchecked, hsafe, by decide +kernel⟩, hbuild', hchecked', hsafe',
    by decide +kernel⟩

def TageScl.manyWays (logSets : Nat) : Config :=
  smallConfig (some { logSets, ways := 1 <<< 62 })

/-- Configurations that are valid but have no room.  With one set of loops the build stops.  With
four the number of entries wraps around to zero, and the first branch of the first set is looked up
in a table without entries. -/
theorem manyWays_unsafe :
    ((TageScl.manyWays 0).validate = .ok () ∧
      (TageScl.manyWays 0).longestHistory + (TageScl.manyWays 0).ladder.maxInFlightBits <
        UInt64.size ∧
      (TageScl.manyWays 0).build = .error (.precondition .capacity) ∧
      (TageScl.manyWays 0).checkedBuild = none) ∧
    (TageScl.manyWays 2).validate = .ok () ∧
      (TageScl.manyWays 2).longestHistory + (TageScl.manyWays 2).ladder.maxInFlightBits <
        UInt64.size ∧
      ∃ p, (TageScl.manyWays 2).checkedBuild = some p ∧
        (Session.start p).checkedRun [.predict 0 0 true] = none := by
  have hwrapped : (TageScl.manyWays 2).checkedBuild.any (fun p =>
      ((Session.start p).checkedRun [.predict 0 0 true]).isNone) = true := by decide +kernel
  refine ⟨⟨by rfl, by decide +kernel, by rfl, ?_⟩, by rfl, by decide +kernel, ?_⟩
  · exact Option.isNone_iff_eq_none.1 (by decide +kernel)
  · obtain ⟨p, hp, hnone⟩ := (Option.any_eq_true _ _).1 hwrapped
    exact ⟨p, hp, Option.isNone_iff_eq_none.1 hnone⟩

end BranchPrediction
