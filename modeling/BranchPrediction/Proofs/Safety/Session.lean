import BranchPrediction.Proofs.Pipeline.Disorder
import BranchPrediction.Proofs.Pipeline.Records

/-!
# Checked sessions

A predictor whose parts can be carried out with checks (`CheckedPredictor`) can be driven with
checks: `Session.checkedRun` carries out the calls of a session and answers `none` as soon as a
check fails.  Unlike the plain operations, the checked ones do not test whether a record fits the
predictor; they go on to the indices that it holds.

`Guarded` lists what it takes for no check to fail, with an invariant of the predictor and one of
its records.  Then a checked session of any calls ends where the plain one does, with the same
errors, and all of these are violations of the protocol of the pipeline (`Guarded.checkedRun_eq`).

Where the steps are those of a history, the contributions in use start in its register
(`StartsIn`).  An undo that is not refused then ends where the contribution started, which is the
last thing that is checked of it.
-/

namespace BranchPrediction

open SteppedPredictor HistoryKeeper

/-- The error is a caller's mistake in the order of pipeline operations. -/
def PredictorError.IsViolation (error : PredictorError) : Prop :=
  ∃ violation, error = .protocol violation

/-- A predictor whose steps can be carried out with checks. -/
class CheckedPredictor (P : Type) {R Q : outParam Type} [SpeculativePredictor P R Q] where
  checkedPredict : P → UInt64 → Bool → Option (Q × R)
  checkedFinalize : P → R → UInt64 → Option R
  checkedUndo : P → R → Option (P × R)
  /-- Draw what a branch may need, and answer the reason, if any, not to insert its history. -/
  checkedAppendError? : P → Branch → Option (Option PredictorError)
  checkedApply : P → R → Branch → Option (P × R)
  checkedConclude : P → R → Branch → Option P
  checkedReset : P → Option P

open CheckedPredictor

variable {P R Q : Type} [SpeculativePredictor P R Q] [SteppedPredictor P] [CheckedPredictor P]

/-! ## Checked operations -/

def checkedUpdate (p : P) (r : R) (b : Branch) : Option (UpdateResult P R) := do
  let r ← checkedFinalize p r b.pc
  match rollbackError? p r with
  | some error => return ⟨p, r, some error⟩
  | none =>
    let (p, r) ← checkedUndo p r
    match ← checkedAppendError? p b with
    | some error => return ⟨p, r, some error⟩
    | none =>
      let (p, r) ← checkedApply p r b
      return ⟨p, r, none⟩

def checkedCommit (p : P) (r : R) (b : Branch) : Option (ReleaseResult P) := do
  let r ← checkedFinalize p r b.pc
  if (contribution? P r).isSome then
    let p ← checkedConclude p r b
    return ⟨p, none⟩
  else
    match ← checkedAppendError? p b with
    | some error => return ⟨p, some error⟩
    | none =>
      let (p, r) ← checkedApply p r b
      let p ← checkedConclude p r b
      return ⟨p, none⟩

def checkedSquash (p : P) (r : R) : Option (ReleaseResult P) :=
  match rollbackError? p r with
  | some error => some ⟨p, some error⟩
  | none => do
    let (p, _) ← checkedUndo p r
    return ⟨p, none⟩

namespace Session

def checkedModify (s : Session P R) (h : Nat) (step : P → R → Option (UpdateResult P R)) :
    Option (Session P R × Option PredictorError) :=
  match s.records h with
  | none => some (s, none)
  | some r => do
    let result ← step s.predictor r
    return ({ s with
      predictor := result.predictor
      records := put s.records h (some result.record) }, result.error?)

/-- Give up the record of a handle; `kept` says what remains of it if the step succeeds. -/
def checkedRelease (s : Session P R) (h : Nat) (kept : R → List R)
    (step : P → R → Option (ReleaseResult P)) : Option (Session P R × Option PredictorError) :=
  match s.records h with
  | none => some (s, none)
  | some r => do
    let result ← step s.predictor r
    return (⟨result.predictor, put s.records h none,
      (if result.error?.isNone then kept r else []) ++ s.committed⟩, result.error?)

/-- Carry out one call with checks, and answer its error. -/
def checkedPerform (s : Session P R) : Call → Option (Session P R × Option PredictorError)
  | .predict h pc isConditional => do
    let (_, r) ← checkedPredict s.predictor pc isConditional
    return ({ s with records := put s.records h (some r) }, none)
  | .placeholder h pc isConditional =>
    let r := SpeculativePredictor.placeholder s.predictor pc isConditional
    some ({ s with records := put s.records h (some r) }, none)
  | .update h b => s.checkedModify h fun p r => checkedUpdate p r b
  | .repair h b => s.checkedModify h fun p r => checkedUpdate (countRepair p) r b
  | .commit h b => s.checkedRelease h (fun r => [r]) fun p r => checkedCommit p r b
  | .squash h => s.checkedRelease h (fun _ => []) checkedSquash
  | .reset => do
    let p ← checkedReset s.predictor
    return ({ s with predictor := p }, none)

/-- Carry out calls with checks one after another, and answer their errors. -/
def checkedRun (s : Session P R) : List Call → Option (Session P R × List PredictorError)
  | [] => some (s, [])
  | call :: calls => do
    let (s, error?) ← s.checkedPerform call
    let (s, errors) ← checkedRun s calls
    return (s, error?.toList ++ errors)

end Session

/-! ## No check fails -/

/-- What it takes for no check to fail: every step passes its checks as long as the predictor
satisfies `I` and the record `J`.  A record that is committed is `Definite` besides, which is what
a lookup makes of it. -/
structure Guarded (I : P → Prop) (J Definite : R → Prop) : Prop where
  records : KeptRecords I J
  definite_finalize : ∀ (p : P) (r : R) (pc : UInt64), Definite (finalize p r pc)
  definite_applied : ∀ (p : P) {r : R}, Definite r → ∀ b : Branch, Definite (apply p r b).2
  accepted : ∀ {p : P} {r : R}, I p → J r → accepts p r = true
  violation_of_rollback : ∀ {p : P} {r : R} {error : PredictorError},
    rollbackError? p r = some error → error.IsViolation
  violation_of_append : ∀ {p : P} {b : Branch} {error : PredictorError}, I p →
    appendError? p b = some error → error.IsViolation
  checkedPredict_eq : ∀ {p : P}, I p → ∀ (pc : UInt64) (isConditional : Bool),
    checkedPredict p pc isConditional = some (SpeculativePredictor.predict p pc isConditional)
  checkedFinalize_eq : ∀ {p : P} (r : R), I p → ∀ pc : UInt64,
    checkedFinalize p r pc = some (finalize p r pc)
  checkedUndo_eq : ∀ {p : P} {r : R}, I p → J r → rollbackError? p r = none →
    checkedUndo p r = some (undo p r)
  checkedAppendError?_eq : ∀ {p : P}, I p → ∀ b : Branch,
    checkedAppendError? p b = some (appendError? p b)
  checkedApply_eq : ∀ {p : P} {r : R}, I p → J r → ∀ b : Branch,
    checkedApply p r b = some (apply p r b)
  checkedConclude_eq : ∀ {p : P} {r : R}, I p → J r → Definite r → ∀ b : Branch,
    checkedConclude p r b = some (conclude p r b)
  checkedReset_eq : ∀ {p : P}, I p →
    checkedReset p = some (SpeculativePredictor.reset p)

/-- All checks pass on the way to a result, and the error that it comes with, if any, is a violation
of the protocol. -/
structure Passes {α : Type} (checked : Option α) (result : α) (error? : Option PredictorError) :
    Prop where
  eq_some : checked = some result
  violation : ∀ error, error? = some error → error.IsViolation

theorem Passes.of_none {α : Type} {checked : Option α} {result : α} (h : checked = some result) :
    Passes checked result none :=
  ⟨h, fun error herror => by cases herror⟩

theorem Passes.of_some {α : Type} {checked : Option α} {result : α} {error : PredictorError}
    (h : checked = some result) (hviolation : error.IsViolation) :
    Passes checked result (some error) := by
  refine ⟨h, fun error' herror => ?_⟩
  rwa [← Option.some.inj herror]

namespace Guarded

variable {I : P → Prop} {J Definite : R → Prop} {p : P} {r : R}

theorem checkedUpdate_eq (hguarded : Guarded I J Definite) (hp : I p) (hr : J r) (b : Branch) :
    Passes (checkedUpdate p r b) (SpeculativePredictor.update p r b)
      (SpeculativePredictor.update p r b).error? := by
  have hfinalized := hguarded.records.finalized hp hr b.pc
  have hp' := hguarded.records.kept.undo hp (finalize p r b.pc)
  have hundone := hguarded.records.undone hp hfinalized
  rw [update_eq, hguarded.accepted hp hr, checkedUpdate, hguarded.checkedFinalize_eq r hp]
  simp only [Option.bind_eq_bind, Option.bind_some, Bool.not_true, Bool.false_eq_true, if_false]
  cases hrollback : rollbackError? p (finalize p r b.pc) with
  | some error =>
      exact .of_some rfl (hguarded.violation_of_rollback hrollback)
  | none =>
      simp only [hguarded.checkedUndo_eq hp hfinalized hrollback, Option.bind_some,
        hguarded.checkedAppendError?_eq hp' b]
      cases happend : appendError? (undo p (finalize p r b.pc)).1 b with
      | some error =>
          exact .of_some rfl (hguarded.violation_of_append hp' happend)
      | none =>
          simp only [hguarded.checkedApply_eq hp' hundone b, Option.bind_some]
          exact .of_none rfl

theorem checkedCommit_eq (hguarded : Guarded I J Definite) (hp : I p) (hr : J r) (b : Branch) :
    Passes (checkedCommit p r b) (SpeculativePredictor.commit p r b)
      (SpeculativePredictor.commit p r b).error? := by
  have hfinalized := hguarded.records.finalized hp hr b.pc
  have hdefinite := hguarded.definite_finalize p r b.pc
  have hp' := hguarded.records.kept.apply hp (finalize p r b.pc) b
  have happlied := hguarded.records.applied hp hfinalized b
  have hdefinite' := hguarded.definite_applied p hdefinite b
  rw [commit_eq, hguarded.accepted hp hr, checkedCommit, hguarded.checkedFinalize_eq r hp]
  simp only [Option.bind_eq_bind, Option.bind_some, Bool.not_true, Bool.false_eq_true, if_false]
  split
  · simp only [hguarded.checkedConclude_eq hp hfinalized hdefinite b, Option.bind_some]
    exact .of_none rfl
  · simp only [hguarded.checkedAppendError?_eq hp b, Option.bind_some]
    cases happend : appendError? p b with
    | some error =>
        exact .of_some rfl (hguarded.violation_of_append hp happend)
    | none =>
        simp only [hguarded.checkedApply_eq hp hfinalized b, Option.bind_some,
          hguarded.checkedConclude_eq hp' happlied hdefinite' b]
        exact .of_none rfl

theorem checkedSquash_eq (hguarded : Guarded I J Definite) (hp : I p) (hr : J r) :
    Passes (checkedSquash p r) (SpeculativePredictor.squash p r)
      (SpeculativePredictor.squash p r).error? := by
  rw [squash_eq, hguarded.accepted hp hr, checkedSquash]
  simp only [Bool.not_true, Bool.false_eq_true, if_false]
  cases hrollback : rollbackError? p r with
  | some error =>
      exact .of_some rfl (hguarded.violation_of_rollback hrollback)
  | none =>
      simp only [hguarded.checkedUndo_eq hp hr hrollback]
      exact .of_none rfl

section Sessions

variable {s : Session P R}

theorem checkedModify_eq {h : Nat} {checkedStep : P → R → Option (UpdateResult P R)}
    {step : P → R → UpdateResult P R}
    (hstep : ∀ r, s.records h = some r →
      Passes (checkedStep s.predictor r) (step s.predictor r) (step s.predictor r).error?) :
    Passes (s.checkedModify h checkedStep) (s.modify h step) (s.modify h step).2 := by
  unfold Session.checkedModify Session.modify
  cases hrecord : s.records h with
  | none => exact .of_none rfl
  | some r =>
      obtain ⟨hchecked, hviolation⟩ := hstep r hrecord
      simp only [hchecked]
      exact ⟨rfl, hviolation⟩

theorem checkedRelease_eq {h : Nat} {kept : R → List R}
    {checkedStep : P → R → Option (ReleaseResult P)} {step : P → R → ReleaseResult P}
    (hstep : ∀ r, s.records h = some r →
      Passes (checkedStep s.predictor r) (step s.predictor r) (step s.predictor r).error?) :
    Passes (s.checkedRelease h kept checkedStep) (s.release h kept step)
      (s.release h kept step).2 := by
  unfold Session.checkedRelease Session.release
  cases hrecord : s.records h with
  | none => exact .of_none rfl
  | some r =>
      obtain ⟨hchecked, hviolation⟩ := hstep r hrecord
      simp only [hchecked]
      exact ⟨rfl, hviolation⟩

theorem checkedPerform_eq (hguarded : Guarded I J Definite) (hs : s.Satisfies I J) (call : Call) :
    Passes (s.checkedPerform call) (s.perform call) (s.perform call).2 := by
  have hp := hs.predictor
  cases call with
  | predict h pc isConditional =>
      simp only [Session.checkedPerform, hguarded.checkedPredict_eq hp]
      exact .of_none rfl
  | placeholder h pc isConditional => exact .of_none rfl
  | update h b =>
      simp only [Session.checkedPerform, Session.perform]
      apply checkedModify_eq
      intro r hr
      exact hguarded.checkedUpdate_eq hp (hs.records hr) b
  | repair h b =>
      simp only [Session.checkedPerform, Session.perform]
      apply checkedModify_eq
      intro r hr
      simp only [repair_eq]
      exact hguarded.checkedUpdate_eq (hguarded.records.kept.countRepair hp) (hs.records hr) b
  | commit h b =>
      simp only [Session.checkedPerform, Session.perform]
      apply checkedRelease_eq
      intro r hr
      exact hguarded.checkedCommit_eq hp (hs.records hr) b
  | squash h =>
      simp only [Session.checkedPerform, Session.perform]
      apply checkedRelease_eq
      intro r hr
      exact hguarded.checkedSquash_eq hp (hs.records hr)
  | reset =>
      simp only [Session.checkedPerform, hguarded.checkedReset_eq hp]
      exact .of_none rfl

/-- No check fails in any session, and whatever is refused violates the protocol. -/
theorem checkedRun_eq (hguarded : Guarded I J Definite) (hs : s.Satisfies I J)
    (calls : List Call) :
    s.checkedRun calls = some (s.run calls, s.errors calls) ∧
      ∀ error ∈ s.errors calls, error.IsViolation := by
  induction calls generalizing s with
  | nil => exact ⟨rfl, fun error herror => by cases herror⟩
  | cons call calls ih =>
      obtain ⟨hcall, hviolation⟩ := hguarded.checkedPerform_eq hs call
      obtain ⟨hrest, hviolations⟩ := ih (hguarded.records.perform hs call)
      constructor
      · simp only [Session.checkedRun, hcall, Option.bind_eq_bind, Option.bind_some, hrest]
        rfl
      · intro error herror
        rcases List.mem_append.1 herror with hmem | hmem
        · exact hviolation error (Option.mem_toList.1 hmem)
        · exact hviolations error hmem

end Sessions

end Guarded

/-! ## Histories -/

omit [CheckedPredictor P]

/-- The contribution of the record, if it made one, starts in a register of this size. -/
def StartsIn (P : Type) {R Q : Type} [SpeculativePredictor P R Q] [SteppedPredictor P] (size : Nat)
    (r : R) : Prop :=
  ∀ c, checkpoint? P r = some c → c.start < size

namespace KeepsHistory

variable [HistoryKeeper P] {Sound : P → Prop} {p : P} {r : R}

theorem violation_of_rollback (laws : KeepsHistory Sound) {error : PredictorError}
    (h : rollbackError? p r = some error) : error.IsViolation := by
  rw [laws.rollbackError?_eq] at h
  obtain ⟨violation, -, rfl⟩ := Option.map_eq_some_iff.1 h
  exact ⟨violation, rfl⟩

/-- A branch that inserts no more than a word is refused for want of room only. -/
theorem violation_of_append (laws : KeepsHistory Sound) {b : Branch}
    (hcount : (historyBits p b).2 ≤ 64) {error : PredictorError}
    (h : appendError? p b = some error) : error.IsViolation := by
  rw [laws.appendError?_eq, SpeculativeHistory.appendError?, if_neg (by omega)] at h
  obtain ⟨violation, -, rfl⟩ := Option.map_eq_some_iff.1 h
  exact ⟨violation, rfl⟩

theorem startsIn_applied (laws : KeepsHistory Sound) (b : Branch) :
    StartsIn P (history p).register.size (apply p r b).2 := by
  intro c hc
  rw [laws.checkpoint?_applied] at hc
  obtain rfl := Option.some.inj hc
  exact (history p).register.start_lt

theorem startsIn_undone (laws : KeepsHistory Sound) (size : Nat) :
    StartsIn P size (undo p r).2 := by
  intro c hc
  rw [laws.checkpoint?_undone] at hc
  cases hc

/-- An undo that is not refused brings the write position back to where the contribution
started. -/
theorem position_undo (laws : KeepsHistory Sound)
    (hstarts : StartsIn P (history p).register.size r) (hrollback : rollbackError? p r = none)
    {c : Checkpoint} (hc : checkpoint? P r = some c) :
    (history (undo p r).1).position = c.start := by
  have horder : (history p).disordered? (checkpoint? P r) = none := by
    rw [laws.rollbackError?_eq] at hrollback
    exact Option.map_eq_none_iff.1 hrollback
  rw [hc, SpeculativeHistory.disordered?_eq_none_iff (hstarts c hc)] at horder
  rw [laws.history_undo, hc, SpeculativeHistory.position_undone, horder]

end KeepsHistory

end BranchPrediction
