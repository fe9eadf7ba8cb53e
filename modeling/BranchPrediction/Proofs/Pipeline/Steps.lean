import BranchPrediction.Proofs.Pipeline.Session

/-!
# The steps of a predictor

The operations of both predictors are built from the same checks and total steps: make the record
definite, undo its contribution, insert history, learn and retire.  `SteppedPredictor` names these
parts and equates the operations with their composition.  What every step keeps then holds of every
reachable state (`Kept.reachable`), after refused calls too.

Repairs are counted in the statistics and nowhere else.  `forget` sets that count to zero, and no
step depends on it: sessions that agree up to the count stay so, and a repair does what an update
does (`run_asUpdate`).
-/

namespace BranchPrediction

/-- A predictor whose operations check first and then act. -/
class SteppedPredictor (P : Type) {R Q : outParam Type} [SpeculativePredictor P R Q] where
  /-- The record fits the predictor. -/
  accepts : P → R → Bool
  /-- Look the branch of a record up, if that has not been done. -/
  finalize : P → R → UInt64 → R
  contribution? : R → Option Contribution
  appendError? : P → Branch → Option PredictorError
  rollbackError? : P → R → Option PredictorError
  apply : P → R → Branch → P × R
  undo : P → R → P × R
  /-- Learn from a branch and retire it. -/
  conclude : P → R → Branch → P
  countRepair : P → P
  /-- The predictor with no repairs counted. -/
  forget : P → P
  update_eq : ∀ (p : P) (r : R) (b : Branch), SpeculativePredictor.update p r b =
    if !accepts p r then ⟨p, r, some (.precondition .foreignRecord)⟩
    else
      match rollbackError? p (finalize p r b.pc) with
      | some error => ⟨p, finalize p r b.pc, some error⟩
      | none =>
        let undone := undo p (finalize p r b.pc)
        match appendError? undone.1 b with
        | some error => ⟨undone.1, undone.2, some error⟩
        | none => ⟨(apply undone.1 undone.2 b).1, (apply undone.1 undone.2 b).2, none⟩
  repair_eq : ∀ (p : P) (r : R) (b : Branch),
    SpeculativePredictor.repair p r b = SpeculativePredictor.update (countRepair p) r b
  commit_eq : ∀ (p : P) (r : R) (b : Branch), SpeculativePredictor.commit p r b =
    if !accepts p r then ⟨p, some (.precondition .foreignRecord)⟩
    else if (contribution? (finalize p r b.pc)).isSome then
      ⟨conclude p (finalize p r b.pc) b, none⟩
    else
      match appendError? p b with
      | some error => ⟨p, some error⟩
      | none =>
        let applied := apply p (finalize p r b.pc) b
        ⟨conclude applied.1 applied.2 b, none⟩
  squash_eq : ∀ (p : P) (r : R), SpeculativePredictor.squash p r =
    if !accepts p r then ⟨p, some (.precondition .foreignRecord)⟩
    else
      match rollbackError? p r with
      | some error => ⟨p, some error⟩
      | none => ⟨(undo p r).1, none⟩
  predict_forget : ∀ (p : P) (pc : UInt64) (isConditional : Bool),
    SpeculativePredictor.predict (forget p) pc isConditional =
      SpeculativePredictor.predict p pc isConditional
  placeholder_forget : ∀ (p : P) (pc : UInt64) (isConditional : Bool),
    SpeculativePredictor.placeholder (forget p) pc isConditional =
      SpeculativePredictor.placeholder p pc isConditional
  accepts_forget : ∀ (p : P) (r : R), accepts (forget p) r = accepts p r
  finalize_forget : ∀ (p : P) (r : R) (pc : UInt64), finalize (forget p) r pc = finalize p r pc
  appendError?_forget : ∀ (p : P) (b : Branch), appendError? (forget p) b = appendError? p b
  rollbackError?_forget : ∀ (p : P) (r : R), rollbackError? (forget p) r = rollbackError? p r
  apply_forget : ∀ (p : P) (r : R) (b : Branch),
    apply (forget p) r b = (forget (apply p r b).1, (apply p r b).2)
  undo_forget : ∀ (p : P) (r : R), undo (forget p) r = (forget (undo p r).1, (undo p r).2)
  conclude_forget : ∀ (p : P) (r : R) (b : Branch),
    conclude (forget p) r b = forget (conclude p r b)
  reset_forget : ∀ p : P,
    SpeculativePredictor.reset (forget p) = forget (SpeculativePredictor.reset p)
  forget_forget : ∀ p : P, forget (forget p) = forget p
  forget_countRepair : ∀ p : P, forget (countRepair p) = forget p

open SteppedPredictor

variable {P R Q : Type} [SpeculativePredictor P R Q]

/-! ## What every step keeps -/

/-- The states that calls lead to from a predictor, whatever records they are given. -/
inductive Reachable (origin : P) : P → Prop
  | origin : Reachable origin origin
  | update {p : P} (h : Reachable origin p) (r : R) (b : Branch) :
      Reachable origin (SpeculativePredictor.update p r b).predictor
  | repair {p : P} (h : Reachable origin p) (r : R) (b : Branch) :
      Reachable origin (SpeculativePredictor.repair p r b).predictor
  | commit {p : P} (h : Reachable origin p) (r : R) (b : Branch) :
      Reachable origin (SpeculativePredictor.commit p r b).predictor
  | squash {p : P} (h : Reachable origin p) (r : R) :
      Reachable origin (SpeculativePredictor.squash p r).predictor
  | reset {p : P} (h : Reachable origin p) : Reachable origin (SpeculativePredictor.reset p)

namespace Session

theorem reachable_modify {origin : P} {s : Session P R} {h : Nat}
    {step : P → R → UpdateResult P R} (hs : Reachable origin s.predictor)
    (hstep : ∀ r, Reachable origin (step s.predictor r).predictor) :
    Reachable origin (s.modify h step).1.predictor := by
  unfold modify
  split
  · exact hs
  · exact hstep _

theorem reachable_release {origin : P} {s : Session P R} {h : Nat} {kept : R → List R}
    {step : P → R → ReleaseResult P} (hs : Reachable origin s.predictor)
    (hstep : ∀ r, Reachable origin (step s.predictor r).predictor) :
    Reachable origin (s.release h kept step).1.predictor := by
  unfold release
  split
  · exact hs
  · exact hstep _

theorem reachable_perform {origin : P} {s : Session P R} (hs : Reachable origin s.predictor)
    (call : Call) : Reachable origin (s.perform call).1.predictor := by
  cases call with
  | predict h pc isConditional => exact hs
  | placeholder h pc isConditional => exact hs
  | update h b => exact reachable_modify hs fun r => hs.update r b
  | repair h b => exact reachable_modify hs fun r => hs.repair r b
  | commit h b => exact reachable_release hs fun r => hs.commit r b
  | squash h => exact reachable_release hs fun r => hs.squash r
  | reset => exact hs.reset

/-- A session only visits reachable states. -/
theorem reachable_run {origin : P} {s : Session P R} (hs : Reachable origin s.predictor)
    (calls : List Call) : Reachable origin (s.run calls).predictor := by
  induction calls generalizing s with
  | nil => exact hs
  | cons call calls ih => exact ih (reachable_perform hs call)

end Session

variable [SteppedPredictor P]

/-- A property of predictors that every step keeps. -/
structure Kept (I : P → Prop) : Prop where
  apply : ∀ {p : P}, I p → ∀ (r : R) (b : Branch), I (apply p r b).1
  undo : ∀ {p : P}, I p → ∀ r : R, I (undo p r).1
  conclude : ∀ {p : P}, I p → ∀ (r : R) (b : Branch), I (conclude p r b)
  countRepair : ∀ {p : P}, I p → I (countRepair p)
  reset : ∀ {p : P}, I p → I (SpeculativePredictor.reset p)

namespace Kept

variable {I : P → Prop}

theorem and {J : P → Prop} (hI : Kept I) (hJ : Kept J) : Kept fun p => I p ∧ J p where
  apply h r b := ⟨hI.apply h.1 r b, hJ.apply h.2 r b⟩
  undo h r := ⟨hI.undo h.1 r, hJ.undo h.2 r⟩
  conclude h r b := ⟨hI.conclude h.1 r b, hJ.conclude h.2 r b⟩
  countRepair h := ⟨hI.countRepair h.1, hJ.countRepair h.2⟩
  reset h := ⟨hI.reset h.1, hJ.reset h.2⟩

theorem update (hkept : Kept I) {p : P} (h : I p) (r : R) (b : Branch) :
    I (SpeculativePredictor.update p r b).predictor := by
  rw [update_eq]
  split
  · exact h
  · split
    · exact h
    · have hundo := hkept.undo h (finalize p r b.pc)
      simp only
      split
      · exact hundo
      · exact hkept.apply hundo _ b

theorem commit (hkept : Kept I) {p : P} (h : I p) (r : R) (b : Branch) :
    I (SpeculativePredictor.commit p r b).predictor := by
  rw [commit_eq]
  split
  · exact h
  · split
    · exact hkept.conclude h _ b
    · split
      · exact h
      · exact hkept.conclude (hkept.apply h _ b) _ b

theorem squash (hkept : Kept I) {p : P} (h : I p) (r : R) :
    I (SpeculativePredictor.squash p r).predictor := by
  rw [squash_eq]
  split
  · exact h
  · split
    · exact h
    · exact hkept.undo h r

/-- What every step keeps holds of every reachable state. -/
theorem reachable (hkept : Kept I) {origin p : P} (horigin : I origin)
    (h : Reachable origin p) : I p := by
  induction h with
  | origin => exact horigin
  | update _ r b ih => exact hkept.update ih r b
  | repair _ r b ih =>
      rw [repair_eq]
      exact hkept.update (hkept.countRepair ih) r b
  | commit _ r b ih => exact hkept.commit ih r b
  | squash _ r ih => exact hkept.squash ih r
  | reset _ ih => exact hkept.reset ih

end Kept

/-! ## The count of repairs -/

theorem update_forget (p : P) (r : R) (b : Branch) :
    SpeculativePredictor.update (forget p) r b =
      ⟨forget (SpeculativePredictor.update p r b).predictor,
        (SpeculativePredictor.update p r b).record,
        (SpeculativePredictor.update p r b).error?⟩ := by
  rw [update_eq, update_eq]
  simp only [accepts_forget, finalize_forget, rollbackError?_forget, undo_forget,
    appendError?_forget, apply_forget]
  split
  · rfl
  · split
    · rfl
    · split
      · rfl
      · rfl

theorem commit_forget (p : P) (r : R) (b : Branch) :
    SpeculativePredictor.commit (forget p) r b =
      ⟨forget (SpeculativePredictor.commit p r b).predictor,
        (SpeculativePredictor.commit p r b).error?⟩ := by
  rw [commit_eq, commit_eq]
  simp only [accepts_forget, finalize_forget, appendError?_forget, apply_forget, conclude_forget]
  split
  · rfl
  · split
    · rfl
    · split
      · rfl
      · rfl

theorem squash_forget (p : P) (r : R) :
    SpeculativePredictor.squash (forget p) r =
      ⟨forget (SpeculativePredictor.squash p r).predictor,
        (SpeculativePredictor.squash p r).error?⟩ := by
  rw [squash_eq, squash_eq]
  simp only [accepts_forget, rollbackError?_forget, undo_forget]
  split
  · rfl
  · split
    · rfl
    · rfl

/-- A repair does what an update does, but for the count. -/
theorem repair_forget (p : P) (r : R) (b : Branch) :
    (⟨forget (SpeculativePredictor.repair p r b).predictor,
        (SpeculativePredictor.repair p r b).record,
        (SpeculativePredictor.repair p r b).error?⟩ : UpdateResult P R) =
      SpeculativePredictor.update (forget p) r b := by
  rw [repair_eq, ← update_forget, forget_countRepair]

namespace Session

/-- The session with no repairs counted. -/
def forget (s : Session P R) : Session P R :=
  { s with predictor := SteppedPredictor.forget s.predictor }

/-- Sessions that agree up to the count of repairs agree in everything else. -/
theorem agree_of_forget_eq {s t : Session P R} (h : s.forget = t.forget) :
    SteppedPredictor.forget s.predictor = SteppedPredictor.forget t.predictor ∧
      s.records = t.records ∧ s.committed = t.committed :=
  ⟨congrArg (fun u => u.predictor) h, congrArg (fun u => u.records) h,
    congrArg (fun u => u.committed) h⟩

/-- A call does not depend on the count of repairs, and a repair is an update but for it. -/
theorem perform_asUpdate (s : Session P R) (call : Call) :
    (s.perform call).1.forget = (s.forget.perform call.asUpdate).1.forget ∧
      (s.perform call).2 = (s.forget.perform call.asUpdate).2 := by
  have hforget := forget_forget (P := P)
  cases call with
  | predict h pc isConditional =>
      simp only [Call.asUpdate, perform, forget, predict_forget, hforget, and_self]
  | placeholder h pc isConditional =>
      simp only [Call.asUpdate, perform, forget, placeholder_forget, hforget, and_self]
  | update h b =>
      simp only [Call.asUpdate, perform, modify, forget]
      cases s.records h with
      | none => simp only [hforget, and_self]
      | some r => simp only [update_forget, hforget, and_self]
  | repair h b =>
      simp only [Call.asUpdate, perform, modify, forget]
      cases s.records h with
      | none => simp only [hforget, and_self]
      | some r => simp only [← repair_forget, hforget, and_self]
  | commit h b =>
      simp only [Call.asUpdate, perform, release, forget]
      cases s.records h with
      | none => simp only [hforget, and_self]
      | some r => simp only [commit_forget, hforget, and_self]
  | squash h =>
      simp only [Call.asUpdate, perform, release, forget]
      cases s.records h with
      | none => simp only [hforget, and_self]
      | some r => simp only [squash_forget, hforget, and_self]
  | reset => simp only [Call.asUpdate, perform, forget, reset_forget, hforget, and_self]

/-- Sessions that agree up to the count of repairs agree after the same calls, with the same
errors, and repairs may be taken for updates. -/
theorem run_asUpdate {s t : Session P R} (hst : s.forget = t.forget) (calls : List Call) :
    (s.run calls).forget = (t.run (calls.map Call.asUpdate)).forget ∧
      s.errors calls = t.errors (calls.map Call.asUpdate) := by
  induction calls generalizing s t with
  | nil => exact ⟨hst, rfl⟩
  | cons call calls ih =>
      have hidem : call.asUpdate.asUpdate = call.asUpdate := by cases call <;> rfl
      obtain ⟨hleft, hleftError⟩ := perform_asUpdate s call
      obtain ⟨hright, hrightError⟩ := perform_asUpdate t call.asUpdate
      rw [hidem] at hright hrightError
      have hnext : (s.perform call).1.forget = (t.perform call.asUpdate).1.forget := by
        rw [hleft, hright, hst]
      obtain ⟨hrun, herrors⟩ := ih hnext
      refine ⟨hrun, ?_⟩
      rw [List.map_cons, errors, errors, herrors, hleftError, hrightError, hst]

theorem run_congr {s t : Session P R} (hst : s.forget = t.forget) (calls : List Call) :
    (s.run calls).forget = (t.run calls).forget ∧ s.errors calls = t.errors calls := by
  obtain ⟨hleft, hleftErrors⟩ := run_asUpdate hst calls
  obtain ⟨hright, hrightErrors⟩ := run_asUpdate (s := t) rfl calls
  exact ⟨hleft.trans hright.symm, hleftErrors.trans hrightErrors.symm⟩

end Session

end BranchPrediction
