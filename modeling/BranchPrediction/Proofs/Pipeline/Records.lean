import BranchPrediction.Proofs.Pipeline.Rewind

/-!
# What the records in use satisfy

A record is made by a lookup or without one.  From then on it is looked up at most once more, and
otherwise only applied and undone.  What it has when it is made and keeps along these steps
(`KeptRecords`) holds of every record in use, after refused calls too (`KeptRecords.run`).
-/

namespace BranchPrediction

open SteppedPredictor

variable {P R Q : Type} [SpeculativePredictor P R Q] [SteppedPredictor P] {I : P → Prop}
  {J : R → Prop}

/-- A property of predictors that every step keeps, and one of records that every step keeps of the
record that it is given. -/
structure KeptRecords (I : P → Prop) (J : R → Prop) : Prop where
  kept : Kept I
  made : ∀ {p : P}, I p → ∀ (predicted : Bool) (pc : UInt64) (isConditional : Bool),
    J (newRecord p predicted pc isConditional)
  finalized : ∀ {p : P} {r : R}, I p → J r → ∀ pc : UInt64, J (finalize p r pc)
  applied : ∀ {p : P} {r : R}, I p → J r → ∀ b : Branch, J (apply p r b).2
  undone : ∀ {p : P} {r : R}, I p → J r → J (undo p r).2

/-- The predictor and the records in use have their properties. -/
structure Session.Satisfies (I : P → Prop) (J : R → Prop) (s : Session P R) : Prop where
  predictor : I s.predictor
  records : ∀ {h : Nat} {r : R}, s.records h = some r → J r

namespace KeptRecords

variable {s : Session P R}

theorem update (hkept : KeptRecords I J) {p : P} {r : R} (hp : I p) (hr : J r) (b : Branch) :
    J (SpeculativePredictor.update p r b).record := by
  have hfinalized := hkept.finalized hp hr b.pc
  have hundone := hkept.undone hp hfinalized
  rw [update_eq]
  split
  · exact hr
  · split
    · exact hfinalized
    · simp only
      split
      · exact hundone
      · exact hkept.applied (hkept.kept.undo hp _) hundone b

theorem start (_hkept : KeptRecords I J) {p : P} (hp : I p) :
    (Session.start p : Session P R).Satisfies I J :=
  ⟨hp, fun hrecord => by cases hrecord⟩

theorem put (_hkept : KeptRecords I J) (hs : s.Satisfies I J) {q : P} (hq : I q) (h : Nat)
    {r? : Option R} (hr : ∀ r, r? = some r → J r) (committed : List R) :
    Session.Satisfies I J ⟨q, Session.put s.records h r?, committed⟩ := by
  refine ⟨hq, ?_⟩
  intro k r hrecord
  change Session.put s.records h r? k = some r at hrecord
  by_cases hk : k = h
  · rw [hk, Session.put_same] at hrecord
    exact hr r hrecord
  · rw [Session.put_of_ne _ hk] at hrecord
    exact hs.records hrecord

theorem create (hkept : KeptRecords I J) (hs : s.Satisfies I J) (h : Nat) (predicted : Bool)
    (pc : UInt64) (isConditional : Bool) :
    (s.perform (.create h predicted pc isConditional)).1.Satisfies I J := by
  rw [Session.perform_create]
  refine hkept.put hs hs.predictor h ?_ s.committed
  intro r hr
  obtain rfl := Option.some.inj hr
  exact hkept.made hs.predictor predicted pc isConditional

theorem modify (hkept : KeptRecords I J) (hs : s.Satisfies I J) (h : Nat)
    {step : P → R → UpdateResult P R}
    (hstep : ∀ r, J r → I (step s.predictor r).predictor ∧ J (step s.predictor r).record) :
    (s.modify h step).1.Satisfies I J := by
  unfold Session.modify
  cases hrecord : s.records h with
  | none => exact hs
  | some r =>
      obtain ⟨hpredictor, hr⟩ := hstep r (hs.records hrecord)
      refine hkept.put hs hpredictor h ?_ s.committed
      intro r' hr'
      rwa [← Option.some.inj hr']

theorem release (hkept : KeptRecords I J) (hs : s.Satisfies I J) (h : Nat) {kept : R → List R}
    {step : P → R → ReleaseResult P} (hstep : ∀ r, I (step s.predictor r).predictor) :
    (s.release h kept step).1.Satisfies I J := by
  unfold Session.release
  cases s.records h with
  | none => exact hs
  | some r => exact hkept.put hs (hstep r) h (by simp) _

theorem perform (hkept : KeptRecords I J) (hs : s.Satisfies I J) (call : Call) :
    (s.perform call).1.Satisfies I J := by
  have hp := hs.predictor
  cases call with
  | predict h pc isConditional => exact hkept.create hs h true pc isConditional
  | placeholder h pc isConditional => exact hkept.create hs h false pc isConditional
  | update h b =>
      exact hkept.modify hs h fun r hr => ⟨hkept.kept.update hp r b, hkept.update hp hr b⟩
  | repair h b =>
      refine hkept.modify hs h fun r hr => ?_
      rw [repair_eq]
      have hcounted := hkept.kept.countRepair hp
      exact ⟨hkept.kept.update hcounted r b, hkept.update hcounted hr b⟩
  | commit h b => exact hkept.release hs h fun r => hkept.kept.commit hp r b
  | squash h => exact hkept.release hs h fun r => hkept.kept.squash hp r
  | reset => exact ⟨hkept.kept.reset hp, hs.records⟩

/-- Every session has the properties from its start on. -/
theorem run (hkept : KeptRecords I J) (hs : s.Satisfies I J) (calls : List Call) :
    (s.run calls).Satisfies I J := by
  induction calls generalizing s with
  | nil => exact hs
  | cons call calls ih => exact ih (hkept.perform hs call)

end KeptRecords

end BranchPrediction
